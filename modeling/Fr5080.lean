import Fr5080.Embedded.Mem
import Fr5080.Embedded.RingBuffer
import Fr5080.Embedded.Run
import Fr5080.Embedded.Task
import Fr5080.Ipc.Driver
import Fr5080.Ipc.Run
import Fr5080.Ipc.Delivery
import Fr5080.Ipc.Ownership
import Fr5080.Ipc.Order
import Fr5080.Ota.Ota
import Fr5080.Ipc.Isolation
import Fr5080.Ipc.FreeCallback
import Fr5080.Decoder.Codec
import Fr5080.Decoder.Credit
import Fr5080.Decoder.Mp3
import Fr5080.Decoder.Mp3Fifo
import Fr5080.Decoder.Mp3Credit
import Fr5080.Decoder.Sbc
import Fr5080.Embedded.ChunkQueue
import Fr5080.Embedded.Sched
import Fr5080.Playback.Playback
import Fr5080.Playback.GapFree
import Fr5080.Playback.WordCopy
import Fr5080.Embedded.Nor
import Fr5080.Flash.Flash
import Fr5080.Ota.Service
import Fr5080.Ota.Erase
import Fr5080.Ota.Copy
import Fr5080.Flash.Nested
import Fr5080.Embedded.Chain
import Fr5080.Os.Timer
import Fr5080.Os.Firing
import Fr5080.Os.Trigger
import Fr5080.Decoder.Session
import Fr5080.Embedded.Heap
import Fr5080.Decoder.Start
import Fr5080.Decoder.Teardown
import Fr5080.Embedded.Lap
import Fr5080.Voice.Audio
import Fr5080.Voice.Downlink
import Fr5080.Voice.Uplink
import Fr5080.Voice.Teardown
import Fr5080.Embedded.DropQueue
import Fr5080.Encoder.Msbc
import Fr5080.Encoder.Queue
import Fr5080.Encoder.Teardown
import Fr5080.Decoder.Msbc
import Fr5080.Decoder.MsbcSession
import Fr5080.Decoder.MsbcIndependence
import Fr5080.Decoder.MsbcGrant
import Fr5080.Embedded.Ledger
import Fr5080.Playback.Resources
import Fr5080.Playback.Balance
import Fr5080.Ipc.Stall
import Fr5080.Boot.Serial
import Fr5080.Flash.Pages
import Fr5080.Ota.CopyAck
import Fr5080.Embedded.Forward
import Fr5080.Boot.Loader
import Fr5080.Ipc.LoadCode
import Fr5080.Boot.Response
import Fr5080.Boot.HostComm
import Fr5080.Boot.Agree
import Fr5080.Ipc.Basic
import Fr5080.Encoder.Sbc
import Fr5080.Encoder.SbcPacket
import Fr5080.Embedded.Word
import Fr5080.Boot.Handshake
import Fr5080.Embedded.Poll
import Fr5080.Flash.Status
import Fr5080.Embedded.Panel
import Fr5080.Lcd.Bus
import Fr5080.Lcd.Rm69330
import Fr5080.Lcd.St7796h
import Fr5080.Lcd.Gc9c01
import Fr5080.Flash.LoadData
import Fr5080.At.Number
import Fr5080.Embedded.Digits
import Fr5080.Embedded.Scan
import Fr5080.At.Framing
import Fr5080.At.Command
import Fr5080.Lib.Printi
import Fr5080.Lib.Print
import Fr5080.Embedded.Deque
import Fr5080.Os.Tasks
import Fr5080.Embedded.Segments
import Fr5080.Os.Heap4
import Fr5080.Os.Malloc
import Fr5080.Os.HeapRun
import Fr5080.Os.HeapNumbers
import Fr5080.Embedded.Crc
import Fr5080.Ota.Crc32
import Fr5080.Ota.Update
import Fr5080.Embedded.Rings
import Fr5080.Embedded.Turns
import Fr5080.Kernel.List
import Fr5080.Kernel.Tasks
import Fr5080.Kernel.Invariant
import Fr5080.Kernel.Blocking
import Fr5080.Kernel.Unblocking
import Fr5080.Kernel.Resuming
import Fr5080.Kernel.Run
import Fr5080.Kernel.Scheduling
