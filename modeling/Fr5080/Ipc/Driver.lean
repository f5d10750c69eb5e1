import Fr5080.Embedded.Mem

/-!
# Fr5080.Ipc.Driver

The transmit side of the IPC driver of `fr5080_basic_xip`
(`src/drivers/ipc/ipc.c`): four message channels towards the MCU, a byte
`available_buffer` with one bit per free channel, and a FIFO list of messages
that found no free channel.

Channels 0 and 1 own a 0x200-byte payload buffer in the exchange memory,
channels 2 and 3 can only carry commands.  The functions keep the names of
the C functions and are written in the order of their statements.  What the
C code reaches through pointers is explicit here: `ram` is the memory of the
callers (headers, payloads, memory-mapped flash), `shm` the exchange memory,
both addressed by absolute address.  An interrupt-masked function body is one
atomic step.  `basic_malloc` is assumed to succeed.

`IpcLog` holds *history variables*: they record which messages were
submitted, written to a channel and completed, and no driver decision reads
them.  A message is named by its `ticket`, its position in `submitted`.
-/

namespace Fr5080

open Embedded

/-! ## constants -/

/-- `IPC_CHANNELS`. -/
def ipcChannels : Nat := 4

/-- `IPC_WITH_LOAD_CHANNELS`: channels below this one own a payload buffer. -/
def ipcWithLoadChannels : Nat := 2

/-- `ipc_dir_t`. -/
inductive IpcDir
  | mcu2dsp
  | dsp2mcu
deriving DecidableEq, Repr

/-- The message types of `ipc_msg_type_t` and `ipc_user_msg_type_t`. -/
inductive IpcMsgType
  | loadCode
  | loadCodeDone
  | execUserCode
  | rawFrame
  | decodedPcmFrame
  | encodedSbcFrame
  | withoutPayload
  | rawBufferSpace
  | flashOperation
  | setSbcCodecParam
  | dspReady
  | rawSbcFrame
deriving DecidableEq, Repr

/-- The value of an enumerator. -/
def IpcMsgType.code : IpcMsgType → UInt8
  | .loadCode => 0
  | .loadCodeDone => 1
  | .execUserCode => 2
  | .rawFrame => 3
  | .decodedPcmFrame => 4
  | .encodedSbcFrame => 5
  | .withoutPayload => 6
  | .rawBufferSpace => 7
  | .flashOperation => 8
  | .setSbcCodecParam => 9
  | .dspReady => 10
  | .rawSbcFrame => 11

/-- `ipc_buffer_offset`: the opt buffers of the two payload channels. -/
def ipcBufferOffset : IpcDir → Nat → Nat
  | .mcu2dsp, 0 => 0x001F0800
  | .mcu2dsp, _ => 0x001F0A00
  | .dsp2mcu, 0 => 0x001F1800
  | .dsp2mcu, _ => 0x001F1A00

/-! ## data -/

/-- A function to be called when a message has been sent; `NULL` is `none`.
`user` stands for a function of the application, which does not call the
driver. -/
inductive IpcTxCallback
  | ipcFreeChannel
  | user (id : Nat)
deriving DecidableEq, Repr

/-- `ipc_msg_t`, a message register: a 10-bit length, a 4-bit format and two
flag bits.  The reserved half of the word is never read. -/
structure IpcMsg where
  length : Nat
  format : Nat
  tog : Nat
  tag : Nat
deriving DecidableEq, Repr

/-- The union `p` of `ipc_msg_elem_t`; `with_payload` tells which member is
meant. -/
inductive IpcMsgBody
  | subMsg (subMsg : UInt16)
  | payload (length : UInt16) (buffer : List UInt8)
deriving DecidableEq, Repr

/-- `ipc_msg_elem_t`, a deferred message. -/
structure IpcMsgElem where
  ticket : Nat
  callback : Option IpcTxCallback
  msg : IpcMsgType
  p : IpcMsgBody
deriving DecidableEq, Repr

/-- How a message reached the driver. -/
inductive IpcKind
  | msgSend
  | payloadSend
  | direct
deriving DecidableEq, Repr

/-- A submitted message: what the caller asked for, with the header and
payload bytes as they were at the time of the call. -/
structure IpcSubmission where
  kind : IpcKind
  format : UInt8
  allocLength : Nat
  length : Nat
  bytes : List UInt8
  callback : Option IpcTxCallback
deriving DecidableEq, Repr

/-- A write to `msg_out[chn]`: the message, the register value, the exchange
memory at that moment, and the message still in flight on the channel, if
any, which the write destroys. -/
structure IpcTransmission where
  ticket : Nat
  chn : Nat
  msg : IpcMsg
  shm : Nat → UInt8
  displaced : Option Nat

/-- A call of a transmit callback, on the completion of message `ticket`. -/
structure IpcCall where
  ticket : Option Nat
  chn : Nat
  callback : IpcTxCallback
deriving DecidableEq, Repr

/-- History variables. -/
structure IpcLog where
  submitted : List IpcSubmission
  sent : List IpcTransmission
  /-- the message on a channel that the MCU has not completed yet -/
  flight : Nat → Option Nat
  /-- completed messages and their channels, oldest first -/
  completed : List (Nat × Nat)
  called : List IpcCall
  /-- messages handed to the receive callback -/
  received : List (IpcMsg × Nat)

/-- The driver: `ipc_env`, `ipc_msg_list`, the message registers and the two
memories. -/
structure Ipc where
  availableBuffer : BitVec 8
  txCallback : Nat → Option IpcTxCallback
  rxCallback : Bool
  ipcMsgList : List IpcMsgElem
  msgOut : Nat → IpcMsg
  msgIn : Nat → IpcMsg
  ram : Nat → UInt8
  shm : Nat → UInt8
  log : IpcLog

/-! ## channels -/

/-- `ipc_init`, apart from the interrupt enable bits. -/
def ipcInit (callback : Bool) (s : Ipc) : Ipc :=
  { s with
    availableBuffer := BitVec.ofNat 8 ((1 <<< ipcChannels) - 1)
    txCallback := fun _ => none
    rxCallback := callback }

/-- The search loop of `ipc_alloc_channel`, from channel `i - 1` down. -/
def ipcAllocScan (availableBuffer : BitVec 8) : Nat → Option Nat
  | 0 => none
  | i + 1 => if availableBuffer.getLsbD i then some i else ipcAllocScan availableBuffer i

/-- Where the search of `ipc_alloc_channel` starts for a message length. -/
def ipcAllocLimit (length : UInt16) : Nat :=
  if length ≠ 0 then ipcWithLoadChannels else ipcChannels

/-- `ipc_alloc_channel`; the channel is 0xff when none is available. -/
def ipcAllocChannel (length : UInt16) (s : Ipc) : Nat × Ipc :=
  match ipcAllocScan s.availableBuffer (ipcAllocLimit length) with
  | some i => (i, { s with availableBuffer := s.availableBuffer &&& ~~~(1#8 <<< i) })
  | none => (0xff, s)

/-- `ipc_free_channel`. -/
def ipcFreeChannel (chn : Nat) (s : Ipc) : Ipc :=
  { s with
    availableBuffer := s.availableBuffer ||| (1#8 <<< chn)
    txCallback := Function.update s.txCallback chn none }

/-- The register value built by `ipc_insert_msg`. -/
def ipcMsgWord (chn : Nat) (format : UInt8) (length : UInt16) : IpcMsg where
  length := length.toNat % 2 ^ 10
  format := format.toNat % 2 ^ 4
  tog := chn % 2
  tag := 1

/-- `ipc_insert_msg` on one of the four channels; `ticket` is a history argument.  Its callers
compare the channel with 0xff before, or hold it; for those that do neither there is
`ipcInsertMsgUnchecked`. -/
def ipcInsertMsg (ticket : Nat) (chn : Nat) (format : UInt8) (length : UInt16)
    (callback : Option IpcTxCallback) (s : Ipc) : Ipc :=
  let msg := ipcMsgWord chn format length
  { s with
    txCallback := Function.update s.txCallback chn callback
    msgOut := Function.update s.msgOut chn msg
    log := { s.log with
      sent := s.log.sent ++ [⟨ticket, chn, msg, s.shm, s.log.flight chn⟩]
      flight := Function.update s.log.flight chn (some ticket) } }

/-- `ipc_insert_msg` on whatever `ipc_alloc_channel` returned.  With 0xff its two stores leave
`tx_callback[4]` and `msg_out[4]`, and there is no result. -/
def ipcInsertMsgUnchecked (ticket : Nat) (chn : Nat) (format : UInt8) (length : UInt16)
    (callback : Option IpcTxCallback) (s : Ipc) : Option Ipc :=
  if chn < ipcChannels then some (ipcInsertMsg ticket chn format length callback s) else none

/-- `ipc_get_buffer_offset`; `NULL` is address 0. -/
def ipcGetBufferOffset (type : IpcDir) (index : Nat) : Nat :=
  if index ≥ ipcWithLoadChannels then 0 else ipcBufferOffset type index

/-! ## sending -/

/-- Record a new message; its ticket is the number of messages before it. -/
def Ipc.submit (m : IpcSubmission) (s : Ipc) : Ipc :=
  { s with log := { s.log with submitted := s.log.submitted ++ [m] } }

/-- The ticket of the next message. -/
def Ipc.nextTicket (s : Ipc) : Nat := s.log.submitted.length

/-- `ipc_msg_sent`: try to send the first deferred message. -/
def ipcMsgSent (s : Ipc) : Ipc :=
  match s.ipcMsgList with
  | [] => s
  | ele :: rest =>
      let (chn, s) := match ele.p with
        | .payload length _ => ipcAllocChannel length s
        | .subMsg _ => ipcAllocChannel 0 s
      if chn ≠ 0xff then
        let s := { s with ipcMsgList := rest }
        match ele.p with
        | .payload length buffer =>
            let s :=
              if length ≠ 0 then
                let offset := ipcGetBufferOffset .dsp2mcu chn
                { s with shm := store s.shm offset (buffer.take length.toNat) }
              else s
            ipcInsertMsg ele.ticket chn ele.msg.code length ele.callback s
        | .subMsg subMsg => ipcInsertMsg ele.ticket chn ele.msg.code subMsg ele.callback s
      else s

/-- The message an `ipc_msg_send` call submits. -/
def ipcMsgSendSubmission (msg : IpcMsgType) (subMsg : UInt16)
    (callback : Option IpcTxCallback) : IpcSubmission where
  kind := .msgSend
  format := msg.code
  allocLength := 0
  length := subMsg.toNat
  bytes := []
  callback := callback

/-- `ipc_msg_send`. -/
def ipcMsgSend (msg : IpcMsgType) (subMsg : UInt16) (callback : Option IpcTxCallback)
    (s : Ipc) : Ipc :=
  let ticket := s.nextTicket
  let s := s.submit (ipcMsgSendSubmission msg subMsg callback)
  let (chn, s) := ipcAllocChannel 0 s
  if chn ≠ 0xff then
    ipcInsertMsg ticket chn msg.code subMsg callback s
  else
    { s with ipcMsgList := s.ipcMsgList ++ [⟨ticket, callback, msg, .subMsg subMsg⟩] }

/-- The message an `ipc_msg_with_payload_send` call submits in state `s`. -/
def ipcMsgWithPayloadSubmission (msg : IpcMsgType) (header : Nat) (headerLength : UInt16)
    (payload : Nat) (payloadLength : UInt16) (callback : Option IpcTxCallback)
    (s : Ipc) : IpcSubmission where
  kind := .payloadSend
  format := msg.code
  allocLength := (headerLength + payloadLength).toNat
  length := headerLength.toNat + payloadLength.toNat
  bytes := slice s.ram header headerLength.toNat ++ slice s.ram payload payloadLength.toNat
  callback := callback

/-- `ipc_msg_with_payload_send`; `header` and `payload` are addresses in the
memory of the caller. -/
def ipcMsgWithPayloadSend (msg : IpcMsgType) (header : Nat) (headerLength : UInt16)
    (payload : Nat) (payloadLength : UInt16) (callback : Option IpcTxCallback)
    (s : Ipc) : Ipc :=
  let ticket := s.nextTicket
  let s := s.submit
    (ipcMsgWithPayloadSubmission msg header headerLength payload payloadLength callback s)
  let totalLength := headerLength + payloadLength
  let (chn, s) := ipcAllocChannel totalLength s
  if chn ≠ 0xff then
    let ipcBuffer := ipcGetBufferOffset .dsp2mcu chn
    let shm := memcpy s.shm ipcBuffer s.ram header headerLength.toNat
    let shm := memcpy shm (ipcBuffer + headerLength.toNat) s.ram payload payloadLength.toNat
    ipcInsertMsg ticket chn msg.code totalLength callback { s with shm := shm }
  else
    let buffer :=
      if totalLength ≠ 0 then
        slice s.ram header headerLength.toNat ++ slice s.ram payload payloadLength.toNat
      else []
    { s with
      ipcMsgList := s.ipcMsgList ++ [⟨ticket, callback, msg, .payload totalLength buffer⟩] }

/-! ## the interrupt handler -/

/-- Call a transmit callback. -/
def ipcTxCall (callback : IpcTxCallback) (ticket : Option Nat) (chn : Nat) (s : Ipc) : Ipc :=
  let s := { s with log := { s.log with called := s.log.called ++ [⟨ticket, chn, callback⟩] } }
  match callback with
  | .ipcFreeChannel => ipcFreeChannel chn s
  | .user _ => s

/-- The MCU has completed the message on channel `chn`. -/
def Ipc.complete (chn : Nat) (s : Ipc) : Ipc :=
  { s with log := { s.log with
    flight := Function.update s.log.flight chn none
    completed := s.log.completed ++ (s.log.flight chn).toList.map (·, chn) } }

/-- The body of `if(status & IPC_MSGOUTxx_STATUS)` in `ipc_isr` for channel
`chn`: free the channel, retry the list, and only then call the callback. -/
def ipcIsrComplete (chn : Nat) (s : Ipc) : Ipc :=
  let callback := s.txCallback chn
  let ticket := s.log.flight chn
  let s := ipcFreeChannel chn (s.complete chn)
  let s := ipcMsgSent s
  match callback with
  | some callback => ipcTxCall callback ticket chn s
  | none => s

/-- The `IPC_MSGOUT` part of `ipc_isr` for one channel; bit `12 + chn` is
`IPC_MSGOUTxx_STATUS`. -/
def ipcIsrMsgOut (status : BitVec 32) (chn : Nat) (s : Ipc) : Ipc :=
  if status.getLsbD (12 + chn) then ipcIsrComplete chn s else s

/-- The `IPC_MSGIN` part of `ipc_isr` for one channel; bit `8 + chn` is
`IPC_MSGINxx_STATUS`. -/
def ipcIsrMsgIn (status : BitVec 32) (chn : Nat) (s : Ipc) : Ipc :=
  if status.getLsbD (8 + chn) then
    if s.rxCallback then
      { s with log := { s.log with received := s.log.received ++ [(s.msgIn chn, chn)] } }
    else s
  else s

/-- `ipc_isr`, for the value of the status register. -/
def ipcIsr (status : BitVec 32) (s : Ipc) : Ipc :=
  let s := ipcIsrMsgOut status 0 s
  let s := ipcIsrMsgOut status 1 s
  let s := ipcIsrMsgOut status 2 s
  let s := ipcIsrMsgOut status 3 s
  let s := ipcIsrMsgIn status 0 s
  let s := ipcIsrMsgIn status 1 s
  let s := ipcIsrMsgIn status 2 s
  ipcIsrMsgIn status 3 s

end Fr5080
