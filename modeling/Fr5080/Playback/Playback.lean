import Mathlib.Data.List.GetD
import Fr5080.Decoder.Credit
import Fr5080.Embedded.ChunkQueue
import Fr5080.Embedded.Mem
import Fr5080.Embedded.Sched

/-!
# Fr5080.Playback.Playback

Native playback (`native_playback.c`): decoded PCM data is queued in nodes on
the heap, and the DMA interrupt fetches 512 bytes of it for every frame that
goes to the DAC.

Two projects have the file.  `fr5080_native_playback` copies with `memcpy` and
`memset`; `fr5080_user_code_xip` has functions of its own that move 32-bit
words (`Fr5080.Playback.WordCopy`).  The rest of the interrupt handler is the
same, so it is one definition with the two operations and the threshold as
parameters.

A block of the heap is known by the number of its allocation, so that a block
freed and a block allocated later are different.
-/

namespace Fr5080

open Embedded

/-! ## data -/

/-- The two heap blocks of a `struct pcm_data_t`: the node and its `data`. -/
structure PcmBlocks where
  node : Nat
  data : Nat
deriving DecidableEq, Repr

/-- `struct pcm_data_t`: the bytes behind `data`, which are `length` many, and
`offset`, the number of those already played. -/
abbrev PcmData := Chunk PcmBlocks UInt8

/-- What happened in a session, in order: a node came into the list, or a frame
was fetched. -/
inductive PcmOp
  | push (pcmData : PcmData)
  | frame

/-- History of a session: what happened, the DMA frames as they stand in the
exchange memory, and the heap blocks freed. -/
structure PlaybackLog where
  history : List PcmOp
  frames : List (List UInt8)
  freed : List Nat

/-- The variables of `native_playback.c`, the exchange memory with the DMA
buffers, and the number of the next heap block. -/
structure Playback where
  pcmDataList : List PcmData
  pcmSizeInList : UInt32
  requestInQueue : UInt8
  shm : Nat → UInt8
  nextBlock : Nat
  log : PlaybackLog

/-- The variables as the start-up code leaves them. -/
def Playback.zeroed : Playback where
  pcmDataList := []
  pcmSizeInList := 0
  requestInQueue := 0
  shm := fun _ => 0
  nextBlock := 0
  log := ⟨[], [], []⟩

/-- `NATIVE_PLAYBACK_SINGLE_FRAME`. -/
def nativePlaybackSingleFrame : Nat := 512

/-- `IPC_DSP_WRITE_BUFFER0`. -/
def ipcDspWriteBuffer0 : Nat := 0x001F1000

/-- `IPC_DSP_WRITE_BUFFER1`. -/
def ipcDspWriteBuffer1 : Nat := 0x001F1400

/-! ## the interrupt handler -/

/-- The variables of the loop in `native_playback_ipc_tx`. -/
structure IpcTxLoop where
  pcmDataList : List PcmData
  neededLength : Nat
  spk : Nat
  pcmSizeInList : UInt32
  shm : Nat → UInt8
  freed : List Nat

/-- How a playback copies to the DMA buffer: `copy dst data src size` moves `size` bytes
from `&data[src]`, `fill dst value size` writes `size` bytes.  There is no
result where the copy faults. -/
structure IpcTxOps where
  copy : Nat → List UInt8 → Nat → Nat → (Nat → UInt8) → Option (Nat → UInt8)
  fill : Nat → UInt8 → Nat → (Nat → UInt8) → Option (Nat → UInt8)

/-- `while(pcm_data && (needed_length != 0))`, on the list of nodes. -/
def IpcTxOps.loop (ops : IpcTxOps) : List PcmData → IpcTxLoop → Option IpcTxLoop
  | [], l => some { l with pcmDataList := [] }
  | pcmData :: rest, l =>
      if l.neededLength ≠ 0 then
        let lastLength := pcmData.data.length - pcmData.offset
        if h : lastLength > l.neededLength then
          match ops.copy l.spk pcmData.data pcmData.offset l.neededLength l.shm with
          | none => none
          | some shm => some { l with
              pcmDataList := pcmData.skip l.neededLength (Nat.le_of_lt h) :: rest
              neededLength := 0
              pcmSizeInList := l.pcmSizeInList - UInt32.ofNat l.neededLength
              shm := shm }
        else
          match ops.copy l.spk pcmData.data pcmData.offset lastLength l.shm with
          | none => none
          | some shm => ops.loop rest { l with
              neededLength := l.neededLength - lastLength
              spk := l.spk + lastLength
              pcmSizeInList := l.pcmSizeInList - UInt32.ofNat lastLength
              shm := shm
              freed := l.freed ++ [pcmData.tag.data, pcmData.tag.node] }
      else some { l with pcmDataList := pcmData :: rest }

/-- The address of the DMA buffer that is not being read. -/
def ipcTxSpk (ipcCodecDacTog : Nat) : Nat :=
  if ipcCodecDacTog = 0 then ipcDspWriteBuffer1 else ipcDspWriteBuffer0

/-- The variables at the entry of the loop. -/
def Playback.ipcTxEntry (ipcCodecDacTog : Nat) (s : Playback) : IpcTxLoop where
  pcmDataList := s.pcmDataList
  neededLength := nativePlaybackSingleFrame
  spk := ipcTxSpk ipcCodecDacTog
  pcmSizeInList := s.pcmSizeInList
  shm := s.shm
  freed := s.log.freed

/-- `if(needed_length)`: what is missing in the frame is filled with zeros. -/
def IpcTxOps.fillRest (ops : IpcTxOps) (l : IpcTxLoop) : Option (Nat → UInt8) :=
  if l.neededLength ≠ 0 then ops.fill l.spk 0 l.neededLength l.shm else some l.shm

/-- The end of `native_playback_ipc_tx`: when the list runs low the decoder is asked
for more. -/
def Playback.ipcTxEnd (decoderThd : UInt32) (s : Playback) : Playback × List DecoderTask :=
  if s.pcmSizeInList < decoderThd then
    ({ s with requestInQueue := s.requestInQueue + 1 }, [.doDecode])
  else (s, [])

/-- `native_playback_ipc_tx`, and the messages it inserts. -/
def IpcTxOps.ipcTx (ops : IpcTxOps) (decoderThd : UInt32) (ipcCodecDacTog : Nat) (s : Playback) :
    Option (Playback × List DecoderTask) :=
  match ops.loop s.pcmDataList (s.ipcTxEntry ipcCodecDacTog) with
  | none => none
  | some l => match ops.fillRest l with
    | none => none
    | some shm => some (Playback.ipcTxEnd decoderThd { s with
        pcmDataList := l.pcmDataList
        pcmSizeInList := l.pcmSizeInList
        shm := shm
        log := {
          history := s.log.history ++ [.frame]
          frames := s.log.frames ++
            [slice shm (ipcTxSpk ipcCodecDacTog) nativePlaybackSingleFrame]
          freed := l.freed } })

/-! ## one node -/

section

variable (ops : IpcTxOps) {pcmData : PcmData} (q : List PcmData) {l : IpcTxLoop}

/-- A full frame: the loop is left. -/
theorem loop_full (h : l.neededLength = 0) : ops.loop q l = some { l with pcmDataList := q } := by
  cases q with
  | nil => rfl
  | cons p q => simp [IpcTxOps.loop, h]

/-- The variables after a node that has more than is needed. -/
def IpcTxLoop.within (l : IpcTxLoop) (p : PcmData) (q : List PcmData)
    (h : l.neededLength < p.left) (shm : Nat → UInt8) : IpcTxLoop :=
  { l with
    pcmDataList := p.skip l.neededLength (Nat.le_of_lt h) :: q
    neededLength := 0
    pcmSizeInList := l.pcmSizeInList - UInt32.ofNat l.neededLength
    shm := shm }

/-- A node with more than is needed: one copy completes the frame. -/
theorem loop_lt (hzero : l.neededLength ≠ 0) (h : l.neededLength < pcmData.left) :
    ops.loop (pcmData :: q) l =
      (ops.copy l.spk pcmData.data pcmData.offset l.neededLength l.shm).map
        (l.within pcmData q h) := by
  have hlast : pcmData.data.length - pcmData.offset = pcmData.left := rfl
  simp only [IpcTxOps.loop, ne_eq, hzero, not_false_eq_true, if_true, hlast, gt_iff_lt, h, dif_pos]
  cases ops.copy l.spk pcmData.data pcmData.offset l.neededLength l.shm with
  | none => rfl
  | some shm => rfl

/-- The variables after a node that is copied to its end. -/
def IpcTxLoop.after (l : IpcTxLoop) (p : PcmData) (shm : Nat → UInt8) : IpcTxLoop :=
  { l with
    neededLength := l.neededLength - p.left
    spk := l.spk + p.left
    pcmSizeInList := l.pcmSizeInList - UInt32.ofNat p.left
    shm := shm
    freed := l.freed ++ [p.tag.data, p.tag.node] }

/-- A node that is copied to its end: the loop goes on behind it. -/
theorem loop_le (hzero : l.neededLength ≠ 0) (h : ¬ l.neededLength < pcmData.left) :
    ops.loop (pcmData :: q) l =
      (ops.copy l.spk pcmData.data pcmData.offset pcmData.left l.shm).bind fun shm =>
        ops.loop q (l.after pcmData shm) := by
  have hlast : pcmData.data.length - pcmData.offset = pcmData.left := rfl
  simp only [IpcTxOps.loop, ne_eq, hzero, not_false_eq_true, if_true, hlast, gt_iff_lt, h, dif_neg]
  cases ops.copy l.spk pcmData.data pcmData.offset pcmData.left l.shm with
  | none => rfl
  | some shm => rfl

end

/-! ## `fr5080_native_playback` -/

/-- `NATIVE_PLAYBACK_DECODER_THD` of `fr5080_native_playback`. -/
def nativePlaybackDecoderThd : UInt32 := 48000 * 2 * 2 / 50

/-- `memcpy` and `memset`. -/
def memOps : IpcTxOps where
  copy dst data src size shm := some (memcpy shm dst (fun i => data.getD i 0) src size)
  fill dst value size shm := some (store shm dst (List.replicate size value))

/-- `native_playback_ipc_tx` of `fr5080_native_playback`. -/
def nativePlaybackIpcTx (ipcCodecDacTog : Nat) (s : Playback) :
    Option (Playback × List DecoderTask) :=
  memOps.ipcTx nativePlaybackDecoderThd ipcCodecDacTog s

/-- `configTOTAL_HEAP_SIZE`. -/
def configTotalHeapSize : Nat := 100 * 1024

/-- The bytes of the heap that the data of the queued nodes takes. -/
def Playback.liveBytes (s : Playback) : Nat := (s.pcmDataList.map fun p => p.data.length).sum

/-- `pvPortMalloc_user`: a new block, or `NULL`.  It fails for want of free bytes,
and also where the free bytes are in other hands or in pieces (`fits`). -/
def Playback.pvPortMallocUser (xWantedSize : Nat) (fits : Bool) (s : Playback) :
    Option (Nat × Playback) :=
  if fits ∧ s.liveBytes + xWantedSize ≤ configTotalHeapSize then
    some (s.nextBlock, { s with nextBlock := s.nextBlock + 1 })
  else none

/-- `sizeof(struct pcm_data_t)`. -/
def sizeofPcmData : Nat := 16

/-- The statements of `native_playback_recv_frame`, each with the local
variables it uses. -/
inductive RecvFrameStmt
  | mallocNode (data : List UInt8)
  | mallocData (node : Nat) (data : List UInt8)
  | copyData (blocks : PcmBlocks) (data : List UInt8)
  | setFields (blocks : PcmBlocks) (bytes : List UInt8)
  | insert (pcmData : PcmData)

/-- A call of `native_playback_recv_frame`. -/
def nativePlaybackRecvFrame (data : List UInt8) : List RecvFrameStmt := [.mallocNode data]

/-- One statement of `native_playback_recv_frame`.  An allocation that fails has no step:
the next access goes through `NULL`.  `insert` is the critical section. -/
def RecvFrameStmt.exec (fits : Bool) (s : Playback) :
    RecvFrameStmt → Option (Effect RecvFrameStmt DecoderTask Playback)
  | .mallocNode data => match s.pvPortMallocUser sizeofPcmData fits with
    | some (node, s) => some ⟨s, [], some [.mallocData node data]⟩
    | none => none
  | .mallocData node data => match s.pvPortMallocUser data.length fits with
    | some (block, s) => some ⟨s, [], some [.copyData ⟨node, block⟩ data]⟩
    | none => none
  | .copyData blocks data => some ⟨s, [], some [.setFields blocks data]⟩
  | .setFields blocks bytes => some ⟨s, [], some [.insert (.fresh blocks bytes)]⟩
  | .insert pcmData => some ⟨{ s with
      pcmDataList := s.pcmDataList ++ [pcmData]
      pcmSizeInList := s.pcmSizeInList + UInt32.ofNat pcmData.data.length
      log := { s.log with history := s.log.history ++ [.push pcmData] } }, [], some []⟩

/-- `native_playback_init`; the history of the session starts with it. -/
def nativePlaybackInit (s : Playback) : Playback :=
  { s with pcmDataList := [], log := ⟨[], [], []⟩ }

/-- `native_playback_destroy`: `native_playback_clear` frees what is queued. -/
def nativePlaybackDestroy (s : Playback) : Playback :=
  { s with
    pcmDataList := []
    pcmSizeInList := 0
    log := { s.log with
      freed := s.log.freed ++ s.pcmDataList.flatMap fun p => [p.tag.data, p.tag.node] } }

/-- One step of native playback: the decoder calls `native_playback_recv_frame`, a
statement of it is executed, or the DMA interrupt is handled.  The messages go to the
decoder, whose own code is not part of this. -/
def playbackStep : Sched RecvFrameStmt DecoderTask Playback →
    SchedEvent (List UInt8) Bool Nat → Option (Sched RecvFrameStmt DecoderTask Playback) :=
  schedStep nativePlaybackRecvFrame (fun _ => []) (fun c fits s => c.exec fits s)
    nativePlaybackIpcTx

end Fr5080
