import Fr5080.Decoder.Codec
import Fr5080.Embedded.DropQueue
import Fr5080.Embedded.Heap
import Fr5080.Embedded.Sched

/-!
# Fr5080.Encoder.Msbc

The mSBC encoder (`msbc_encoder.c` in `fr5080_msbc_encoder`).  The DMA interrupt
stages the samples of the microphone, calls the codec when the staging buffer
is full and queues the frame the codec puts out; the task takes up to four
frames from the queue when the MCU asks for them.

The codec library is a parameter: each of its calls has an answer.  The samples
only go to the codec and are left out; what is kept of the staging buffer is its level and
its block of the heap.

`ops`, `sent`, `uses` and `returns` are history variables.
-/

namespace Fr5080

open Embedded

/-! ## data -/

/-- `struct msbc_encoder_encoded_frame_t`: the blocks of the node and of its `data`, and the
`length` many bytes there. -/
structure EncodedFrame where
  node : Nat
  data : Nat
  bytes : List UInt8
deriving DecidableEq, Repr

/-- The blocks of a frame. -/
def EncodedFrame.blocks (frame : EncodedFrame) : List Nat := [frame.node, frame.data]

/-- `frame->length`. -/
def EncodedFrame.length (f : EncodedFrame) : UInt32 := UInt32.ofNat f.bytes.length

/-- `msbc_encoder_encoded_frame_list`, `msbc_encoder_encoded_frame_count` and
`msbc_encoder_encoded_data_length`; `ops` are the frames stored and taken. -/
structure EncodedQueue where
  frameList : List EncodedFrame
  frameCount : UInt32
  dataLength : UInt32
  ops : List (DropOp EncodedFrame)

/-- A message `IPC_MSG_ENCODED_MSBC_FRAME` as it is inserted: the length of the last frame in
front, and the frames copied behind it. -/
structure MsbcFrameMsg where
  channel : UInt8
  length : UInt32
  singleFrameLen : UInt16
  frames : List (List UInt8)
deriving DecidableEq, Repr

/-- The frames left, those ever queued, and the heap when `msbc_encoder_destroy` returns. -/
structure MsbcReturn where
  frames : List EncodedFrame
  queued : List EncodedFrame
  heap : Heap

/-- The variables of `msbc_encoder.c`.  `gPvArrAllocMemory` has the `g_w_malloc_count`
entries in use.

`sent` are the messages, `uses` the pointers to the memory of the codec that were followed, each
with the heap at that time. -/
structure MsbcEncoder where
  ready : Bool
  uiInitDone : Bool
  xaProcessHandle : Option Nat
  pbInpBuf : Option Nat
  pbOutBuf : Option Nat
  uiInpSize : Nat
  iBuffSize : Nat
  iBytesConsumed : Nat
  bufferLevel : Nat
  gPvArrAllocMemory : List (Option Nat)
  encoded : EncodedQueue
  heap : Heap
  sent : List MsbcFrameMsg
  uses : List (Option Nat × Heap)
  returns : List MsbcReturn

/-- No frame. -/
def EncodedQueue.empty : EncodedQueue := ⟨[], 0, 0, []⟩

/-- The variables as the start-up code leaves them. -/
def MsbcEncoder.zeroed : MsbcEncoder where
  ready := false
  uiInitDone := false
  xaProcessHandle := none
  pbInpBuf := none
  pbOutBuf := none
  uiInpSize := 0
  iBuffSize := 0
  iBytesConsumed := 0
  bufferLevel := 0
  gPvArrAllocMemory := []
  encoded := .empty
  heap := .empty
  sent := []
  uses := []
  returns := []

/-- `MSBC_SUB_FRAME_COUNT`. -/
def msbcSubFrameCount : Nat := 4

/-- `MSBC_MAX_STORED_COUNT`. -/
def msbcMaxStoredCount : Nat := 400

/-- `configTOTAL_HEAP_SIZE` in `heap_4.c` of the project. -/
def msbcTotalHeapSize : Nat := 100 * 1024

/-- `sizeof(struct msbc_encoder_encoded_frame_t)`. -/
def sizeofEncodedFrame : Nat := 12

/-- The pointer is followed. -/
def MsbcEncoder.use (p : Option Nat) (s : MsbcEncoder) : MsbcEncoder :=
  { s with uses := s.uses ++ [(p, s.heap)] }

/-! ## init -/

/-- The memory types of the codec interface. -/
inductive XaMemType
  | persist
  | scratch
  | input
  | output
deriving DecidableEq, Repr

/-- A memory table of the codec. -/
structure XaMem where
  uiSize : Nat
  uiType : XaMemType
deriving DecidableEq, Repr

/-- `msbc_encoder_malloc` of a block for the codec, which is put in the table. -/
def MsbcEncoder.allocMem (s : MsbcEncoder) : Option Nat × MsbcEncoder :=
  let (p, heap) := s.heap.malloc true
  (p, { s with heap := heap, gPvArrAllocMemory := s.gPvArrAllocMemory ++ [p] })

/-- The loop body for a memory table in `msbc_encoder_engine_init`. -/
def MsbcEncoder.setMem (s : MsbcEncoder) (m : XaMem) : MsbcEncoder :=
  let (p, s) := s.allocMem
  { s with
    pbInpBuf := if m.uiType = .input then p else s.pbInpBuf
    uiInpSize := if m.uiType = .input then m.uiSize else s.uiInpSize
    pbOutBuf := if m.uiType = .output then p else s.pbOutBuf }

/-- `msbc_encoder_engine_init`: the API object, the memory tables and the memory they ask for. -/
def MsbcEncoder.engineInit (mems : List XaMem) (s : MsbcEncoder) : MsbcEncoder :=
  let (handle, s) := s.allocMem
  let s := { s with xaProcessHandle := handle }
  let (_, s) := s.allocMem
  mems.foldl setMem s

/-- `msbc_encoder_init`, when the heap has room; the history is that of the session.  Interrupts
have no effect on it, they find the encoder not ready. -/
def msbcEncoderInit (mems : List XaMem) (s : MsbcEncoder) : MsbcEncoder :=
  { ({ s with uiInitDone := false }).engineInit mems with
    encoded := .empty
    bufferLevel := 0
    ready := true
    sent := []
    uses := []
    returns := [] }

/-! ## the interrupt -/

/-- The answers of the codec in one call of `msbc_encoder_engine_start` or
`msbc_encoder_engine_encode`; `fits` tells whether the heap has room for the frame. -/
inductive MsbcAnswer
  | start (uiInitDone : Bool) (consumed : Consumption)
  | encode (out : List UInt8) (fits : Bool) (consumed : Consumption)

/-- `co_list_pop_front` and the numbers.  Without a frame there is none, and `frame->length`
faults. -/
def EncodedQueue.popFront (q : EncodedQueue) : Option (EncodedFrame × EncodedQueue) :=
  match q.frameList with
  | [] => none
  | frame :: rest => some (frame, { q with
      frameList := rest
      frameCount := q.frameCount - 1
      dataLength := q.dataLength - frame.length })

/-- `co_list_push_back` and the numbers. -/
def EncodedQueue.pushBack (frame : EncodedFrame) (q : EncodedQueue) : EncodedQueue where
  frameList := q.frameList ++ [frame]
  frameCount := q.frameCount + 1
  dataLength := q.dataLength + frame.length
  ops := q.ops ++ [.put frame]

/-- The blocks of a frame are freed. -/
def EncodedFrame.free (frame : EncodedFrame) (heap : Heap) : Heap :=
  (heap.free (some frame.data)).free (some frame.node)

/-- The oldest frame is dropped. -/
def MsbcEncoder.dropOldest (s : MsbcEncoder) : Option MsbcEncoder :=
  match s.encoded.popFront with
  | none => none
  | some (frame, encoded) => some { s with encoded := encoded, heap := frame.free s.heap }

/-- The frame is allocated, filled from the output buffer and queued.  `pvPortMalloc_user`
has no block of more bytes than the heap; without one the next access faults. -/
def MsbcEncoder.pushFrame (out : List UInt8) (fits : Bool) (s : MsbcEncoder) :
    Option MsbcEncoder :=
  if fits ∧ out.length + sizeofEncodedFrame ≤ msbcTotalHeapSize then
    let heap := (s.heap.malloc true).2
    let frame : EncodedFrame := ⟨s.heap.next, heap.next, out⟩
    let s := ({ s with heap := (heap.malloc true).2 }).use s.pbOutBuf
    some { s with encoded := s.encoded.pushBack frame }
  else none

/-- `if(i_out_bytes)` in `msbc_encoder_engine_encode`. -/
def MsbcEncoder.storeFrame (out : List UInt8) (fits : Bool) (s : MsbcEncoder) :
    Option MsbcEncoder :=
  if out = [] then some s
  else if msbcMaxStoredCount ≤ s.encoded.frameCount.toNat then
    match s.dropOldest with
    | some s => s.pushFrame out fits
    | none => none
  else s.pushFrame out fits

/-- `msbc_encoder_engine_start` or `msbc_encoder_engine_encode`, whichever is called. -/
def MsbcEncoder.engine (s : MsbcEncoder) : MsbcAnswer → Option MsbcEncoder
  | .start uiInitDone consumed =>
      if s.uiInitDone = false then
        some { s.use s.xaProcessHandle with
          uiInitDone := uiInitDone
          iBytesConsumed := consumed s.iBuffSize }
      else none
  | .encode out fits consumed =>
      if s.uiInitDone = true then
        match (s.use s.xaProcessHandle).storeFrame out fits with
        | some s => some { s with iBytesConsumed := consumed s.iBuffSize }
        | none => none
      else none

/-- `last_space`. -/
def MsbcEncoder.lastSpace (s : MsbcEncoder) : Nat := sub32 s.uiInpSize s.bufferLevel

/-- `memcpy` of `n` bytes to the staging buffer. -/
def MsbcEncoder.stage (n : Nat) (s : MsbcEncoder) : MsbcEncoder :=
  if n = 0 then s else s.use s.pbInpBuf

/-- What the codec has left is moved to the front of the staging buffer. -/
def MsbcEncoder.shift (s : MsbcEncoder) : MsbcEncoder :=
  let lastSpace := sub32 s.iBuffSize s.iBytesConsumed
  { s.stage lastSpace with bufferLevel := lastSpace }

/-- `while(length > 0)` in `msbc_encoder_recv_frame`, on the answers of the codec. -/
def MsbcEncoder.recvLoop (length : Nat) (s : MsbcEncoder) : List MsbcAnswer → Option MsbcEncoder
  | [] =>
      if length = 0 then some s
      else if s.lastSpace ≤ length then none
      else some { s.stage length with bufferLevel := s.bufferLevel + length }
  | a :: as =>
      if 0 < length ∧ s.lastSpace ≤ length then
        match ({ s.stage s.lastSpace with iBuffSize := s.uiInpSize }).engine a with
        | some s1 => s1.shift.recvLoop (length - s.lastSpace) as
        | none => none
      else none

/-- The number of bytes that come with an interrupt. -/
def msbcIpcRxLength : Nat := 120

/-- `msbc_ipc_rx` and `msbc_encoder_recv_frame`. -/
def msbcIpcRx (answers : List MsbcAnswer) (s : MsbcEncoder) : Option MsbcEncoder :=
  if s.ready then s.recvLoop msbcIpcRxLength answers else some s

/-! ## the task -/

/-- The local variables of `msbc_encoder_recv_frame_req`; `frames` are those
copied to the buffer of the channel, `singleFrameLen` is what stands in front of them. -/
structure FrameReq where
  channel : UInt8
  leftFrameToSend : Nat
  length : UInt32
  singleFrameLen : UInt16
  frames : List (List UInt8)
deriving DecidableEq, Repr

/-- The variables when a channel is there. -/
def FrameReq.start (channel : UInt8) : FrameReq where
  channel := channel
  leftFrameToSend := msbcSubFrameCount
  length := 2
  singleFrameLen := 0
  frames := []

/-- The frame is copied behind those already there. -/
def FrameReq.copy (frame : EncodedFrame) (v : FrameReq) : FrameReq :=
  { v with
    singleFrameLen := frame.length.toUInt16
    length := v.length + frame.length
    frames := v.frames ++ [frame.bytes] }

/-- The statements of `msbc_encoder_recv_frame_req` and `msbc_encoder_destroy`. -/
inductive MsbcStmt
  /-- `if(msbc_encoder_ready == false) return` -/
  | ifReady
  /-- `ipc_alloc_channel` and `if(channel != 0xff)` -/
  | allocChannel
  /-- `while((left_frame_to_send) && (msbc_encoder_encoded_frame_count))` -/
  | whileLeft (v : FrameReq)
  /-- the critical section with `co_list_pop_front` -/
  | popFront (v : FrameReq)
  /-- `memcpy(buffer, frame->data, frame->length)` and what depends on the length -/
  | copyFrame (v : FrameReq) (frame : EncodedFrame)
  /-- `vPortFree_user(frame->data)` -/
  | freeData (v : FrameReq) (frame : EncodedFrame)
  /-- `vPortFree_user(frame)` and `left_frame_to_send--` -/
  | freeFrame (v : FrameReq) (frame : EncodedFrame)
  /-- `if(length > 2)` -/
  | finish (v : FrameReq)
  /-- the critical section of `msbc_encoder_destroy` -/
  | clearList
  /-- `for(i=0; i<g_w_malloc_count; i++)`, at `i` -/
  | freeMem (i : Nat)
  /-- `g_w_malloc_count = 0` -/
  | clearCount
  /-- `msbc_encoder_ready = false` -/
  | clearReady
deriving DecidableEq, Repr

/-- `while(msbc_encoder_encoded_frame_count)` in `msbc_encoder_destroy`: the blocks of `n`
frames are freed.  Without a frame `frame->data` faults. -/
def clearFrames : Nat → List EncodedFrame → Heap → Option (List EncodedFrame × Heap)
  | 0, frames, heap => some (frames, heap)
  | _ + 1, [], _ => none
  | n + 1, frame :: rest, heap =>
      clearFrames n rest (frame.free heap)

/-- The statement is done, `c` is the next one. -/
def MsbcStmt.after (c : MsbcStmt) (s : MsbcEncoder) : Effect MsbcStmt Empty MsbcEncoder :=
  ⟨s, [], some [c]⟩

/-- The function returns. -/
def MsbcEncoder.return (s : MsbcEncoder) : Effect MsbcStmt Empty MsbcEncoder := ⟨s, [], none⟩

/-- One statement; `channel` is the answer of `ipc_alloc_channel`. -/
def MsbcStmt.exec (channel : UInt8) (s : MsbcEncoder) :
    MsbcStmt → Option (Effect MsbcStmt Empty MsbcEncoder)
  | .ifReady => some (if s.ready then allocChannel.after s else s.return)
  | .allocChannel =>
      some (if channel ≠ 0xff then (whileLeft (.start channel)).after s else s.return)
  | .whileLeft v =>
      some (if v.leftFrameToSend ≠ 0 ∧ s.encoded.frameCount ≠ 0 then (popFront v).after s
        else (finish v).after s)
  | .popFront v => match s.encoded.popFront with
      | none => none
      | some (frame, encoded) => some ((copyFrame v frame).after { s with
          encoded := { encoded with ops := s.encoded.ops ++ [.take] } })
  | .copyFrame v frame => some ((freeData (v.copy frame) frame).after s)
  | .freeData v frame =>
      some ((freeFrame v frame).after { s with heap := s.heap.free (some frame.data) })
  | .freeFrame v frame =>
      some ((whileLeft { v with leftFrameToSend := v.leftFrameToSend - 1 }).after
        { s with heap := s.heap.free (some frame.node) })
  | .finish v =>
      some (if 2 < v.length then
        MsbcEncoder.return { s with
          sent := s.sent ++ [⟨v.channel, v.length, v.singleFrameLen, v.frames⟩] }
        else s.return)
  | .clearList =>
      match clearFrames s.encoded.frameCount.toNat s.encoded.frameList s.heap with
      | none => none
      | some (frames, heap) => some ((freeMem 0).after { s with
          encoded := { s.encoded with frameList := frames, frameCount := 0, dataLength := 0 }
          heap := heap })
  | .freeMem i => some (match s.gPvArrAllocMemory[i]? with
      | some p => (freeMem (i + 1)).after { s with heap := s.heap.free p }
      | none => clearCount.after s)
  | .clearCount => some (clearReady.after { s with gPvArrAllocMemory := [] })
  | .clearReady =>
      some (MsbcEncoder.return { s with
        ready := false
        returns := s.returns ++ [⟨s.encoded.frameList, DropQueue.puts s.encoded.ops, s.heap⟩] })

/-- The functions called in the task. -/
inductive MsbcCall
  | recvFrameReq
  | destroy
deriving DecidableEq, Repr

def MsbcCall.code : MsbcCall → List MsbcStmt
  | .recvFrameReq => [.ifReady]
  | .destroy => [.clearList]

/-- The interrupt, without messages of its own. -/
def msbcIsr (answers : List MsbcAnswer) (s : MsbcEncoder) : Option (MsbcEncoder × List Empty) :=
  match msbcIpcRx answers s with
  | some s => some (s, [])
  | none => none

abbrev MsbcTask := Sched MsbcStmt Empty MsbcEncoder

abbrev MsbcEvent := SchedEvent MsbcCall UInt8 (List MsbcAnswer)

/-- One step: a function is called in the task, a statement is executed, or the DMA interrupt
handled. -/
def msbcStep : MsbcTask → MsbcEvent → Option MsbcTask :=
  schedStep MsbcCall.code Empty.elim (fun c channel s => c.exec channel s) msbcIsr

/-- A session begins. -/
def MsbcTask.start (mems : List XaMem) (s : MsbcEncoder) : MsbcTask :=
  ⟨[], [], msbcEncoderInit mems s⟩

/-! ## all that a step can do -/

/-- What one event does. -/
theorem msbcStep_cases {t t' : MsbcTask} {e : MsbcEvent} (h : msbcStep t e = some t') :
    (∃ p : MsbcCall, e = .call p ∧ t.code = [] ∧ t'.code = p.code ∧ t'.state = t.state) ∨
      (∃ c cs channel r, e = .stmt channel ∧ t.code = c :: cs ∧
        c.exec channel t.state = some r ∧ t'.code = r.code cs ∧ t'.state = r.state) ∨
      ∃ answers, e = .interrupt answers ∧ msbcIpcRx answers t.state = some t'.state ∧
        t'.code = t.code := by
  obtain ⟨p, rfl, hcode, rfl⟩ | ⟨m, queue, rfl, hcode, hqueue, rfl⟩ | ⟨c, cs, channel, r, rfl,
    hcode, hexec, rfl⟩ | ⟨answers, s, posted, rfl, hisr, rfl⟩ := schedStep_cases h
  · exact Or.inl ⟨p, rfl, hcode, rfl, rfl⟩
  · exact m.elim
  · exact Or.inr (Or.inl ⟨c, cs, channel, r, rfl, hcode, hexec, rfl, rfl⟩)
  · refine Or.inr (Or.inr ⟨answers, rfl, ?_, rfl⟩)
    unfold msbcIsr at hisr
    grind

/-- **Interrupt rule**: what the parts of the interrupt handler keep holds after it, for answers of
the codec that meet `P`. -/
theorem MsbcEncoder.recvLoop_inv {I : MsbcEncoder → Prop} {P : MsbcAnswer → Prop}
    (hstage : ∀ s n, I s → I (s.stage n))
    (hlevel : ∀ s n, I s → I { s with bufferLevel := n })
    (hsize : ∀ s n, I s → I { s with iBuffSize := n })
    (hengine : ∀ s a s', P a → I s → s.engine a = some s' → I s')
    {answers : List MsbcAnswer} {length : Nat} {s s' : MsbcEncoder} (hP : ∀ a ∈ answers, P a)
    (h : I s) (hloop : s.recvLoop length answers = some s') : I s' := by
  induction answers generalizing s length with
  | nil =>
      simp only [recvLoop] at hloop
      split at hloop
      · cases hloop; exact h
      · split at hloop
        · cases hloop
        · cases hloop
          exact hlevel _ _ (hstage _ _ h)
  | cons a as ih =>
      obtain ⟨ha, has⟩ := List.forall_mem_cons.mp hP
      simp only [recvLoop] at hloop
      split at hloop
      · split at hloop
        · next s1 hs1 =>
            have h1 : I s1 := hengine _ _ _ ha (hsize _ _ (hstage _ _ h)) hs1
            exact ih has (hlevel _ _ (hstage _ _ h1)) hloop
        · cases hloop
      · cases hloop

end Fr5080
