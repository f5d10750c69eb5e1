import Fr5080.Decoder.Codec

/-!
# Fr5080.Encoder.Sbc

The input side of the SBC encoder (`sbc_encoder.c` in `fr5080_user_code_xip`).
`sbc_encoder_recv_frame` stages PCM bytes in the input buffer of the codec and calls the codec
whenever the buffer is full.  What the codec has not consumed is moved to the front.  While it
initialises, and also later, the codec may consume nothing; the buffer is full then, and the
codec is called again as soon as there is one more byte.

The codec library is a parameter, `SbcCodec`.  Its calls may depend on all that it has been given,
through the type `κ` of the states behind `xa_process_handle`.  The heap is assumed to have room
for the frames.

`Fr5080.Decoder.Session` knows the encoder by its list of frames only; what is here has the same
names in the namespace `Pcm`.  `consumed` and `blocks` are history variables.
-/

namespace Fr5080.Pcm

open Embedded

/-! ## the codec -/

/-- `struct sbc_encoder_encoded_frame_t`: the bytes at `data` and their number. -/
structure SbcFrame where
  data : List UInt8
  length : UInt32
  length_eq : length.toNat = data.length
deriving DecidableEq

/-- What a call of the codec leads to: its state, the answer to the query whether it is
initialised, the output buffer and the number of bytes consumed. -/
structure SbcAnswer (κ : Type*) where
  handle : κ
  initDone : UInt32
  out : SbcFrame
  consumed : Nat

/-- The codec library: `XA_CMD_TYPE_INIT_PROCESS` and `XA_CMD_TYPE_DO_EXECUTE` for the bytes of
the input buffer, each with the queries after it. -/
structure SbcCodec (κ : Type*) where
  initProcess : κ → List UInt8 → SbcAnswer κ
  doExecute : κ → List UInt8 → SbcAnswer κ
  initProcess_consumed : ∀ k block, (initProcess k block).consumed ≤ block.length
  doExecute_consumed : ∀ k block, (doExecute k block).consumed ≤ block.length

/-! ## data -/

/-- `sbc_encoder_encoded_frame_list`, `sbc_encoder_encoded_frame_count` and
`sbc_encoder_encoded_data_length`. -/
structure SbcQueue where
  frameList : List SbcFrame
  frameCount : UInt32
  dataLength : UInt32
deriving DecidableEq

/-- The variables of `sbc_encoder.c` that the input side uses.  `consumed` are the bytes consumed
by the codec, `blocks` the bytes given to it in each call. -/
structure SbcEncoder (κ : Type*) where
  ready : Bool
  handle : κ
  uiInitDone : UInt32
  inpBuf : Nat → UInt8
  uiInpSize : Nat
  iBuffSize : Nat
  iBytesConsumed : Nat
  bufferLevel : Nat
  queue : SbcQueue
  consumed : List UInt8
  blocks : List (List UInt8)

/-- No frames. -/
def SbcQueue.empty : SbcQueue := ⟨[], 0, 0⟩

/-- `co_list_push_back` and the numbers. -/
def SbcQueue.pushBack (frame : SbcFrame) (q : SbcQueue) : SbcQueue where
  frameList := q.frameList ++ [frame]
  frameCount := q.frameCount + 1
  dataLength := q.dataLength + frame.length

/-- `sbc_encoder_init`: a new codec with an input buffer of `uiSize` bytes, whatever they are. -/
def sbcEncoderInit {κ : Type*} (handle : κ) (uiSize : Fin (2 ^ 31)) (inpBuf : Nat → UInt8) :
    SbcEncoder κ where
  ready := true
  handle := handle
  uiInitDone := 0
  inpBuf := inpBuf
  uiInpSize := uiSize
  iBuffSize := 0
  iBytesConsumed := 0
  bufferLevel := 0
  queue := .empty
  consumed := []
  blocks := []

namespace SbcEncoder

variable {κ : Type*}

/-! ## the code -/

/-- The `i_buff_size` bytes that the codec is given. -/
def block (s : SbcEncoder κ) : List UInt8 := slice s.inpBuf 0 s.iBuffSize

/-- `if(i_out_bytes)` in `sbc_encoder_engine_encode`: the frame is queued. -/
def storeFrame (out : SbcFrame) (s : SbcEncoder κ) : SbcEncoder κ :=
  if out.length ≠ 0 then { s with queue := s.queue.pushBack out } else s

/-- The state of the codec and what it has consumed, after a call. -/
def answered (a : SbcAnswer κ) (s : SbcEncoder κ) : SbcEncoder κ :=
  { s with
    handle := a.handle
    iBytesConsumed := a.consumed
    consumed := s.consumed ++ s.block.take a.consumed
    blocks := s.blocks ++ [s.block] }

/-- `sbc_encoder_engine_encode`. -/
def engineEncode (codec : SbcCodec κ) (s : SbcEncoder κ) : SbcEncoder κ :=
  let a := codec.doExecute s.handle s.block
  (s.storeFrame a.out).answered a

/-- `sbc_encoder_engine_start`. -/
def engineStart (codec : SbcCodec κ) (s : SbcEncoder κ) : SbcEncoder κ :=
  let a := codec.initProcess s.handle s.block
  { s.answered a with uiInitDone := a.initDone }

/-- Whichever of the two is called. -/
def engine (codec : SbcCodec κ) (s : SbcEncoder κ) : SbcEncoder κ :=
  if s.uiInitDone = 0 then s.engineStart codec else s.engineEncode codec

/-- `last_space` at the start of the loop. -/
def lastSpace (s : SbcEncoder κ) : Nat := sub32 s.uiInpSize s.bufferLevel

/-- `memcpy` of bytes behind those staged. -/
def stage (bytes : List UInt8) (s : SbcEncoder κ) : SbcEncoder κ :=
  { s with inpBuf := store s.inpBuf s.bufferLevel bytes }

/-- What the codec has left is moved to the front. -/
def shift (s : SbcEncoder κ) : SbcEncoder κ :=
  let lastSpace := sub32 s.iBuffSize s.iBytesConsumed
  if lastSpace ≠ 0 then
    { s with
      inpBuf := memcpy s.inpBuf 0 s.inpBuf s.iBytesConsumed lastSpace
      bufferLevel := lastSpace }
  else { s with bufferLevel := 0 }

/-- `if(length >= last_space)`: the buffer is filled up, and the codec is called. -/
def fillAndCall (codec : SbcCodec κ) (bytes : List UInt8) (s : SbcEncoder κ) : SbcEncoder κ :=
  (({ s.stage bytes with iBuffSize := s.uiInpSize }).engine codec).shift

/-- Otherwise all the bytes are staged. -/
def stageRest (bytes : List UInt8) (s : SbcEncoder κ) : SbcEncoder κ :=
  { s.stage bytes with bufferLevel := s.bufferLevel + bytes.length }

/-- `while(length > 0)`, at most `fuel` times. -/
def recvLoop (codec : SbcCodec κ) : Nat → List UInt8 → SbcEncoder κ → Option (SbcEncoder κ)
  | _, [], s => some s
  | 0, _ :: _, _ => none
  | fuel + 1, b :: buffer, s =>
      if s.lastSpace ≤ (b :: buffer).length then
        recvLoop codec fuel ((b :: buffer).drop s.lastSpace)
          (s.fillAndCall codec ((b :: buffer).take s.lastSpace))
      else recvLoop codec fuel [] (s.stageRest (b :: buffer))

end SbcEncoder

variable {κ : Type*}

/-- `sbc_encoder_recv_frame` called in `s` returns in `s'`. -/
def SbcEncoderRecvFrame (codec : SbcCodec κ) (buffer : List UInt8) (s s' : SbcEncoder κ) : Prop :=
  if s.ready then ∃ fuel, s.recvLoop codec fuel buffer = some s' else s' = s

/-- The calls of `sbc_encoder_recv_frame` for the chunks, one after the other. -/
inductive SbcEncoderRecvFrames (codec : SbcCodec κ) :
    List (List UInt8) → SbcEncoder κ → SbcEncoder κ → Prop
  | nil {s : SbcEncoder κ} : SbcEncoderRecvFrames codec [] s s
  | cons {chunk : List UInt8} {chunks : List (List UInt8)} {s u t : SbcEncoder κ}
      (hchunk : SbcEncoderRecvFrame codec chunk s u)
      (hrest : SbcEncoderRecvFrames codec chunks u t) :
      SbcEncoderRecvFrames codec (chunk :: chunks) s t

/-! ## a codec that goes on -/

/-- The answer to a call of the codec, for the two variables that it depends on. -/
def SbcCodec.call (codec : SbcCodec κ) (uiInitDone : UInt32) (handle : κ) (block : List UInt8) :
    SbcAnswer κ :=
  if uiInitDone = 0 then codec.initProcess handle block
  else { codec.doExecute handle block with initDone := uiInitDone }

/-- The answer when the codec has been called `n` times before with the same bytes. -/
def SbcCodec.callAgain (codec : SbcCodec κ) (block : List UInt8) : Nat → UInt32 → κ → SbcAnswer κ
  | 0, uiInitDone, handle => codec.call uiInitDone handle block
  | n + 1, uiInitDone, handle =>
      let a := codec.call uiInitDone handle block
      codec.callAgain block n a.initDone a.handle

/-- In any state and for any bytes the codec consumes a byte after some calls. -/
def SbcCodec.NeverRefusesForever (codec : SbcCodec κ) (size : Nat) : Prop :=
  ∀ (uiInitDone : UInt32) (handle : κ) (block : List UInt8), block.length = size →
    ∃ n, 0 < (codec.callAgain block n uiInitDone handle).consumed

theorem SbcCodec.call_consumed (codec : SbcCodec κ) (uiInitDone : UInt32) (handle : κ)
    (block : List UInt8) : (codec.call uiInitDone handle block).consumed ≤ block.length := by
  unfold call
  split
  · exact codec.initProcess_consumed handle block
  · exact codec.doExecute_consumed handle block

namespace SbcEncoder

variable {codec : SbcCodec κ} {s t u : SbcEncoder κ} {xs ys buffer : List UInt8} {fuel : Nat}

/-! ## what a call of the codec does -/

/-- The bytes staged and not consumed yet. -/
def staged (s : SbcEncoder κ) : List UInt8 := slice s.inpBuf 0 s.bufferLevel

/-- The buffer holds what is staged. -/
structure Valid (s : SbcEncoder κ) : Prop where
  level_le : s.bufferLevel ≤ s.uiInpSize
  size_lt : s.uiInpSize < 2 ^ 31

theorem valid_init (handle : κ) (uiSize : Fin (2 ^ 31)) (inpBuf : Nat → UInt8) :
    (sbcEncoderInit handle uiSize inpBuf).Valid :=
  ⟨Nat.zero_le _, uiSize.isLt⟩

theorem Valid.lastSpace_eq (h : s.Valid) : s.lastSpace = s.uiInpSize - s.bufferLevel :=
  sub32_of_le h.level_le

/-- The state after a call of the codec with the full buffer `inpBuf`: it depends neither on what
was staged before nor on how much. -/
def called (codec : SbcCodec κ) (inpBuf : Nat → UInt8) (s : SbcEncoder κ) : SbcEncoder κ :=
  let block := slice inpBuf 0 s.uiInpSize
  let a := codec.call s.uiInitDone s.handle block
  { s with
    handle := a.handle
    uiInitDone := a.initDone
    inpBuf := memcpy inpBuf 0 inpBuf a.consumed (s.uiInpSize - a.consumed)
    iBuffSize := s.uiInpSize
    iBytesConsumed := a.consumed
    bufferLevel := s.uiInpSize - a.consumed
    queue := if s.uiInitDone ≠ 0 ∧ a.out.length ≠ 0 then s.queue.pushBack a.out else s.queue
    consumed := s.consumed ++ block.take a.consumed
    blocks := s.blocks ++ [block] }

/-- Skipping the move makes no difference. -/
theorem shift_eq (h : s.iBytesConsumed ≤ s.iBuffSize) : s.shift = { s with
    inpBuf := memcpy s.inpBuf 0 s.inpBuf s.iBytesConsumed (s.iBuffSize - s.iBytesConsumed)
    bufferLevel := s.iBuffSize - s.iBytesConsumed } := by
  simp only [shift, sub32_of_le h]
  split
  · rfl
  · next hzero =>
      rw [not_ne_iff] at hzero
      rw [hzero, memcpy_zero]

theorem storeFrame_eq (out : SbcFrame) (s : SbcEncoder κ) : s.storeFrame out = { s with
    queue := if out.length ≠ 0 then s.queue.pushBack out else s.queue } := by
  unfold storeFrame
  split <;> rfl

theorem engine_eq (codec : SbcCodec κ) (s : SbcEncoder κ) :
    s.engine codec = { s with
      handle := (codec.call s.uiInitDone s.handle s.block).handle
      uiInitDone := (codec.call s.uiInitDone s.handle s.block).initDone
      iBytesConsumed := (codec.call s.uiInitDone s.handle s.block).consumed
      queue :=
        if s.uiInitDone ≠ 0 ∧ (codec.call s.uiInitDone s.handle s.block).out.length ≠ 0 then
          s.queue.pushBack (codec.call s.uiInitDone s.handle s.block).out
        else s.queue
      consumed :=
        s.consumed ++ s.block.take (codec.call s.uiInitDone s.handle s.block).consumed
      blocks := s.blocks ++ [s.block] } := by
  by_cases hstart : s.uiInitDone = 0
  · simp [engine, SbcCodec.call, engineStart, answered, hstart]
  · simp [engine, SbcCodec.call, engineEncode, answered, storeFrame_eq, block, hstart]

theorem fillAndCall_eq (codec : SbcCodec κ) (bytes : List UInt8) (s : SbcEncoder κ) :
    s.fillAndCall codec bytes = s.called codec (store s.inpBuf s.bufferLevel bytes) := by
  have hle := codec.call_consumed s.uiInitDone s.handle
    (slice (store s.inpBuf s.bufferLevel bytes) 0 s.uiInpSize)
  rw [length_slice] at hle
  rw [fillAndCall, engine_eq, shift_eq hle]
  rfl

/-- The call sees the bytes staged before and those that fill the buffer up. -/
theorem Valid.slice_store (h : s.Valid) {bytes : List UInt8} (hlen : bytes.length = s.lastSpace) :
    slice (store s.inpBuf s.bufferLevel bytes) 0 s.uiInpSize = s.staged ++ bytes := by
  have hsize : s.uiInpSize = s.bufferLevel + bytes.length := by
    rw [hlen, h.lastSpace_eq]
    have := h.level_le
    omega
  rw [hsize, slice_add, Nat.zero_add, slice_store_self,
    slice_store_of_disjoint _ _ _ _ _ (.inl (by omega))]
  rfl

theorem valid_called (h : s.Valid) (inpBuf : Nat → UInt8) : (s.called codec inpBuf).Valid :=
  ⟨Nat.sub_le _ _, h.size_lt⟩

/-- There is room for as many bytes as were consumed. -/
theorem lastSpace_called (h : s.Valid) (inpBuf : Nat → UInt8) : (s.called codec inpBuf).lastSpace =
    (codec.call s.uiInitDone s.handle (slice inpBuf 0 s.uiInpSize)).consumed := by
  have hle := codec.call_consumed s.uiInitDone s.handle (slice inpBuf 0 s.uiInpSize)
  rw [length_slice] at hle
  rw [(valid_called h _).lastSpace_eq]
  simp only [called]
  omega

/-- What was not consumed is staged. -/
theorem staged_called (inpBuf : Nat → UInt8) : (s.called codec inpBuf).staged =
    (slice inpBuf 0 s.uiInpSize).drop
      (codec.call s.uiInitDone s.handle (slice inpBuf 0 s.uiInpSize)).consumed := by
  have hle := codec.call_consumed s.uiInitDone s.handle (slice inpBuf 0 s.uiInpSize)
  rw [length_slice] at hle
  rw [drop_slice _ _ _ _ hle, Nat.zero_add]
  have hlen := slice_store_self inpBuf 0 (slice inpBuf
    (codec.call s.uiInitDone s.handle (slice inpBuf 0 s.uiInpSize)).consumed
    (s.uiInpSize - (codec.call s.uiInitDone s.handle (slice inpBuf 0 s.uiInpSize)).consumed))
  rwa [length_slice] at hlen

/-- A call moves bytes from the staged ones to those consumed. -/
theorem stream_called (inpBuf : Nat → UInt8) :
    (s.called codec inpBuf).consumed ++ (s.called codec inpBuf).staged =
      s.consumed ++ slice inpBuf 0 s.uiInpSize := by
  rw [staged_called]
  simp only [called, List.append_assoc, List.take_append_drop]

/-! ## the loop -/

/-- The loop ends in `t`. -/
def Recv (codec : SbcCodec κ) (buffer : List UInt8) (s t : SbcEncoder κ) : Prop :=
  ∃ fuel, s.recvLoop codec fuel buffer = some t

@[simp]
theorem recvLoop_nil : s.recvLoop codec fuel [] = some s := by
  simp [recvLoop]

theorem recvLoop_succ (hne : buffer ≠ []) : s.recvLoop codec (fuel + 1) buffer =
    if s.lastSpace ≤ buffer.length then
      (s.called codec (store s.inpBuf s.bufferLevel (buffer.take s.lastSpace))).recvLoop codec fuel
        (buffer.drop s.lastSpace)
    else some (s.stageRest buffer) := by
  cases buffer with
  | nil => exact absurd rfl hne
  | cons b buffer => rw [recvLoop, recvLoop_nil, fillAndCall_eq]

theorem recvLoop_zero (hne : buffer ≠ []) : s.recvLoop codec 0 buffer = none := by
  cases buffer with
  | nil => exact absurd rfl hne
  | cons b buffer => rfl

theorem recv_nil : Recv codec [] s t ↔ t = s := by
  simp [Recv, eq_comm]

/-- A round that fills the buffer. -/
theorem recv_fill (hne : buffer ≠ []) (hle : s.lastSpace ≤ buffer.length) :
    Recv codec buffer s t ↔ Recv codec (buffer.drop s.lastSpace)
      (s.called codec (store s.inpBuf s.bufferLevel (buffer.take s.lastSpace))) t := by
  constructor
  · rintro ⟨fuel, h⟩
    cases fuel with
    | zero => simp [recvLoop_zero hne] at h
    | succ fuel =>
        rw [recvLoop_succ hne, if_pos hle] at h
        exact ⟨fuel, h⟩
  · rintro ⟨fuel, h⟩
    exact ⟨fuel + 1, by rwa [recvLoop_succ hne, if_pos hle]⟩

/-- The last round. -/
theorem recv_rest (hne : buffer ≠ []) (hlt : buffer.length < s.lastSpace) :
    Recv codec buffer s t ↔ t = s.stageRest buffer := by
  constructor
  · rintro ⟨fuel, h⟩
    cases fuel with
    | zero => simp [recvLoop_zero hne] at h
    | succ fuel =>
        rw [recvLoop_succ hne, if_neg (Nat.not_le.mpr hlt)] at h
        exact (Option.some.inj h).symm
  · rintro rfl
    exact ⟨1, by rw [recvLoop_succ hne, if_neg (Nat.not_le.mpr hlt)]⟩

theorem Valid.stageRest (h : s.Valid) (hlt : buffer.length < s.lastSpace) :
    (s.stageRest buffer).Valid := by
  rw [h.lastSpace_eq] at hlt
  exact ⟨by simp only [SbcEncoder.stageRest, stage]; omega, h.size_lt⟩

theorem Valid.lastSpace_stageRest (h : s.Valid) (hlt : buffer.length < s.lastSpace) :
    (s.stageRest buffer).lastSpace = s.lastSpace - buffer.length := by
  rw [(h.stageRest hlt).lastSpace_eq, h.lastSpace_eq]
  simp only [SbcEncoder.stageRest, stage]
  omega

/-- The loop is the same whether bytes that do not fill the buffer come alone or with
others. -/
theorem Valid.recv_stageRest (h : s.Valid) (hne : xs ≠ []) (hlt : xs.length < s.lastSpace) :
    Recv codec (xs ++ ys) s t ↔ Recv codec ys (s.stageRest xs) t := by
  have hspace := h.lastSpace_stageRest hlt
  have hne' : xs ++ ys ≠ [] := by simp [hne]
  by_cases hys : ys = []
  · rw [hys, List.append_nil, recv_rest hne hlt, recv_nil]
  by_cases hle : s.lastSpace ≤ (xs ++ ys).length
  · -- the same bytes are in the buffer when the codec is called
    have hle' : (s.stageRest xs).lastSpace ≤ ys.length := by
      rw [hspace]
      rw [List.length_append] at hle
      omega
    have htake : (xs ++ ys).take s.lastSpace = xs ++ ys.take (s.stageRest xs).lastSpace := by
      rw [hspace, List.take_append, List.take_of_length_le (by omega)]
    have hdrop : (xs ++ ys).drop s.lastSpace = ys.drop (s.stageRest xs).lastSpace := by
      rw [hspace, List.drop_append, List.drop_of_length_le (by omega), List.nil_append]
    rw [recv_fill hne' hle, recv_fill hys hle', htake, hdrop, ← store_store_append]
    rfl
  · have hlt' : ys.length < (s.stageRest xs).lastSpace := by
      rw [hspace]
      rw [List.length_append] at hle
      omega
    have hstage : s.stageRest (xs ++ ys) = (s.stageRest xs).stageRest ys := by
      simp only [SbcEncoder.stageRest, stage, store_store_append, List.length_append,
        Nat.add_assoc]
    rw [recv_rest hne' (Nat.not_le.mp hle), recv_rest hys hlt', hstage]

/-- **Induction on a loop that ends** in `t`: no bytes, a last round, or a round that fills the
buffer before the others. -/
theorem Recv.induct {P : List UInt8 → SbcEncoder κ → Prop} (nil : P [] t)
    (rest : ∀ s buffer, buffer ≠ [] → buffer.length < s.lastSpace → s.stageRest buffer = t →
      P buffer s)
    (fill : ∀ s buffer, buffer ≠ [] → s.lastSpace ≤ buffer.length →
      P (buffer.drop s.lastSpace)
        (s.called codec (store s.inpBuf s.bufferLevel (buffer.take s.lastSpace))) → P buffer s)
    (h : Recv codec buffer s t) : P buffer s := by
  obtain ⟨fuel, h⟩ := h
  induction fuel generalizing s buffer with
  | zero =>
      by_cases hnil : buffer = []
      · subst hnil
        cases recvLoop_nil.symm.trans h
        exact nil
      · simp [recvLoop_zero hnil] at h
  | succ fuel ih =>
      by_cases hnil : buffer = []
      · subst hnil
        cases recvLoop_nil.symm.trans h
        exact nil
      by_cases hle : s.lastSpace ≤ buffer.length
      · rw [recvLoop_succ hnil, if_pos hle] at h
        exact fill s buffer hnil hle (ih h)
      · rw [recvLoop_succ hnil, if_neg hle] at h
        exact rest s buffer hnil (Nat.not_le.mp hle) (Option.some.inj h)

/-- A loop ends in one state only. -/
theorem Recv.unique (ht : Recv codec buffer s t) : ∀ u, Recv codec buffer s u → t = u := by
  refine ht.induct (P := fun buffer s => ∀ u, Recv codec buffer s u → t = u) ?_ ?_ ?_
  · intro u hu
    exact (recv_nil.mp hu).symm
  · intro s buffer hne hlt hrest u hu
    rw [(recv_rest hne hlt).mp hu, hrest]
  · intro s buffer hne hle ih u hu
    exact ih u ((recv_fill hne hle).mp hu)

/-! ## chunks -/

/-- A string in two parts, the loop for the whole. -/
theorem Recv.of_parts (h : s.Valid) (hxs : Recv codec xs s u) (hys : Recv codec ys u t) :
    Recv codec (xs ++ ys) s t := by
  revert h
  refine hxs.induct (P := fun xs s => s.Valid → Recv codec (xs ++ ys) s t) ?_ ?_ ?_
  · intro _
    exact hys
  · intro s xs hne hlt hrest h
    rw [h.recv_stageRest hne hlt, hrest]
    exact hys
  · intro s xs hne hle ih h
    rw [recv_fill (by simp [hne]) (by rw [List.length_append]; omega),
      List.take_append_of_le_length hle, List.drop_append_of_le_length hle]
    exact ih (valid_called h _)

/-- The loop for the whole, in two parts. -/
theorem Recv.parts (h : s.Valid) (hrecv : Recv codec (xs ++ ys) s t) :
    ∃ u, Recv codec xs s u ∧ Recv codec ys u t := by
  -- the first part may end in any round
  obtain ⟨fuel, hrecv⟩ := hrecv
  induction fuel generalizing s xs with
  | zero =>
      by_cases hnil : xs = []
      · subst hnil
        exact ⟨s, recv_nil.mpr rfl, 0, hrecv⟩
      · rw [recvLoop_zero (by simp [hnil])] at hrecv
        cases hrecv
  | succ fuel ih =>
      by_cases hnil : xs = []
      · subst hnil
        exact ⟨s, recv_nil.mpr rfl, fuel + 1, hrecv⟩
      have hne : xs ++ ys ≠ [] := by simp [hnil]
      by_cases hle : s.lastSpace ≤ xs.length
      · rw [recvLoop_succ hne, if_pos (by rw [List.length_append]; omega),
          List.take_append_of_le_length hle, List.drop_append_of_le_length hle] at hrecv
        obtain ⟨u, hu, ht⟩ := ih (valid_called h _) hrecv
        exact ⟨u, (recv_fill hnil hle).mpr hu, ht⟩
      · have hlt := Nat.not_le.mp hle
        exact ⟨_, (recv_rest hnil hlt).mpr rfl, (h.recv_stageRest hnil hlt).mp ⟨_, hrecv⟩⟩

/-! ## what the loop keeps -/

/-- Nothing is lost or added: what was staged and what comes is consumed or staged, in this
order, and the codec is given full buffers. -/
structure Streamed (buffer : List UInt8) (s t : SbcEncoder κ) : Prop where
  valid : t.Valid
  ready : t.ready = s.ready
  size : t.uiInpSize = s.uiInpSize
  stream : t.consumed ++ t.staged = s.consumed ++ s.staged ++ buffer
  full : ∃ blocks, t.blocks = s.blocks ++ blocks ∧ ∀ b ∈ blocks, b.length = s.uiInpSize

theorem Streamed.refl (h : s.Valid) : Streamed [] s s :=
  ⟨h, rfl, rfl, (List.append_nil _).symm, [], (List.append_nil _).symm, by simp⟩

theorem Streamed.trans (h : Streamed xs s u) (h' : Streamed ys u t) : Streamed (xs ++ ys) s t := by
  obtain ⟨blocks, heq, hfull⟩ := h.full
  obtain ⟨blocks', heq', hfull'⟩ := h'.full
  refine ⟨h'.valid, h'.ready.trans h.ready, h'.size.trans h.size, ?_, blocks ++ blocks', ?_, ?_⟩
  · rw [h'.stream, h.stream, List.append_assoc _ xs]
  · rw [heq', heq, List.append_assoc]
  · intro b hb
    obtain hb | hb := List.mem_append.mp hb
    · exact hfull b hb
    · exact (hfull' b hb).trans h.size

variable (codec) in
/-- A call of the codec. -/
theorem Valid.streamed_called (h : s.Valid) (hlen : xs.length = s.lastSpace) :
    Streamed xs s (s.called codec (store s.inpBuf s.bufferLevel xs)) where
  valid := valid_called h _
  ready := rfl
  size := rfl
  stream := by rw [stream_called, h.slice_store hlen, List.append_assoc]
  full := ⟨_, rfl, by simp⟩

theorem Valid.streamed_stageRest (h : s.Valid) (hlt : xs.length < s.lastSpace) :
    Streamed xs s (s.stageRest xs) where
  valid := h.stageRest hlt
  ready := rfl
  size := rfl
  stream := by
    have hslice : (s.stageRest xs).staged = s.staged ++ xs := by
      simp only [staged, SbcEncoder.stageRest, stage]
      rw [slice_add, Nat.zero_add, slice_store_self,
        slice_store_of_disjoint _ _ _ _ _ (.inl (by omega))]
    rw [hslice, ← List.append_assoc]
    rfl
  full := ⟨[], (List.append_nil _).symm, by simp⟩

theorem Recv.streamed (h : s.Valid) (hrecv : Recv codec buffer s t) : Streamed buffer s t := by
  revert h
  refine hrecv.induct (P := fun buffer s => s.Valid → Streamed buffer s t) ?_ ?_ ?_
  · exact .refl
  · intro s buffer _ hlt hrest h
    exact hrest ▸ h.streamed_stageRest hlt
  · intro s buffer _ hle ih h
    have hlen : (buffer.take s.lastSpace).length = s.lastSpace := by
      rw [List.length_take]
      omega
    have hcall := h.streamed_called codec hlen
    have hboth := hcall.trans (ih hcall.valid)
    rwa [List.take_append_drop] at hboth

/-! ## the loop ends -/

/-- With room in the buffer every round takes bytes, so it is enough that the loop ends for
fewer bytes. -/
theorem Valid.recv_of_room (h : s.Valid) (hroom : 0 < s.lastSpace)
    (ih : ∀ (s' : SbcEncoder κ) (rest : List UInt8), s'.Valid → s'.uiInpSize = s.uiInpSize →
      rest.length < buffer.length → ∃ t, Recv codec rest s' t) :
    ∃ t, Recv codec buffer s t := by
  by_cases hnil : buffer = []
  · exact ⟨s, by rw [hnil]; exact recv_nil.mpr rfl⟩
  by_cases hle : s.lastSpace ≤ buffer.length
  · simp only [recv_fill hnil hle]
    refine ih _ _ (valid_called h _) rfl ?_
    rw [List.length_drop]
    omega
  · exact ⟨_, (recv_rest hnil (Nat.not_le.mp hle)).mpr rfl⟩

variable (codec) in
/-- A round with a full buffer only calls the codec. -/
theorem Valid.round_of_full (h : s.Valid) (hfull : s.lastSpace = 0) (hne : buffer ≠ []) :
    slice s.inpBuf 0 s.uiInpSize = s.staged ∧
      ∀ t, Recv codec buffer s t ↔ Recv codec buffer (s.called codec s.inpBuf) t := by
  have hlevel : s.bufferLevel = s.uiInpSize := by
    have hle := h.level_le
    rw [h.lastSpace_eq] at hfull
    omega
  refine ⟨by rw [staged, hlevel], fun t => ?_⟩
  rw [recv_fill hne (by omega), hfull, List.take_zero, List.drop_zero, store_nil]

/-- With a full buffer the codec is called until it consumes a byte. -/
theorem Valid.recv_of_full (h : s.Valid) (hfull : s.lastSpace = 0) (hne : buffer ≠ []) {n : Nat}
    (hn : 0 < (codec.callAgain s.staged n s.uiInitDone s.handle).consumed)
    (ih : ∀ s' : SbcEncoder κ, s'.Valid → s'.uiInpSize = s.uiInpSize → 0 < s'.lastSpace →
      ∃ t, Recv codec buffer s' t) :
    ∃ t, Recv codec buffer s t := by
  induction n generalizing s with
  | zero =>
      obtain ⟨hstaged, hround⟩ := h.round_of_full codec hfull hne
      simp only [hround]
      refine ih _ (valid_called h _) rfl ?_
      rw [lastSpace_called h, hstaged]
      exact hn
  | succ n ihn =>
      obtain ⟨hstaged, hround⟩ := h.round_of_full codec hfull hne
      simp only [hround]
      by_cases hzero : (codec.call s.uiInitDone s.handle s.staged).consumed = 0
      · -- refused: the same bytes are there again
        refine ihn (valid_called h _) ?_ ?_ ih
        · rw [lastSpace_called h, hstaged, hzero]
        · rw [staged_called, hstaged, hzero]
          simp only [called, hstaged]
          exact hn
      · refine ih _ (valid_called h _) rfl ?_
        rw [lastSpace_called h, hstaged]
        exact Nat.pos_of_ne_zero hzero

/-- The loop ends for all bytes. -/
theorem Valid.recv_total (h : s.Valid) (hcodec : codec.NeverRefusesForever s.uiInpSize)
    (buffer : List UInt8) : ∃ t, Recv codec buffer s t := by
  induction hlen : buffer.length using Nat.strongRecOn generalizing s buffer with
  | _ len ih =>
      have hroom : ∀ s' : SbcEncoder κ, s'.Valid → s'.uiInpSize = s.uiInpSize → 0 < s'.lastSpace →
          ∃ t, Recv codec buffer s' t := by
        intro s' h' hsize hspace
        refine h'.recv_of_room hspace fun s'' rest h'' hsize' hlt => ?_
        exact ih rest.length (hlen ▸ hlt) h'' (by rwa [hsize', hsize]) rest rfl
      by_cases hspace : 0 < s.lastSpace
      · exact hroom s h rfl hspace
      by_cases hnil : buffer = []
      · exact ⟨s, by rw [hnil]; exact recv_nil.mpr rfl⟩
      have hfull : s.lastSpace = 0 := by omega
      have hsize : s.staged.length = s.uiInpSize := by
        have hle := h.level_le
        rw [h.lastSpace_eq] at hfull
        rw [staged, length_slice]
        omega
      obtain ⟨n, hn⟩ := hcodec s.uiInitDone s.handle s.staged hsize
      exact h.recv_of_full hfull hnil hn hroom

end SbcEncoder

/-! ## chunking -/

variable {codec : SbcCodec κ} {s t : SbcEncoder κ} {chunks : List (List UInt8)}

theorem sbcEncoderRecvFrame_iff (hready : s.ready = true) {buffer : List UInt8} :
    SbcEncoderRecvFrame codec buffer s t ↔ s.Recv codec buffer t := by
  rw [SbcEncoderRecvFrame, if_pos hready]
  rfl

/-- The calls for the chunks are the loop for the whole string. -/
theorem sbcEncoderRecvFrames_iff (h : s.Valid) (hready : s.ready = true) :
    SbcEncoderRecvFrames codec chunks s t ↔ s.Recv codec chunks.flatten t := by
  induction chunks generalizing s with
  | nil =>
      rw [List.flatten_nil, SbcEncoder.recv_nil]
      constructor
      · rintro ⟨⟩
        rfl
      · rintro rfl
        exact .nil
  | cons chunk chunks ih =>
      rw [List.flatten_cons]
      constructor
      · rintro (_ | ⟨hchunk, hrest⟩)
        rw [sbcEncoderRecvFrame_iff hready] at hchunk
        have hkept := hchunk.streamed h
        exact .of_parts h hchunk ((ih hkept.valid (hkept.ready.trans hready)).mp hrest)
      · intro hrecv
        obtain ⟨u, hchunk, hrest⟩ := hrecv.parts h
        have hkept := hchunk.streamed h
        exact .cons ((sbcEncoderRecvFrame_iff hready).mpr hchunk)
          ((ih hkept.valid (hkept.ready.trans hready)).mpr hrest)

/-- An encoder that is not ready ignores the bytes. -/
theorem sbcEncoderRecvFrames_not_ready (hready : s.ready = false) :
    SbcEncoderRecvFrames codec chunks s t ↔ t = s := by
  induction chunks generalizing s with
  | nil =>
      constructor
      · rintro ⟨⟩
        rfl
      · rintro rfl
        exact .nil
  | cons chunk chunks ih =>
      have hskip (u : SbcEncoder κ) : SbcEncoderRecvFrame codec chunk s u ↔ u = s := by
        simp [SbcEncoderRecvFrame, hready]
      constructor
      · rintro (_ | ⟨hchunk, hrest⟩)
        obtain rfl := (hskip _).mp hchunk
        exact (ih hready).mp hrest
      · rintro rfl
        exact .cons ((hskip _).mpr rfl) ((ih hready).mpr rfl)

/-- **Chunking does not matter**: the calls of `sbc_encoder_recv_frame` for the chunks of a string
return, in the state in which the one call for the string returns: with the same blocks given to
the codec, frames queued and bytes staged.  What was consumed and what is staged are the bytes
received, and the codec is given full buffers. -/
theorem sbc_input_chunking_independent (h : s.Valid)
    (hcodec : codec.NeverRefusesForever s.uiInpSize) (chunks : List (List UInt8)) :
    ∃ t, (∀ t', SbcEncoderRecvFrame codec chunks.flatten s t' ↔ t' = t) ∧
      (∀ t', SbcEncoderRecvFrames codec chunks s t' ↔ t' = t) ∧
      (s.ready = true → t.consumed ++ t.staged = s.consumed ++ s.staged ++ chunks.flatten ∧
        ∃ blocks, t.blocks = s.blocks ++ blocks ∧ ∀ b ∈ blocks, b.length = s.uiInpSize) := by
  cases hready : s.ready with
  | false =>
      refine ⟨s, fun t' => ?_, fun t' => sbcEncoderRecvFrames_not_ready hready, nofun⟩
      simp [SbcEncoderRecvFrame, hready]
  | true =>
      obtain ⟨t, ht⟩ := h.recv_total hcodec chunks.flatten
      have hunique (t' : SbcEncoder κ) : s.Recv codec chunks.flatten t' ↔ t' = t :=
        ⟨fun ht' => ht'.unique t ht, fun heq => heq ▸ ht⟩
      refine ⟨t, fun t' => ?_, fun t' => ?_, fun _ => ?_⟩
      · rw [sbcEncoderRecvFrame_iff hready, hunique]
      · rw [sbcEncoderRecvFrames_iff h hready, hunique]
      · have hkept := ht.streamed h
        exact ⟨hkept.stream, hkept.full⟩

/-- A codec that refuses its first block, is initialised with the next and then puts out a byte
for each. -/
def hesitantCodec : SbcCodec Bool where
  initProcess asked block :=
    if asked then ⟨true, 1, ⟨[], 0, rfl⟩, block.length⟩ else ⟨true, 0, ⟨[], 0, rfl⟩, 0⟩
  doExecute asked block := ⟨asked, 1, ⟨[0x9c], 1, rfl⟩, block.length⟩
  initProcess_consumed asked block := by split <;> simp
  doExecute_consumed _ _ := Nat.le_refl _

theorem hesitantCodec_neverRefusesForever : hesitantCodec.NeverRefusesForever 4 := by
  intro uiInitDone asked block hlen
  by_cases hstart : uiInitDone = 0
  · cases asked with
    | false => exact ⟨1, by simp [SbcCodec.callAgain, SbcCodec.call, hesitantCodec, hstart, hlen]⟩
    | true => exact ⟨0, by simp [SbcCodec.callAgain, SbcCodec.call, hesitantCodec, hstart, hlen]⟩
  · exact ⟨0, by simp [SbcCodec.callAgain, SbcCodec.call, hesitantCodec, hstart, hlen]⟩

/-- The first chunk ends where the codec refuses. -/
theorem sbc_input_chunking_independent_hesitant :
    ∃ t, SbcEncoderRecvFrame hesitantCodec [1, 2, 3, 4, 5, 6, 7, 8, 9]
        (sbcEncoderInit false 4 fun _ => 0) t ∧
      SbcEncoderRecvFrames hesitantCodec [[1, 2, 3, 4], [], [5, 6, 7, 8, 9]]
        (sbcEncoderInit false 4 fun _ => 0) t ∧
      t.consumed ++ t.staged = [1, 2, 3, 4, 5, 6, 7, 8, 9] := by
  obtain ⟨t, hone, hmany, hstream⟩ := sbc_input_chunking_independent
    (SbcEncoder.valid_init false 4 fun _ => 0) hesitantCodec_neverRefusesForever
    [[1, 2, 3, 4], [], [5, 6, 7, 8, 9]]
  exact ⟨t, (hone t).mpr rfl, (hmany t).mpr rfl, (hstream rfl).1⟩

end Fr5080.Pcm
