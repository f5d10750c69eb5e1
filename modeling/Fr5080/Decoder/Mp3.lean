import Fr5080.Decoder.Credit

/-!
# Fr5080.Decoder.Mp3

The input side of the MP3 decoder (`fr5080_user_code_xip`, `mp3_decoder.c`):
frames go into the ring, the engine functions move them on to the codec and
ask for more, and `mp3_decoder_do_decoder_handler` drives the engine.

The codec is a library: what it answers is an argument of the function that
calls it.  What becomes of the decoded PCM data does not concern the input side
and is left out.
-/

namespace Fr5080

open Embedded

/-! ## data -/

/-- The variables of `mp3_decoder.c`.  `engineReady` (the engine has been
initialised in this session) and `received` (the frames of this session) are
history variables. -/
structure Mp3Decoder extends DecoderInput where
  codec : CodecInput
  initDone : Nat
  engineReady : Bool
  received : List UInt8

/-- The variables as the start-up code leaves them. -/
def Mp3Decoder.zeroed : Mp3Decoder where
  toDecoderInput := .zeroed
  codec := .zeroed
  initDone := 0
  engineReady := false
  received := []

/-- The answers of the codec during one `mp3_decoder_do_decoder_handler`. -/
structure Mp3Answers where
  /-- the size of the input buffer, to `XA_API_CMD_GET_MEM_INFO_SIZE` -/
  inpSize : Fin (2 ^ 31)
  /-- `ui_init_done`, unless an error comes first -/
  initDone : Option Nat
  startConsume : Consumption
  decodeConsume : Consumption

/-! ## the functions -/

/-- `xa_mp3_dec_get_data`: the ring after it, the destination, the number of bytes. -/
def xaMp3DecGetData (ring : RingBuffer UInt8) (buffer : Nat → UInt8) (off size : Nat) :
    RingBuffer UInt8 × (Nat → UInt8) × Nat :=
  ring.getData mp3DecoderConfig.bufferSize 2 buffer off size

/-- `mp3_decoder_init`. -/
def mp3DecoderInit (d : Mp3Decoder) : Mp3Decoder :=
  { d with
    toDecoderInput := d.toDecoderInput.runCode mp3DecoderInitCode
    codec := { d.codec with consumed := [], calls := [] }
    initDone := 0
    engineReady := false
    received := [] }

/-- `mp3_decoder_prepare_for_next`. -/
def mp3DecoderPrepareForNext (d : Mp3Decoder) : Mp3Decoder := { d with prepForNext := true }

/-- `mp3_decoder_recv_frame`. -/
def mp3DecoderRecvFrame (buffer : List UInt8) (d : Mp3Decoder) : Mp3Decoder :=
  { d with
    toDecoderInput := d.toDecoderInput.recvFrame mp3DecoderConfig buffer
    received := d.received ++ buffer }

/-- `mp3_decoder_engine_init`, up to the codec's own memory. -/
def mp3DecoderEngineInit (uiSize : Fin (2 ^ 31)) (d : Mp3Decoder) : Mp3Decoder :=
  { d with codec := d.codec.alloc uiSize, engineReady := true }

/-- The codec call of the engine functions, and the grant code behind it. -/
def Mp3Decoder.codecCall (consume : Consumption) (d : Mp3Decoder) : Mp3Decoder :=
  { d with
    codec := d.codec.process consume
    toDecoderInput :=
      d.toDecoderInput.runCode (mp3DecoderApplyCode (consume d.codec.buffSize)) }

/-- `mp3_decoder_engine_start`; it returns `ui_init_done`. -/
def mp3DecoderEngineStart (initDone : Option Nat) (consume : Consumption) (d : Mp3Decoder) :
    Mp3Decoder :=
  let leftDataLength := d.codec.leftLength
  let (ring, codec, bytesRead) := d.codec.shift.fill mp3DecoderConfig.bufferSize d.ring
  let codec := { codec with buffSize := leftDataLength + bytesRead }
  let d := { d with ring := ring, codec := codec, initDone := initDone.getD d.initDone }
  d.codecCall consume

/-- `mp3_decoder_engine_decode`. -/
def mp3DecoderEngineDecode (consume : Consumption) (d : Mp3Decoder) : Mp3Decoder :=
  let leftDataLength := d.codec.leftLength
  let (ring, codec, bytesRead) := d.codec.shiftIfNeeded.fill mp3DecoderConfig.bufferSize d.ring
  let codec := { codec with buffSize := leftDataLength + bytesRead }
  let d := { d with ring := ring, codec := codec }
  if d.codec.bytesConsumed = 0 ∧ bytesRead = 0 then d
  else
    let d := { d with codec := { d.codec with bytesConsumed := 0 } }
    d.codecCall consume

/-- `case MP3_DECODER_DECODING`. -/
def Mp3Decoder.decodingCase (a : Mp3Answers) (d : Mp3Decoder) : Mp3Decoder :=
  mp3DecoderEngineDecode a.decodeConsume d

/-- `case MP3_DECODER_INITIATING`; the value returned by `engine_start` is a `WORD8`. -/
def Mp3Decoder.initiatingCase (a : Mp3Answers) (d : Mp3Decoder) : Mp3Decoder :=
  let d := mp3DecoderEngineStart a.initDone a.startConsume d
  if d.initDone % 256 = 1 then { d with state := .decoding }.decodingCase a
  else if d.prepForNext = false then { d with tasks := d.tasks ++ [.doDecode] }
  else d

/-- `case MP3_DECODER_BUFFERING`. -/
def Mp3Decoder.bufferingCase (a : Mp3Answers) (d : Mp3Decoder) : Mp3Decoder :=
  if mp3DecoderConfig.bufferingLimit ≤ d.totalInput then
    { mp3DecoderEngineInit a.inpSize d with state := .initiating }.initiatingCase a
  else d

/-- `mp3_decoder_do_decoder_handler`, the cases falling through from one to the next. -/
def mp3DecoderDoDecoderHandler (a : Mp3Answers) (d : Mp3Decoder) : Mp3Decoder :=
  match d.state with
  | .idle => { d with state := .buffering }.bufferingCase a
  | .buffering => d.bufferingCase a
  | .initiating => d.initiatingCase a
  | .decoding => d.decodingCase a
  | .pcmTransmitting => d

/-! ## the grant code -/

theorem mp3_initGrant :
    mp3DecoderConfig.initApplyUnit * mp3DecoderConfig.unitSize % 2 ^ 32 = 3840 := by decide

/-- `mp3_decoder_init` grants all units but one. -/
theorem runCode_mp3DecoderInitCode (r : DecoderInput) :
    r.runCode mp3DecoderInitCode = { r with
      ring := { r.ring with inp := 0, out := 0 }
      totalInput := 0
      dynamicConsumed := 0
      allRequestDataReceived := false
      requestDataSize := 3840
      prepForNext := false
      state := .idle
      grant := 3840
      since := 0 } := by
  rw [← mp3_initGrant]
  rfl

/-- The number of bytes that a grant of `mp3_decoder.c` asks for. -/
def mp3Grant (ring : RingBuffer UInt8) : Nat :=
  mp3DecoderConfig.applyUnit (ring.used mp3DecoderConfig.bufferSize) *
    mp3DecoderConfig.unitSize % 2 ^ 32

theorem execBlock_ifRequestDue (thd : Nat) (rest : List ApplyStmt) (c : ApplyCtx) :
    execBlock ApplyStmt.exec (.ifRequestDue thd :: rest) c =
      if c.allRequestDataReceived = true ∧ thd ≤ c.dynamicConsumed ∧ c.prepForNext = false then
        execBlock ApplyStmt.exec rest c
      else c := by
  simp only [execBlock, ApplyStmt.exec, Bool.and_eq_true, decide_eq_true_eq, Bool.not_eq_true',
    and_assoc]

theorem execBlock_ifApplyUnit (rest : List ApplyStmt) (c : ApplyCtx) :
    execBlock ApplyStmt.exec (.ifApplyUnit :: rest) c =
      if c.applyUnit ≠ 0 then execBlock ApplyStmt.exec rest c else c := by
  simp only [execBlock, ApplyStmt.exec, decide_eq_true_eq]

/-- The grant code counts the consumed bytes; when enough have been consumed
since the last grant was used up, it grants what fits. -/
theorem runCode_mp3DecoderApplyCode (r : DecoderInput) (bytesConsumed : Nat) :
    r.runCode (mp3DecoderApplyCode bytesConsumed) =
      if (r.allRequestDataReceived = true ∧
          mp3DecoderConfig.requestDataThd ≤ (r.dynamicConsumed + bytesConsumed) % 2 ^ 32 ∧
          r.prepForNext = false) ∧
          mp3DecoderConfig.applyUnit (r.ring.used mp3DecoderConfig.bufferSize) ≠ 0 then
        { r with
          dynamicConsumed := 0
          allRequestDataReceived := false
          requestDataSize := mp3Grant r.ring
          grant := mp3Grant r.ring
          since := 0 }
      else { r with dynamicConsumed := (r.dynamicConsumed + bytesConsumed) % 2 ^ 32 } := by
  have hcode : r.runCode (mp3DecoderApplyCode bytesConsumed) =
      (execBlock ApplyStmt.exec (mp3DecoderApplyCode bytesConsumed).tail
        ⟨{ r with dynamicConsumed := (r.dynamicConsumed + bytesConsumed) % 2 ^ 32 },
          0, 0⟩).toDecoderInput := rfl
  rw [hcode, mp3DecoderApplyCode, List.tail_cons, execBlock_ifRequestDue]
  by_cases hdue : r.allRequestDataReceived = true ∧
      mp3DecoderConfig.requestDataThd ≤ (r.dynamicConsumed + bytesConsumed) % 2 ^ 32 ∧
      r.prepForNext = false
  · rw [if_pos hdue]
    show (execBlock ApplyStmt.exec (.ifApplyUnit :: _)
      ⟨{ r with dynamicConsumed := (r.dynamicConsumed + bytesConsumed) % 2 ^ 32 },
        r.ring.used mp3DecoderConfig.bufferSize,
        mp3DecoderConfig.applyUnit (r.ring.used mp3DecoderConfig.bufferSize)⟩).toDecoderInput = _
    rw [execBlock_ifApplyUnit]
    by_cases hunit : mp3DecoderConfig.applyUnit (r.ring.used mp3DecoderConfig.bufferSize) ≠ 0
    · rw [if_pos hunit, if_pos ⟨hdue, hunit⟩]
      rfl
    · rw [if_neg hunit, if_neg fun h => hunit h.2]
  · rw [if_neg hdue, if_neg fun h => hdue h.1]

/-- The grant code leaves the ring and the state of the decoder alone. -/
theorem runCode_mp3DecoderApplyCode_frame (r : DecoderInput) (bytesConsumed : Nat) :
    (r.runCode (mp3DecoderApplyCode bytesConsumed)).ring = r.ring ∧
      (r.runCode (mp3DecoderApplyCode bytesConsumed)).state = r.state := by
  rw [runCode_mp3DecoderApplyCode]
  split
  · exact ⟨rfl, rfl⟩
  · exact ⟨rfl, rfl⟩

/-! ## the order of the bytes -/

/-- The bytes staged for the codec; before the engine is initialised there are none. -/
def Mp3Decoder.staged (d : Mp3Decoder) : List UInt8 :=
  if d.engineReady then d.codec.staged else []

/-- The unread bytes of the ring. -/
def Mp3Decoder.unread (d : Mp3Decoder) : List UInt8 := d.ring.contents mp3DecoderConfig.bufferSize

/-- The input is passed on in order, before and after the engine is initialised. -/
structure Mp3Decoder.InOrder (d : Mp3Decoder) : Prop where
  wf : d.ring.WF mp3DecoderConfig.bufferSize
  waiting : d.engineReady = false →
    d.codec.consumed = [] ∧ d.codec.calls = [] ∧ d.unread = d.received
  running : d.engineReady = true → d.codec.InOrder d.unread d.received

variable {d : Mp3Decoder}

theorem Mp3Decoder.InOrder.stream (h : d.InOrder) :
    d.codec.consumed ++ d.staged ++ d.unread = d.received := by
  unfold Mp3Decoder.staged
  cases hready : d.engineReady with
  | false =>
      obtain ⟨hconsumed, -, hunread⟩ := h.waiting hready
      rw [hconsumed, hunread]
      rfl
  | true => exact (h.running hready).stream

/-- `mp3_decoder_init` starts an empty stream. -/
theorem mp3DecoderInit_inOrder (d : Mp3Decoder) : (mp3DecoderInit d).InOrder := by
  have hring : (mp3DecoderInit d).ring = { d.ring with inp := 0, out := 0 } := by
    show (d.toDecoderInput.runCode mp3DecoderInitCode).ring = _
    rw [runCode_mp3DecoderInitCode]
  refine ⟨?_, fun _ => ⟨rfl, rfl, ?_⟩, fun hready => by cases hready⟩
  · rw [hring]
    exact ⟨Nat.zero_lt_succ 4095, Nat.zero_lt_succ 4095⟩
  · apply List.eq_nil_of_length_eq_zero
    rw [Mp3Decoder.unread, hring, RingBuffer.length_contents]
    rfl

theorem ring_mp3DecoderRecvFrame (buffer : List UInt8) (d : Mp3Decoder) :
    (mp3DecoderRecvFrame buffer d).ring = d.ring.recv mp3DecoderConfig.bufferSize buffer := by
  obtain ⟨state, tasks, -, heq⟩ := d.toDecoderInput.recvFrame_eq mp3DecoderConfig buffer
  show (d.toDecoderInput.recvFrame mp3DecoderConfig buffer).ring = _
  rw [heq]

/-- A frame that fits goes behind the unread bytes. -/
theorem Mp3Decoder.InOrder.unread_recvFrame (h : d.InOrder) {buffer : List UInt8}
    (hfits : d.ring.used mp3DecoderConfig.bufferSize + buffer.length <
      mp3DecoderConfig.bufferSize) :
    (mp3DecoderRecvFrame buffer d).unread = d.unread ++ buffer := by
  rw [Mp3Decoder.unread, ring_mp3DecoderRecvFrame, RingBuffer.contents_recv h.wf hfits]
  rfl

/-- A frame that fits goes to the end of the stream. -/
theorem Mp3Decoder.InOrder.recvFrame (h : d.InOrder) {buffer : List UInt8}
    (hfits : d.ring.used mp3DecoderConfig.bufferSize + buffer.length <
      mp3DecoderConfig.bufferSize) : (mp3DecoderRecvFrame buffer d).InOrder := by
  have hunread := h.unread_recvFrame hfits
  refine ⟨?_, fun hready => ?_, fun hready => ?_⟩
  · rw [ring_mp3DecoderRecvFrame]
    exact h.wf.recv hfits
  · obtain ⟨hconsumed, hcalls, heq⟩ := h.waiting hready
    refine ⟨hconsumed, hcalls, ?_⟩
    rw [hunread, heq]
    rfl
  · rw [hunread]
    exact (h.running hready).recv buffer

/-- The engine starts with the stream as it is. -/
theorem Mp3Decoder.InOrder.engineInit (h : d.InOrder) (hready : d.engineReady = false)
    (uiSize : Fin (2 ^ 31)) : (mp3DecoderEngineInit uiSize d).InOrder := by
  obtain ⟨hconsumed, hcalls, heq⟩ := h.waiting hready
  refine ⟨h.wf, fun hfalse => (by cases hfalse), fun _ => ?_⟩
  show (d.codec.alloc uiSize).InOrder d.unread d.received
  rw [heq]
  exact .alloc hconsumed hcalls uiSize

/-- The codec call and the grant code behind it keep the order. -/
theorem Mp3Decoder.InOrder.codecCall (h : d.InOrder) (hready : d.engineReady = true)
    (hzero : d.codec.bytesConsumed = 0) (consume : Consumption) :
    (d.codecCall consume).InOrder := by
  have hring : (d.codecCall consume).ring = d.ring :=
    (runCode_mp3DecoderApplyCode_frame _ _).1
  refine ⟨?_, fun hfalse => ?_, fun _ => ?_⟩
  · rw [hring]
    exact h.wf
  · rw [show (d.codecCall consume).engineReady = d.engineReady from rfl, hready] at hfalse
    cases hfalse
  · rw [Mp3Decoder.unread, hring]
    exact (h.running hready).process hzero consume

/-- The number of bytes that the engine reads from the ring. -/
def Mp3Decoder.readable (d : Mp3Decoder) : Nat :=
  d.codec.readable mp3DecoderConfig.bufferSize d.ring

/-- The decoder with the input of the next codec call in `inpBuf`. -/
def Mp3Decoder.refilled (inpBuf : Nat → UInt8) (d : Mp3Decoder) : Mp3Decoder :=
  { d with
    ring := d.ring.advance mp3DecoderConfig.bufferSize d.readable
    codec := { d.codec with
      inpBuf := inpBuf
      buffSize := d.codec.buffSize - d.codec.bytesConsumed + d.readable
      bytesConsumed := 0 } }

/-- Both engine functions refill the input in the same way; only `engine_decode`
leaves the codec alone when there is nothing new. -/
theorem mp3DecoderEngine_eq (h : d.InOrder) (hready : d.engineReady = true) :
    ∃ inpBuf, (d.refilled inpBuf).InOrder ∧
      (∀ initDone consume, mp3DecoderEngineStart initDone consume d =
        { d.refilled inpBuf with initDone := initDone.getD d.initDone }.codecCall consume) ∧
      (∀ consume, mp3DecoderEngineDecode consume d =
        if d.codec.bytesConsumed = 0 ∧ d.readable = 0 then d.refilled inpBuf
        else (d.refilled inpBuf).codecCall consume) := by
  have hcodec := h.running hready
  obtain ⟨inpBuf, hfill, horder⟩ := hcodec.refill h.wf
  have hleft := hcodec.valid.leftLength_eq
  refine ⟨inpBuf, ⟨h.wf.advance (CodecInput.readable_le _ _ _), fun hfalse => ?_,
    fun _ => horder⟩, fun initDone consume => ?_, fun consume => ?_⟩
  · rw [show (d.refilled inpBuf).engineReady = d.engineReady from rfl, hready] at hfalse
    cases hfalse
  · unfold mp3DecoderEngineStart
    rw [hfill, hleft]
    rfl
  · unfold mp3DecoderEngineDecode
    rw [CodecInput.shiftIfNeeded_eq, hfill, hleft]
    by_cases hnone : d.codec.bytesConsumed = 0 ∧ d.readable = 0
    · have hsame : d.refilled inpBuf = { d with
          ring := d.ring.advance mp3DecoderConfig.bufferSize d.readable
          codec := { d.codec with
            inpBuf := inpBuf
            buffSize := d.codec.buffSize - d.codec.bytesConsumed + d.readable } } := by
        unfold Mp3Decoder.refilled
        rw [← hnone.1]
      rw [if_pos hnone, hsame]
      exact if_pos hnone
    · rw [if_neg hnone]
      exact if_neg hnone

theorem Mp3Decoder.InOrder.engineStart (h : d.InOrder) (hready : d.engineReady = true)
    (initDone : Option Nat) (consume : Consumption) :
    (mp3DecoderEngineStart initDone consume d).InOrder ∧
      (mp3DecoderEngineStart initDone consume d).received = d.received := by
  obtain ⟨inpBuf, horder, hstart, -⟩ := mp3DecoderEngine_eq h hready
  have horder' : ({ d.refilled inpBuf with
      initDone := initDone.getD d.initDone } : Mp3Decoder).InOrder :=
    ⟨horder.wf, horder.waiting, horder.running⟩
  rw [hstart]
  exact ⟨horder'.codecCall hready rfl consume, rfl⟩

theorem Mp3Decoder.InOrder.engineDecode (h : d.InOrder) (hready : d.engineReady = true)
    (consume : Consumption) :
    (mp3DecoderEngineDecode consume d).InOrder ∧
      (mp3DecoderEngineDecode consume d).received = d.received := by
  obtain ⟨inpBuf, horder, -, hdecode⟩ := mp3DecoderEngine_eq h hready
  rw [hdecode]
  split
  · exact ⟨horder, rfl⟩
  · exact ⟨horder.codecCall hready rfl consume, rfl⟩

/-- The early return of `engine_decode` leaves everything as it is. -/
theorem mp3DecoderEngineDecode_none (h : d.InOrder) (hready : d.engineReady = true)
    (hconsumed : d.codec.bytesConsumed = 0) (hread : d.readable = 0) (consume : Consumption) :
    (mp3DecoderEngineDecode consume d).codec.consumed = d.codec.consumed ∧
      (mp3DecoderEngineDecode consume d).codec.calls = d.codec.calls ∧
      (mp3DecoderEngineDecode consume d).staged = d.staged ∧
      (mp3DecoderEngineDecode consume d).unread = d.unread := by
  obtain ⟨inpBuf, horder, -, hdecode⟩ := mp3DecoderEngine_eq h hready
  rw [hdecode, if_pos ⟨hconsumed, hread⟩]
  have hunread : (d.refilled inpBuf).unread = d.unread := by
    have hdrop := RingBuffer.contents_advance h.wf (Nat.zero_le _)
    rw [List.drop_zero, ← hread] at hdrop
    exact hdrop
  have hstream : d.codec.consumed ++ (d.refilled inpBuf).staged ++ (d.refilled inpBuf).unread =
      d.codec.consumed ++ d.staged ++ d.unread := horder.stream.trans h.stream.symm
  rw [hunread, List.append_cancel_right_eq, List.append_cancel_left_eq] at hstream
  exact ⟨rfl, rfl, hstream, hunread⟩

end Fr5080
