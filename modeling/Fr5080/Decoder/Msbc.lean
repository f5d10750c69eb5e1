import Fr5080.Decoder.Credit
import Fr5080.Embedded.Sched

/-!
# Fr5080.Decoder.Msbc

The input side of the mSBC decoder (`fr5080_msbc_decoder`, `msbc_decoder.c`).

`msbc_decoder_do_decoder_handler` and `msbc_decoder_init` are code of
statements, because a frame of the MCU may be handled between any two of them.
An engine function is one statement up to the point where the codec has told
how much it has consumed: what it does there concerns the ring only in
`xa_sbc_dec_get_data`, which disables interrupts.  The code behind it, which
sends grants, is the list of statements of `Fr5080.Decoder.Credit`.

The codec is a library: what it answers is the answer of the statement.  Its
decoded data go to the PCM handler and are left out.  So is the task queue; the
functions of the decoder can be called whenever the task is idle.
-/

namespace Fr5080

open Embedded

/-! ## data -/

/-- The variables of `msbc_decoder.c`; `buffer` tells whether
`msbc_decoder_buffer` is not `NULL`.

`received` (the frames of this session) and `grants` (the units asked for in
it) are history variables, as are `calls` and `consumed` of the codec. -/
structure MsbcDecoder where
  input : DecoderInput
  codec : CodecInput
  uiInitDone : Nat
  ignoreFirstConsumed : Bool
  buffer : Bool
  received : List UInt8
  grants : List Nat

/-- The variables as the start-up code leaves them. -/
def MsbcDecoder.zeroed : MsbcDecoder where
  input := .zeroed
  codec := .zeroed
  uiInitDone := 0
  ignoreFirstConsumed := false
  buffer := false
  received := []
  grants := []

/-- What a statement may be answered; each uses what concerns it. -/
structure MsbcDecoderAnswer where
  /-- what is in a block that has just been allocated -/
  mem : Nat → UInt8
  /-- `ui_init_done`, unless an error comes first -/
  initDone : Option Nat
  consume : Consumption
  /-- whether `ipc_alloc_channel` succeeds -/
  channel : Bool

/-- The functions of the decoder that the task calls; `available` tells whether
`msbc_decoder_init` gets a channel. -/
inductive MsbcDecoderCall
  | init (available : Bool)
  | doDecoderHandler
  | destroy
deriving DecidableEq, Repr

/-- What is done in an interrupt: `msbc_decoder_recv_frame`, and
`msbc_decoder_prepare_for_next`, which may be called at any time. -/
inductive MsbcDecoderIsr
  | recvFrame (buffer : List UInt8)
  | prepareForNext
deriving DecidableEq, Repr

/-- The `length` of a message has 10 bits. -/
def ipcLengthLimit : Nat := 1024

/-! ## the interrupt side -/

/-- The interrupt handlers; without `msbc_decoder_buffer` a frame is written to
address 0 and what follows it, which is a fault. -/
def msbcDecoderIsr (s : MsbcDecoder) : MsbcDecoderIsr → Option MsbcDecoder
  | .recvFrame buffer =>
      if s.buffer = true ∧ buffer.length < ipcLengthLimit then
        some { s with
          input := s.input.recvFrame msbcDecoderConfig buffer
          received := s.received ++ buffer }
      else none
  | .prepareForNext => some { s with input := { s.input with prepForNext := true } }

/-! ## the task side -/

/-- A statement of the task. -/
inductive MsbcDecoderStmt
  /-- `switch(msbc_decoder_state)` -/
  | switchState
  /-- `state = BUFFERING` -/
  | setBuffering
  /-- `if(MSBC_DECODER_BUFFERING_LIMIT <= msbc_decoder_total_input)` -/
  | ifBuffered
  /-- `msbc_decoder_engine_init()` -/
  | engineInit
  /-- `state = INITIATING` -/
  | setInitiating
  /-- `msbc_decoder_engine_start()`, up to `XA_API_CMD_GET_CURIDX_INPUT_BUF` -/
  | engineStart
  /-- its end, and the comparison of its result with 1 -/
  | ifStarted
  /-- `state = DECODING` -/
  | setDecoding
  /-- `msbc_decoder_engine_decode()`, up to `XA_API_CMD_GET_CURIDX_INPUT_BUF` -/
  | engineDecode
  /-- the code that sends a grant, from some statement on, with its local variables -/
  | apply (leftSpace applyUnit : Nat) (code : List ApplyStmt)
  /-- `ui_init_done = 0; ui_exec_done = 0` -/
  | clearInitDone
  /-- `msbc_decoder_buffer = msbc_mem_alloc(MSBC_DECODER_BUFFER_SIZE)` -/
  | allocBuffer
  /-- `msbc_decoder_destroy` -/
  | destroy

/-- `case MSBC_DECODER_DECODING`. -/
def msbcDecodingCase : List MsbcDecoderStmt := [.engineDecode]

/-- `case MSBC_DECODER_INITIATING`. -/
def msbcInitiatingCase : List MsbcDecoderStmt := [.engineStart, .ifStarted]

/-- `case MSBC_DECODER_BUFFERING`. -/
def msbcBufferingCase : List MsbcDecoderStmt := [.ifBuffered]

/-- `case MSBC_DECODER_IDLE`. -/
def msbcIdleCase : List MsbcDecoderStmt := [.setBuffering]

/-- The functions that the task calls. -/
def msbcDecoderCode : MsbcDecoderCall → List MsbcDecoderStmt
  | .init available =>
      if available then [.clearInitDone, .allocBuffer, .apply 0 0 (msbcDecoderInitCode available)]
      else []
  | .doDecoderHandler => [.switchState]
  | .destroy => [.destroy]

/-- The unit of the grant that a statement sends. -/
def ApplyStmt.sent (c : ApplyStmt) (x : ApplyCtx) : List Nat :=
  match c with
  | .sendRawBufferSpace _ => [x.applyUnit]
  | _ => []

/-- The state of the decoder is assigned. -/
def MsbcDecoder.setState (state : DecoderState) (s : MsbcDecoder) : MsbcDecoder :=
  { s with input := { s.input with state := state } }

/-- `msbc_decoder_engine_init`, up to the codec's own memory: a new input buffer of
`ui_size` bytes. -/
def msbcDecoderEngineInit (uiSize : Fin (2 ^ 31)) (mem : Nat → UInt8) (s : MsbcDecoder) :
    MsbcDecoder :=
  { s with codec := { s.codec with inpBuf := mem, inpSize := uiSize } }

/-- `msbc_decoder_engine_start`, up to `XA_API_CMD_GET_CURIDX_INPUT_BUF`. -/
def msbcDecoderEngineStart (initDone : Option Nat) (consume : Consumption) (s : MsbcDecoder) :
    MsbcDecoder :=
  let leftDataLength := s.codec.leftLength
  let (ring, codec, bytesRead) :=
    s.codec.shift.fill msbcDecoderConfig.bufferSize s.input.ring
  let codec := { codec with buffSize := leftDataLength + bytesRead }
  { s with
    input := { s.input with ring := ring }
    codec := codec.process consume
    uiInitDone := initDone.getD s.uiInitDone }

/-- `msbc_decoder_engine_decode`, up to `XA_API_CMD_GET_CURIDX_INPUT_BUF`, and
whether it gets there. -/
def msbcDecoderEngineDecode (consume : Consumption) (s : MsbcDecoder) : MsbcDecoder × Bool :=
  let leftDataLength := s.codec.leftLength
  let (ring, codec, bytesRead) :=
    s.codec.shiftIfNeeded.fill msbcDecoderConfig.bufferSize s.input.ring
  let codec := { codec with buffSize := leftDataLength + bytesRead }
  let s := { s with input := { s.input with ring := ring }, codec := codec }
  if s.ignoreFirstConsumed = false ∧ s.codec.bytesConsumed = 0 ∧ bytesRead = 0 then (s, false)
  else
    let codec := { codec with bytesConsumed := 0 }
    ({ s with ignoreFirstConsumed := false, codec := codec.process consume }, true)

/-- The end of `msbc_decoder_engine_start`. -/
def MsbcDecoder.setIgnore (s : MsbcDecoder) : MsbcDecoder :=
  { s with ignoreFirstConsumed :=
      if s.uiInitDone ≠ 0 then s.codec.bytesConsumed = 0 else s.ignoreFirstConsumed }

/-- The code behind `XA_API_CMD_GET_CURIDX_INPUT_BUF`. -/
def MsbcDecoder.applyStmt (channel : Bool) (s : MsbcDecoder) : MsbcDecoderStmt :=
  .apply 0 0 (msbcDecoderApplyCode s.codec.bytesConsumed channel)

/-- `msbc_decoder_destroy`; the memory of the codec is freed with the buffer. -/
def msbcDecoderDestroy (s : MsbcDecoder) : MsbcDecoder :=
  { s with
    buffer := false
    input := { s.input with
      dynamicConsumed := 0
      totalInput := 0
      state := .idle
      allRequestDataReceived := false } }

/-- The effect of a statement; `ui_size` is a constant of the codec. -/
def MsbcDecoderStmt.exec (uiSize : Fin (2 ^ 31)) (a : MsbcDecoderAnswer) (s : MsbcDecoder) :
    MsbcDecoderStmt → Effect MsbcDecoderStmt Empty MsbcDecoder
  | .switchState => match s.input.state with
    | .idle => ⟨s, [], some msbcIdleCase⟩
    | .buffering => ⟨s, [], some msbcBufferingCase⟩
    | .initiating => ⟨s, [], some msbcInitiatingCase⟩
    | .decoding => ⟨s, [], some msbcDecodingCase⟩
    | .pcmTransmitting => .goOn s
  -- the assignments of the state fall through to the next case
  | .setBuffering => ⟨s.setState .buffering, [], some msbcBufferingCase⟩
  | .ifBuffered =>
      if msbcDecoderConfig.bufferingLimit ≤ s.input.totalInput then
        ⟨s, [], some [.engineInit, .setInitiating]⟩
      else .goOn s
  | .engineInit => .goOn (msbcDecoderEngineInit uiSize a.mem s)
  | .setInitiating => ⟨s.setState .initiating, [], some msbcInitiatingCase⟩
  | .engineStart =>
      let s := msbcDecoderEngineStart a.initDone a.consume s
      ⟨s, [], some [s.applyStmt a.channel]⟩
  | .ifStarted =>
      let s := s.setIgnore
      -- the result is a `WORD8`
      if s.uiInitDone % 256 = 1 then ⟨s, [], some [.setDecoding]⟩
      else if s.input.prepForNext = false then
        .goOn { s with input := { s.input with tasks := s.input.tasks ++ [.doDecode] } }
      else .goOn s
  | .setDecoding => ⟨s.setState .decoding, [], some msbcDecodingCase⟩
  | .engineDecode =>
      let (s, goesOn) := msbcDecoderEngineDecode a.consume s
      if goesOn then ⟨s, [], some [s.applyStmt a.channel]⟩ else .goOn s
  | .apply leftSpace applyUnit code => match code with
    | [] => .goOn s
    | c :: cs =>
        let x : ApplyCtx := ⟨s.input, leftSpace, applyUnit⟩
        let (x', goesOn) := c.exec x
        ⟨{ s with input := x'.toDecoderInput, grants := s.grants ++ c.sent x }, [],
          some (if goesOn then [.apply x'.leftSpace x'.applyUnit cs] else [])⟩
  | .clearInitDone => .goOn { s with
      uiInitDone := 0
      codec := { s.codec with consumed := [], calls := [] }
      received := []
      grants := [] }
  | .allocBuffer => .goOn { s with
      buffer := true
      input := { s.input with ring := { s.input.ring with buf := a.mem } } }
  | .destroy => .goOn (msbcDecoderDestroy s)

/-- The task and its interrupts. -/
abbrev MsbcDecoderSched := Sched MsbcDecoderStmt Empty MsbcDecoder

/-- An event of the decoder. -/
abbrev MsbcDecoderEvent := SchedEvent MsbcDecoderCall MsbcDecoderAnswer MsbcDecoderIsr

/-- One step of the task and its interrupts. -/
def msbcDecoderStep (uiSize : Fin (2 ^ 31)) :
    MsbcDecoderSched → MsbcDecoderEvent → Option MsbcDecoderSched :=
  schedStep msbcDecoderCode (fun m => m.elim) (fun c a s => some (c.exec uiSize a s))
    (fun e s => (msbcDecoderIsr s e).map fun s => (s, []))

/-- After power-up the task is idle. -/
def MsbcDecoderSched.start : MsbcDecoderSched := ⟨[], [], .zeroed⟩

/-- The event belongs to a running session: it is not the call of an init or of a destroy. -/
def InSession : MsbcDecoderEvent → Prop
  | .call p => p = .doDecoderHandler
  | _ => True

instance : DecidablePred InSession
  | .call p => inferInstanceAs (Decidable (p = _))
  | .dispatch => .isTrue trivial
  | .stmt _ => .isTrue trivial
  | .interrupt _ => .isTrue trivial

/-- All that a step can do. -/
theorem msbcDecoderStep_cases {uiSize : Fin (2 ^ 31)} {code : List MsbcDecoderStmt}
    {s : MsbcDecoder} {e : MsbcDecoderEvent} {t' : MsbcDecoderSched}
    (h : msbcDecoderStep uiSize ⟨code, [], s⟩ e = some t') :
    (∃ p, e = .call p ∧ code = [] ∧ t' = ⟨msbcDecoderCode p, [], s⟩) ∨
      (∃ c cs a, e = .stmt a ∧ code = c :: cs ∧
        t' = ⟨(c.exec uiSize a s).code cs, [], (c.exec uiSize a s).state⟩) ∨
      ∃ i s', e = .interrupt i ∧ msbcDecoderIsr s i = some s' ∧ t' = ⟨code, [], s'⟩ := by
  obtain ⟨p, rfl, rfl, rfl⟩ | ⟨m, -⟩ | ⟨c, cs, a, r, rfl, rfl, hexec, rfl⟩ |
    ⟨i, s', posted, rfl, hisr, rfl⟩ := schedStep_cases h
  · exact .inl ⟨p, rfl, rfl, rfl⟩
  · exact m.elim
  · cases Option.some.inj hexec
    have hposted : (c.exec uiSize a s).posted = [] :=
      List.eq_nil_iff_forall_not_mem.mpr fun m _ => m.elim
    exact .inr (.inl ⟨c, cs, a, rfl, rfl, by simp [hposted]⟩)
  · obtain ⟨_, hs', hpair⟩ := Option.map_eq_some_iff.mp hisr
    cases hpair
    exact .inr (.inr ⟨i, s', rfl, hs', rfl⟩)

/-! ## the engine -/

/-- The variables of the ring and of the staging buffer fit each other. -/
structure MsbcDecoder.Regular (uiSize : Fin (2 ^ 31)) (s : MsbcDecoder) : Prop where
  ring : s.input.ring.WF msbcDecoderConfig.bufferSize
  codec : s.codec.Valid
  size : s.codec.inpSize ≤ uiSize

namespace MsbcDecoder

/-- The unread bytes. -/
def unread (s : MsbcDecoder) : List UInt8 := s.input.ring.contents msbcDecoderConfig.bufferSize

/-- The number of bytes that the next call of the codec moves from the ring. -/
def readable (s : MsbcDecoder) : Nat :=
  s.codec.readable msbcDecoderConfig.bufferSize s.input.ring

/-- `c` is the staging buffer with the input of the next call. -/
structure Refilled (s : MsbcDecoder) (c : CodecInput) : Prop where
  input : slice c.inpBuf 0 c.buffSize = s.codec.staged ++ s.unread.take s.readable
  inpSize : c.inpSize = s.codec.inpSize
  consumed : c.consumed = s.codec.consumed
  calls : c.calls = s.codec.calls

/-- The codec has been called with the staging buffer `c`. -/
def callCodec (c : CodecInput) (consume : Consumption) (s : MsbcDecoder) : MsbcDecoder :=
  { s with
    input := { s.input with
      ring := s.input.ring.advance msbcDecoderConfig.bufferSize s.readable }
    codec := c.process consume }

variable {uiSize : Fin (2 ^ 31)} {s : MsbcDecoder} {c : CodecInput}

/-- The unread bytes are those in the ring. -/
theorem length_unread (s : MsbcDecoder) :
    s.unread.length = s.input.ring.used msbcDecoderConfig.bufferSize :=
  RingBuffer.length_contents _ _

/-- As much as there is room for, and no more than there is. -/
theorem readable_eq (s : MsbcDecoder) :
    s.readable = min (s.codec.inpSize - s.codec.staged.length) s.unread.length := by
  rw [length_unread, CodecInput.length_staged]
  rfl

/-- The bytes staged before and those read. -/
theorem Refilled.buffSize (h : s.Refilled c) :
    c.buffSize = s.codec.staged.length + s.readable := by
  have hlen := congrArg List.length h.input
  have hle := s.readable_eq
  rw [length_slice, List.length_append, List.length_take] at hlen
  omega

/-- The input of the next call fits into the buffer. -/
theorem Refilled.valid (h : s.Refilled c) (hs : s.codec.Valid) (consume : Consumption) :
    (c.process consume).Valid := by
  have hbuff := h.buffSize
  have hread := s.readable_eq
  have hsize := h.inpSize
  have hstaged := s.codec.length_staged
  have hle := hs.buff_le
  refine ⟨Nat.lt_succ_iff.mp (consume c.buffSize).isLt, ?_, ?_⟩
  · show c.buffSize ≤ c.inpSize
    omega
  · show c.inpSize < 2 ^ 31
    rw [hsize]
    exact hs.size_lt

/-- The codec keeps the state regular. -/
theorem Regular.callCodec (hs : s.Regular uiSize) (hc : s.Refilled c) (consume : Consumption) :
    (s.callCodec c consume).Regular uiSize where
  ring := hs.ring.advance (s.codec.readable_le _ _)
  codec := hc.valid hs.codec consume
  size := hc.inpSize.trans_le hs.size

/-- Filling the staging buffer. -/
theorem Regular.refill (hs : s.Regular uiSize) : ∃ inpBuf,
    s.codec.shift.fill msbcDecoderConfig.bufferSize s.input.ring =
      (s.input.ring.advance msbcDecoderConfig.bufferSize s.readable,
        { s.codec with inpBuf := inpBuf }, s.readable) ∧
    s.Refilled { s.codec with
      inpBuf := inpBuf
      buffSize := s.codec.leftLength + s.readable } := by
  obtain ⟨inpBuf, hfill, hslice⟩ := CodecInput.slice_fill_shift hs.codec hs.ring
  refine ⟨inpBuf, hfill, ⟨?_, rfl, rfl, rfl⟩⟩
  rw [hs.codec.leftLength_eq]
  exact hslice

end MsbcDecoder

section

variable {uiSize : Fin (2 ^ 31)} {s : MsbcDecoder}

/-- `msbc_decoder_engine_start` fills the staging buffer and calls the codec. -/
theorem msbcDecoderEngineStart_eq (hs : s.Regular uiSize) (initDone : Option Nat)
    (consume : Consumption) : ∃ c, s.Refilled c ∧
      msbcDecoderEngineStart initDone consume s =
        { s.callCodec c consume with uiInitDone := initDone.getD s.uiInitDone } := by
  obtain ⟨inpBuf, hfill, hc⟩ := hs.refill
  refine ⟨_, hc, ?_⟩
  simp only [msbcDecoderEngineStart, hfill]
  rfl

/-- The condition for the early return of `msbc_decoder_engine_decode`: the last call
consumed nothing, and there is nothing new for another one. -/
def MsbcDecoder.Drained (s : MsbcDecoder) : Prop :=
  s.ignoreFirstConsumed = false ∧ s.codec.bytesConsumed = 0 ∧ s.readable = 0

instance : DecidablePred MsbcDecoder.Drained := fun _ => inferInstanceAs (Decidable (_ ∧ _ ∧ _))

/-- `msbc_decoder_engine_decode` does the same, unless it returns early. -/
theorem msbcDecoderEngineDecode_eq (hs : s.Regular uiSize) (h : ¬ s.Drained)
    (consume : Consumption) : ∃ c, s.Refilled c ∧
      msbcDecoderEngineDecode consume s =
        ({ s.callCodec c consume with ignoreFirstConsumed := false }, true) := by
  obtain ⟨inpBuf, hfill, hc⟩ := hs.refill
  refine ⟨_, hc, ?_⟩
  simp only [msbcDecoderEngineDecode, CodecInput.shiftIfNeeded_eq, hfill]
  exact if_neg h

/-- The early return leaves everything as it was. -/
theorem msbcDecoderEngineDecode_drained (hs : s.Regular uiSize) (h : s.Drained)
    (consume : Consumption) : msbcDecoderEngineDecode consume s = (s, false) := by
  obtain ⟨hignore, hconsumed, hread⟩ := h
  have hshift : s.codec.shiftIfNeeded = s.codec := if_neg fun hne => hne.2 hconsumed
  have hleft : s.codec.leftLength + 0 = s.codec.buffSize := by
    rw [hs.codec.leftLength_eq, hconsumed]
    rfl
  have hring : s.input.ring.advance msbcDecoderConfig.bufferSize 0 = s.input.ring := by
    have hout : RingBuffer.wrap msbcDecoderConfig.bufferSize s.input.ring.out =
      s.input.ring.out := if_pos hs.ring.out_lt
    rw [RingBuffer.advance, Nat.add_zero, hout]
  have hfill : s.codec.fill msbcDecoderConfig.bufferSize s.input.ring =
      (s.input.ring, s.codec, 0) := by
    have hnil : s.unread.take (s.codec.inpSize - (s.codec.buffSize - s.codec.bytesConsumed)) =
        [] := by
      apply List.eq_nil_of_length_eq_zero
      rw [List.length_take, s.length_unread]
      exact hread
    rw [CodecInput.fill_eq hs.codec hs.ring]
    rw [MsbcDecoder.unread] at hnil
    rw [hnil, store_nil, show s.codec.readable _ _ = 0 from hread, hring]
  simp only [msbcDecoderEngineDecode, hshift, hfill, hleft]
  exact if_pos ⟨hignore, hconsumed, trivial⟩

/-! ## what every step keeps -/

/-- The statements of the grant code and of the init leave the indexes in range. -/
theorem ApplyStmt.exec_wf (c : ApplyStmt) {x : ApplyCtx}
    (h : x.ring.WF msbcDecoderConfig.bufferSize) :
    (c.exec x).1.ring.WF msbcDecoderConfig.bufferSize := by
  have hpos : 0 < msbcDecoderConfig.bufferSize := by decide
  cases c with
  | clearInputIndex => exact ⟨hpos, h.out_lt⟩
  | clearOutputIndex => exact ⟨h.inp_lt, hpos⟩
  | _ => exact h

/-- A frame is shorter than the ring. -/
theorem lt_bufferSize_of_lt {n : Nat} (h : n < ipcLengthLimit) :
    n < msbcDecoderConfig.bufferSize := by
  have hlimit : ipcLengthLimit < msbcDecoderConfig.bufferSize := by decide
  omega

/-- A frame goes into the ring. -/
theorem DecoderInput.ring_recvFrame (d : DecoderConfig) (buffer : List UInt8) (r : DecoderInput) :
    (r.recvFrame d buffer).ring = r.ring.recv d.bufferSize buffer := by
  obtain ⟨state, tasks, -, heq⟩ := r.recvFrame_eq d buffer
  rw [heq]

/-- So does an interrupt. -/
theorem MsbcDecoder.Regular.isr {i : MsbcDecoderIsr} {s' : MsbcDecoder} (hs : s.Regular uiSize)
    (hisr : msbcDecoderIsr s i = some s') : s'.Regular uiSize := by
  cases i with
  | prepareForNext =>
      cases hisr
      exact ⟨hs.ring, hs.codec, hs.size⟩
  | recvFrame buffer =>
      simp only [msbcDecoderIsr] at hisr
      split at hisr
      · next hframe =>
          cases hisr
          refine ⟨?_, hs.codec, hs.size⟩
          rw [DecoderInput.ring_recvFrame]
          exact hs.ring.recv_of_lt (lt_bufferSize_of_lt hframe.2)
      · cases hisr

/-- So does a statement. -/
theorem MsbcDecoder.Regular.exec (hs : s.Regular uiSize) (c : MsbcDecoderStmt)
    (a : MsbcDecoderAnswer) : (c.exec uiSize a s).state.Regular uiSize := by
  cases c with
  | switchState =>
      simp only [MsbcDecoderStmt.exec]
      split <;> exact hs
  | ifBuffered =>
      simp only [MsbcDecoderStmt.exec]
      split <;> exact hs
  | engineInit =>
      have hle : s.codec.buffSize ≤ uiSize := hs.codec.buff_le.trans hs.size
      exact ⟨hs.ring, ⟨hs.codec.consumed_le, hle, uiSize.isLt⟩, Nat.le_refl _⟩
  | engineStart =>
      obtain ⟨c, hc, heq⟩ := msbcDecoderEngineStart_eq hs a.initDone a.consume
      have hcall := hs.callCodec hc a.consume
      simp only [MsbcDecoderStmt.exec, heq]
      exact ⟨hcall.ring, hcall.codec, hcall.size⟩
  | ifStarted =>
      simp only [MsbcDecoderStmt.exec]
      split <;> try split
      all_goals exact ⟨hs.ring, hs.codec, hs.size⟩
  | engineDecode =>
      by_cases hdrained : s.Drained
      · simp only [MsbcDecoderStmt.exec, msbcDecoderEngineDecode_drained hs hdrained]
        exact hs
      · obtain ⟨c, hc, heq⟩ := msbcDecoderEngineDecode_eq hs hdrained a.consume
        have hcall := hs.callCodec hc a.consume
        simp only [MsbcDecoderStmt.exec, heq]
        exact ⟨hcall.ring, hcall.codec, hcall.size⟩
  | apply leftSpace applyUnit code =>
      cases code with
      | nil => exact hs
      | cons c cs => exact ⟨c.exec_wf hs.ring, hs.codec, hs.size⟩
  | clearInitDone =>
      exact ⟨hs.ring, ⟨hs.codec.consumed_le, hs.codec.buff_le, hs.codec.size_lt⟩, hs.size⟩
  | allocBuffer => exact ⟨⟨hs.ring.inp_lt, hs.ring.out_lt⟩, hs.codec, hs.size⟩
  | _ => exact ⟨hs.ring, hs.codec, hs.size⟩

/-- The variables fit each other after every run. -/
theorem regular_run {t t' : MsbcDecoderSched} {es : List MsbcDecoderEvent}
    (hs : t.state.Regular uiSize) (hrun : run (msbcDecoderStep uiSize) t es = some t') :
    t'.state.Regular uiSize := by
  refine run_inv (I := fun t => t.state.Regular uiSize) ?_ hs hrun
  rintro ⟨code, queue, s⟩ e t' hs hstep
  obtain rfl : queue = [] := List.eq_nil_iff_forall_not_mem.mpr fun m _ => m.elim
  obtain ⟨p, -, -, rfl⟩ | ⟨c, cs, a, -, -, rfl⟩ | ⟨i, s', -, hisr, rfl⟩ :=
    msbcDecoderStep_cases hstep
  · exact hs
  · exact hs.exec c a
  · exact hs.isr hisr

/-- The state at power-up is regular. -/
theorem regular_start (uiSize : Fin (2 ^ 31)) :
    MsbcDecoderSched.start.state.Regular uiSize := by
  refine ⟨⟨?_, ?_⟩, ⟨Nat.le_refl _, Nat.le_refl _, ?_⟩, Nat.zero_le _⟩ <;> decide

end

end Fr5080
