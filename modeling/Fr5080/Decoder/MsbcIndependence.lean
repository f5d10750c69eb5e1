import Fr5080.Decoder.MsbcSession

/-!
# Fr5080.Decoder.MsbcIndependence

What a session of the mSBC decoder depends on.  `i_buff_size` and
`i_bytes_consumed` are reset neither by `msbc_decoder_destroy` nor by
`msbc_decoder_init` nor by `msbc_decoder_engine_init`, so a session that ends
with bytes left in the staging buffer makes the next one begin with as many
bytes of its own new buffer, which nobody has written.

`Coupled` relates two runs of a session that are fed with the same events; when
nothing was left, they stay coupled (`Coupled.step`).  When something was, a
single call of the codec shows it (`leak`).
-/

namespace Fr5080

open Embedded

/-! ## what independence means -/

/-- The same event; what is in new memory is not part of it. -/
def SameEvent : MsbcDecoderEvent → MsbcDecoderEvent → Prop
  | .call p, .call p' => p = p'
  | .stmt a, .stmt a' =>
      a.initDone = a'.initDone ∧ a.consume = a'.consume ∧ a.channel = a'.channel
  | .interrupt i, .interrupt i' => i = i'
  | _, _ => False

/-- The bytes presented to the codec, call by call, and the grants sent. -/
def MsbcDecoderSched.outputs (t : MsbcDecoderSched) : List (List UInt8) × List Nat :=
  (t.state.codec.calls.map CodecCall.input, t.state.grants)

/-- A session started from `s` puts out what it puts out after power-up. -/
def Independent (uiSize : Fin (2 ^ 31)) (s : MsbcDecoder) : Prop :=
  ∀ mem mem' es es', (∀ e ∈ es, InSession e) → List.Forall₂ SameEvent es es' →
    (run (msbcDecoderStep uiSize) ⟨[], [], s⟩ (newSession mem ++ es)).map
        MsbcDecoderSched.outputs =
      (run (msbcDecoderStep uiSize) .start (newSession mem' ++ es')).map MsbcDecoderSched.outputs

/-- The first bytes presented are the first ones received, as long as the ring
has not been filled. -/
def FirstBytes (uiSize : Fin (2 ^ 31)) (s : MsbcDecoder) : Prop :=
  ∀ mem es t, (∀ e ∈ es, InSession e) →
    run (msbcDecoderStep uiSize) ⟨[], [], s⟩ (newSession mem ++ es) = some t →
    t.state.received.length < msbcDecoderConfig.bufferSize →
    ∀ call ∈ t.state.codec.calls.head?, call.input <+: t.state.received

/-! ## two runs of a session -/

/-- The input variables agree, up to where in the ring the bytes are. -/
structure SameInput (r r' : DecoderInput) : Prop where
  unread : r.ring.contents msbcDecoderConfig.bufferSize =
    r'.ring.contents msbcDecoderConfig.bufferSize
  totalInput : r.totalInput = r'.totalInput
  dynamicConsumed : r.dynamicConsumed = r'.dynamicConsumed
  allRequestDataReceived : r.allRequestDataReceived = r'.allRequestDataReceived
  requestDataSize : r.requestDataSize = r'.requestDataSize
  prepForNext : r.prepForNext = r'.prepForNext
  state : r.state = r'.state

/-- The staging buffers agree as far as they are used.  Before the first call they are empty;
`i_bytes_consumed` agrees from then on. -/
structure SameCodec (c c' : CodecInput) : Prop where
  staged : c.staged = c'.staged
  consumed : c.consumed = c'.consumed
  calls : c.calls = c'.calls
  fresh : c.calls = [] → c.staged = []
  bytesConsumed : c.calls ≠ [] → c.bytesConsumed = c'.bytesConsumed

/-- Two runs at the same point of a session. -/
structure Coupled (code : List MsbcDecoderStmt) (s s' : MsbcDecoder) : Prop where
  input : SameInput s.input s'.input
  codec : SameCodec s.codec s'.codec
  uiInitDone : s.uiInitDone = s'.uiInitDone
  grants : s.grants = s'.grants
  ignore : code = [.setDecoding] ∨ s.input.state = .decoding →
    s.ignoreFirstConsumed = s'.ignoreFirstConsumed

variable {uiSize : Fin (2 ^ 31)} {code rest : List MsbcDecoderStmt} {s s' : MsbcDecoder}
  {r r' : DecoderInput}

theorem SameInput.used (h : SameInput r r') :
    r.ring.used msbcDecoderConfig.bufferSize = r'.ring.used msbcDecoderConfig.bufferSize := by
  rw [← RingBuffer.length_contents, ← RingBuffer.length_contents, h.unread]

theorem SameInput.recvFrame (h : SameInput r r') {buffer : List UInt8}
    (hr : r.ring.WF msbcDecoderConfig.bufferSize) (hr' : r'.ring.WF msbcDecoderConfig.bufferSize)
    (hlen : buffer.length < ipcLengthLimit) :
    SameInput (r.recvFrame msbcDecoderConfig buffer) (r'.recvFrame msbcDecoderConfig buffer) := by
  have hunread := RingBuffer.contents_recv_congr hr hr' h.unread (lt_bufferSize_of_lt hlen)
  simp only [DecoderInput.recvFrame, DecoderInput.countFrame_eq, ← h.totalInput, ← h.state,
    ← h.requestDataSize, ← h.allRequestDataReceived]
  split
  · exact ⟨hunread, rfl, h.dynamicConsumed, rfl, rfl, h.prepForNext, rfl⟩
  · exact ⟨hunread, rfl, h.dynamicConsumed, rfl, rfl, h.prepForNext, rfl⟩

/-- A statement of the grant code does the same in both runs. -/
theorem SameInput.exec (h : SameInput r r') {c : ApplyStmt} (hc : c.grants = true) (l u : Nat) :
    SameInput (c.exec ⟨r, l, u⟩).1.toDecoderInput (c.exec ⟨r', l, u⟩).1.toDecoderInput ∧
      (c.exec ⟨r, l, u⟩).1.leftSpace = (c.exec ⟨r', l, u⟩).1.leftSpace ∧
      (c.exec ⟨r, l, u⟩).1.applyUnit = (c.exec ⟨r', l, u⟩).1.applyUnit ∧
      (c.exec ⟨r, l, u⟩).2 = (c.exec ⟨r', l, u⟩).2 ∧ c.sent ⟨r, l, u⟩ = c.sent ⟨r', l, u⟩ := by
  obtain ⟨hunread, htotal, hdynamic, hall, hrequest, hprep, hstate⟩ := id h
  have hused := h.used
  cases c with
  | clearInputIndex => cases hc
  | clearOutputIndex => cases hc
  | setIdle => cases hc
  | readLeftSpace bufferSize =>
      obtain rfl : bufferSize = msbcDecoderConfig.bufferSize := by
        simpa [ApplyStmt.grants] using hc
      exact ⟨h, hused, rfl, rfl, rfl⟩
  | _ =>
      refine ⟨?_, ?_⟩
      · constructor <;> simp_all [ApplyStmt.exec]
      · simp_all [ApplyStmt.exec, ApplyStmt.sent]

/-! ## the codec -/

/-- Staging buffers with the same input for the codec. -/
theorem SameCodec.process {c c' : CodecInput} (hinput : slice c.inpBuf 0 c.buffSize =
      slice c'.inpBuf 0 c'.buffSize) (hconsumed : c.consumed = c'.consumed)
    (hcalls : c.calls = c'.calls) (consume : Consumption) :
    SameCodec (c.process consume) (c'.process consume) := by
  have hsize : c.buffSize = c'.buffSize := by simpa using congrArg List.length hinput
  have hanswer : (consume c'.buffSize).val = consume c.buffSize := by rw [hsize]
  have hle : (consume c.buffSize).val ≤ c.buffSize :=
    Nat.lt_succ_iff.mp (consume c.buffSize).isLt
  have htake : slice c.inpBuf 0 (consume c.buffSize) = slice c'.inpBuf 0 (consume c.buffSize) := by
    rw [← take_slice _ _ _ _ hle, ← take_slice c'.inpBuf 0 c'.buffSize _ (hsize ▸ hle), hinput]
  have hdrop : slice c.inpBuf (consume c.buffSize) (c.buffSize - consume c.buffSize) =
      slice c'.inpBuf (consume c.buffSize) (c.buffSize - consume c.buffSize) := by
    have hleft := drop_slice c.inpBuf 0 _ _ hle
    have hright := drop_slice c'.inpBuf 0 c.buffSize _ hle
    rw [Nat.zero_add] at hleft hright
    rw [← hleft, ← hright, hinput, hsize]
  refine ⟨?_, ?_, ?_, fun hnil => ?_, fun _ => ?_⟩
  · simpa [CodecInput.staged, CodecInput.process, ← hsize, hanswer] using hdrop
  · simp [CodecInput.process, hanswer, hconsumed, htake]
  · simp [CodecInput.process, hconsumed, hcalls, hinput]
  · simp [CodecInput.process] at hnil
  · simp [CodecInput.process, hanswer]

theorem Coupled.readable (h : Coupled code s s') (hsize : s.codec.inpSize = s'.codec.inpSize) :
    s.readable = s'.readable := by
  have hunread : s.unread = s'.unread := h.input.unread
  rw [s.readable_eq, s'.readable_eq, hsize, h.codec.staged, hunread]

/-- The codec is called in both runs. -/
theorem Coupled.callCodec {c c' : CodecInput} (h : Coupled code s s')
    (hs : s.Regular uiSize) (hs' : s'.Regular uiSize)
    (hsize : s.codec.inpSize = s'.codec.inpSize) (hc : s.Refilled c) (hc' : s'.Refilled c')
    (consume : Consumption) :
    SameInput (s.callCodec c consume).input (s'.callCodec c' consume).input ∧
      SameCodec (s.callCodec c consume).codec (s'.callCodec c' consume).codec := by
  have hread := h.readable hsize
  have hunread : s.unread = s'.unread := h.input.unread
  constructor
  · refine ⟨?_, h.input.totalInput, h.input.dynamicConsumed, h.input.allRequestDataReceived,
      h.input.requestDataSize, h.input.prepForNext, h.input.state⟩
    have hleft := RingBuffer.contents_advance hs.ring (s.codec.readable_le _ s.input.ring)
    have hright := RingBuffer.contents_advance hs'.ring (s'.codec.readable_le _ s'.input.ring)
    exact hleft.trans ((congrArg₂ List.drop hread h.input.unread).trans hright.symm)
  · refine SameCodec.process ?_ ?_ ?_ consume
    · rw [hc.input, hc'.input, h.codec.staged, hunread, hread]
    · rw [hc.consumed, hc'.consumed, h.codec.consumed]
    · rw [hc.calls, hc'.calls, h.codec.calls]

/-! ## one step -/

/-- Where the code goes on without `state = DECODING`. -/
theorem Coupled.goto (h : Coupled code s s') {code' : List MsbcDecoderStmt}
    (hcode : code' ≠ [.setDecoding]) : Coupled code' s s' :=
  ⟨h.input, h.codec, h.uiInitDone, h.grants, fun hdec =>
    h.ignore (.inr (hdec.resolve_left hcode))⟩

/-- An assignment of the state. -/
theorem Coupled.setState (h : Coupled code s s') (state : DecoderState)
    (hstate : state = .decoding → s.ignoreFirstConsumed = s'.ignoreFirstConsumed)
    {code' : List MsbcDecoderStmt} (hcode : code' ≠ [.setDecoding]) :
    Coupled code' (s.setState state) (s'.setState state) :=
  ⟨⟨h.input.unread, h.input.totalInput, h.input.dynamicConsumed, h.input.allRequestDataReceived,
    h.input.requestDataSize, h.input.prepForNext, rfl⟩, h.codec, h.uiInitDone, h.grants,
    fun hdec => hstate (hdec.resolve_left hcode)⟩

theorem Coupled.isr {i : MsbcDecoderIsr} {s1 : MsbcDecoder} (h : Coupled code s s')
    (hs : SessionAt uiSize code s) (hs' : SessionAt uiSize code s')
    (hisr : msbcDecoderIsr s i = some s1) :
    ∃ s1', msbcDecoderIsr s' i = some s1' ∧ Coupled code s1 s1' := by
  cases i with
  | prepareForNext =>
      cases hisr
      exact ⟨_, rfl, ⟨h.input.unread, h.input.totalInput, h.input.dynamicConsumed,
        h.input.allRequestDataReceived, h.input.requestDataSize, rfl, h.input.state⟩, h.codec,
        h.uiInitDone, h.grants, h.ignore⟩
  | recvFrame buffer =>
      obtain ⟨state, tasks, hmove, heq⟩ := s.input.recvFrame_eq msbcDecoderConfig buffer
      have hkeep : (s.input.recvFrame msbcDecoderConfig buffer).state = .decoding →
          s.input.state = .decoding := by
        rw [heq]
        grind
      simp only [msbcDecoderIsr, hs.buffer, hs'.buffer, true_and] at hisr ⊢
      split at hisr
      · next hlen =>
          cases hisr
          refine ⟨_, if_pos hlen, h.input.recvFrame hs.regular.ring hs'.regular.ring hlen,
            h.codec, h.uiInitDone, h.grants, fun hdec => h.ignore (hdec.imp_right hkeep)⟩
      · cases hisr

/-- The codec has been called in both runs, by either engine function. -/
theorem Coupled.called {s1 s1' : MsbcDecoder} {c c' : CodecInput} {consume : Consumption}
    (hin : SameInput (s.callCodec c consume).input (s'.callCodec c' consume).input)
    (hco : SameCodec (s.callCodec c consume).codec (s'.callCodec c' consume).codec)
    (hs1 : s1.input = (s.callCodec c consume).input ∧ s1.codec = (s.callCodec c consume).codec)
    (hs1' : s1'.input = (s'.callCodec c' consume).input ∧
      s1'.codec = (s'.callCodec c' consume).codec)
    (hdone : s1.uiInitDone = s1'.uiInitDone) (hgrants : s1.grants = s1'.grants)
    (hignore : s1.input.state = .decoding → s1.ignoreFirstConsumed = s1'.ignoreFirstConsumed)
    (channel : Bool) (rest : List MsbcDecoderStmt) :
    s1'.applyStmt channel :: rest = s1.applyStmt channel :: rest ∧
      Coupled (s1.applyStmt channel :: rest) s1 s1' := by
  rw [← hs1.1, ← hs1'.1] at hin
  rw [← hs1.2, ← hs1'.2] at hco
  have hcalls : s1.codec.calls ≠ [] := by
    rw [hs1.2]
    simp [MsbcDecoder.callCodec, CodecInput.process]
  refine ⟨?_, hin, hco, hdone, hgrants, fun hdec => hignore (hdec.resolve_left ?_)⟩
  · rw [MsbcDecoder.applyStmt, MsbcDecoder.applyStmt, hco.bytesConsumed hcalls]
  · simp [MsbcDecoder.applyStmt]

/-- A new input buffer, when nothing is staged. -/
theorem SameCodec.engineInit (h : SameCodec s.codec s'.codec) (hcalls : s.codec.calls = [])
    (mem mem' : Nat → UInt8) :
    SameCodec (msbcDecoderEngineInit uiSize mem s).codec
      (msbcDecoderEngineInit uiSize mem' s').codec := by
  have hnil : s.codec.staged = [] := h.fresh hcalls
  have hnil' : s'.codec.staged = [] := h.staged ▸ hnil
  have hnew : (msbcDecoderEngineInit uiSize mem s).codec.staged = [] := by
    apply List.eq_nil_of_length_eq_zero
    simpa [msbcDecoderEngineInit] using congrArg List.length hnil
  have hnew' : (msbcDecoderEngineInit uiSize mem' s').codec.staged = [] := by
    apply List.eq_nil_of_length_eq_zero
    simpa [msbcDecoderEngineInit] using congrArg List.length hnil'
  exact ⟨hnew.trans hnew'.symm, h.consumed, h.calls, fun _ => hnew, h.bytesConsumed⟩

/-- A statement goes on to the same code in both runs, and they stay coupled. -/
def StayCoupled (rest : List MsbcDecoderStmt) (r r' : Effect MsbcDecoderStmt Empty MsbcDecoder) :
    Prop :=
  r'.code rest = r.code rest ∧ Coupled (r.code rest) r.state r'.state

/-- The answers agree, up to what is in new memory. -/
def SameAnswer (a a' : MsbcDecoderAnswer) : Prop :=
  a.initDone = a'.initDone ∧ a.consume = a'.consume ∧ a.channel = a'.channel

section Exec

variable {a a' : MsbcDecoderAnswer}

theorem Coupled.engineStart (h : Coupled [.engineStart, .ifStarted] s s')
    (hs : s.Regular uiSize) (hs' : s'.Regular uiSize)
    (hsize : s.codec.inpSize = s'.codec.inpSize) (ha : SameAnswer a a') :
    StayCoupled [.ifStarted] (MsbcDecoderStmt.engineStart.exec uiSize a s)
      (MsbcDecoderStmt.engineStart.exec uiSize a' s') := by
  obtain ⟨hinit, hconsume, hchannel⟩ := ha
  obtain ⟨c, hc, heq⟩ := msbcDecoderEngineStart_eq hs a.initDone a.consume
  obtain ⟨c', hc', heq'⟩ := msbcDecoderEngineStart_eq hs' a.initDone a.consume
  obtain ⟨hin, hco⟩ := h.callCodec hs hs' hsize hc hc' a.consume
  simp only [MsbcDecoderStmt.exec, ← hinit, ← hconsume, ← hchannel, heq, heq']
  refine Coupled.called hin hco ?_ ?_ ?_ ?_ ?_ a.channel [.ifStarted]
  · exact ⟨rfl, rfl⟩
  · exact ⟨rfl, rfl⟩
  · simp [h.uiInitDone]
  · exact h.grants
  · exact fun hdec => h.ignore (.inr hdec)

/-- Behind `engine_start`, where `msbc_ignore_first_consumed` is set. -/
theorem Coupled.ifStarted (h : Coupled [.ifStarted] s s')
    (hstate : s.input.state ≠ .decoding) (hcalls : s.codec.calls ≠ []) :
    StayCoupled [] (MsbcDecoderStmt.ifStarted.exec uiSize a s)
      (MsbcDecoderStmt.ifStarted.exec uiSize a' s') := by
  have hignore : s.uiInitDone % 256 = 1 →
      s.setIgnore.ignoreFirstConsumed = s'.setIgnore.ignoreFirstConsumed := by
    intro hone
    have hne : s.uiInitDone ≠ 0 := by omega
    simp [MsbcDecoder.setIgnore, ← h.uiInitDone, hne, h.codec.bytesConsumed hcalls]
  have hdone : s'.setIgnore.uiInitDone = s.setIgnore.uiInitDone := h.uiInitDone.symm
  have hprep : s'.setIgnore.input.prepForNext = s.setIgnore.input.prepForNext :=
    h.input.prepForNext.symm
  simp only [MsbcDecoderStmt.exec, hdone, hprep]
  split
  · next hone => exact ⟨rfl, h.input, h.codec, h.uiInitDone, h.grants, fun _ => hignore hone⟩
  · split
    · refine ⟨rfl, ⟨h.input.unread, h.input.totalInput, h.input.dynamicConsumed,
        h.input.allRequestDataReceived, h.input.requestDataSize, rfl, h.input.state⟩, h.codec,
        rfl, h.grants, ?_⟩
      exact fun hdec => absurd (hdec.resolve_left (by simp [Effect.code, Effect.goOn])) hstate
    · refine ⟨rfl, h.input, h.codec, h.uiInitDone, h.grants, ?_⟩
      exact fun hdec => absurd (hdec.resolve_left (by simp [Effect.code, Effect.goOn])) hstate

/-- The early return is taken in both runs or in none. -/
theorem Coupled.engineDecode (h : Coupled [.engineDecode] s s')
    (hs : s.Regular uiSize) (hs' : s'.Regular uiSize)
    (hsize : s.codec.inpSize = s'.codec.inpSize) (hstate : s.input.state = .decoding)
    (hcalls : s.codec.calls ≠ []) (ha : SameAnswer a a') :
    StayCoupled [] (MsbcDecoderStmt.engineDecode.exec uiSize a s)
      (MsbcDecoderStmt.engineDecode.exec uiSize a' s') := by
  obtain ⟨-, hconsume, hchannel⟩ := ha
  have hignore := h.ignore (.inr hstate)
  have hdrains : s.Drained ↔ s'.Drained := by
    simp only [MsbcDecoder.Drained, hignore, h.codec.bytesConsumed hcalls, h.readable hsize]
  by_cases hdrained : s.Drained
  · simp only [MsbcDecoderStmt.exec, msbcDecoderEngineDecode_drained hs hdrained,
      msbcDecoderEngineDecode_drained hs' (hdrains.mp hdrained)]
    exact ⟨rfl, h.goto (by simp [Effect.code, Effect.goOn])⟩
  · obtain ⟨c, hc, heq⟩ := msbcDecoderEngineDecode_eq hs hdrained a.consume
    obtain ⟨c', hc', heq'⟩ := msbcDecoderEngineDecode_eq hs'
      (fun hd => hdrained (hdrains.mpr hd)) a.consume
    obtain ⟨hin, hco⟩ := h.callCodec hs hs' hsize hc hc' a.consume
    simp only [MsbcDecoderStmt.exec, ← hconsume, ← hchannel, heq, heq']
    refine Coupled.called hin hco ?_ ?_ ?_ ?_ ?_ a.channel []
    · exact ⟨rfl, rfl⟩
    · exact ⟨rfl, rfl⟩
    · exact h.uiInitDone
    · exact h.grants
    · exact fun _ => rfl

/-- A statement of the grant code. -/
theorem Coupled.apply {leftSpace applyUnit : Nat} {c : ApplyStmt} {cs : List ApplyStmt}
    (h : Coupled (.apply leftSpace applyUnit (c :: cs) :: rest) s s') (hc : c.grants = true)
    (hrest : rest ≠ [.setDecoding]) :
    StayCoupled rest ((MsbcDecoderStmt.apply leftSpace applyUnit (c :: cs)).exec uiSize a s)
      ((MsbcDecoderStmt.apply leftSpace applyUnit (c :: cs)).exec uiSize a' s') := by
  obtain ⟨hin, hleft, hunit, hgo, hsent⟩ := h.input.exec hc leftSpace applyUnit
  have hkeep := c.exec_state hc ⟨s.input, leftSpace, applyUnit⟩
  simp only [MsbcDecoderStmt.exec, ← hleft, ← hunit, ← hgo, ← hsent, ← h.grants]
  refine ⟨rfl, hin, h.codec, h.uiInitDone, rfl, fun hdec => h.ignore (.inr ?_)⟩
  rw [← hkeep]
  refine hdec.resolve_left ?_
  split <;> simp [Effect.code, hrest]

theorem Coupled.exec {c : MsbcDecoderStmt} (h : Coupled (c :: rest) s s')
    (hs : SessionAt uiSize (c :: rest) s) (hs' : SessionAt uiSize (c :: rest) s')
    (ha : SameAnswer a a') : StayCoupled rest (c.exec uiSize a s) (c.exec uiSize a' s') := by
  have hpoint := hs.point
  cases c with
  | switchState =>
      obtain ⟨rfl, -⟩ := hpoint
      simp only [MsbcDecoderStmt.exec, ← h.input.state]
      split <;> exact ⟨rfl, h.goto (by simp [Effect.code, Effect.goOn, msbcIdleCase,
        msbcBufferingCase, msbcInitiatingCase, msbcDecodingCase])⟩
  | setBuffering =>
      obtain ⟨rfl, -⟩ := hpoint
      exact ⟨rfl, h.setState .buffering (by simp)
        (by simp [Effect.code, MsbcDecoderStmt.exec, msbcBufferingCase])⟩
  | ifBuffered =>
      obtain ⟨rfl, -⟩ := hpoint
      simp only [MsbcDecoderStmt.exec, ← h.input.totalInput]
      split <;> exact ⟨rfl, h.goto (by simp [Effect.code, Effect.goOn])⟩
  | engineInit =>
      obtain ⟨rfl, -, hcalls⟩ := hpoint
      exact ⟨rfl, h.input, h.codec.engineInit hcalls a.mem a'.mem, h.uiInitDone, h.grants,
        fun hdec => h.ignore (.inr (hdec.resolve_left (by
          simp [Effect.code, Effect.goOn, MsbcDecoderStmt.exec])))⟩
  | setInitiating =>
      obtain ⟨rfl, -⟩ := hpoint
      exact ⟨rfl, h.setState .initiating (by simp)
        (by simp [Effect.code, MsbcDecoderStmt.exec, msbcInitiatingCase])⟩
  | engineStart =>
      obtain ⟨rfl, -, hsize⟩ := hpoint
      obtain ⟨-, -, hsize'⟩ := hs'.point
      exact h.engineStart hs.regular hs'.regular (hsize.trans hsize'.symm) ha
  | ifStarted =>
      obtain ⟨rfl, hstate, -, hcalls⟩ := hpoint
      exact h.ifStarted (by simp [hstate]) hcalls
  | setDecoding =>
      obtain ⟨rfl, -⟩ := hpoint
      exact ⟨rfl, h.setState .decoding (fun _ => h.ignore (.inl rfl))
        (by simp [Effect.code, MsbcDecoderStmt.exec, msbcDecodingCase])⟩
  | engineDecode =>
      obtain ⟨rfl, hstate, hsize, hcalls⟩ := hpoint
      obtain ⟨-, -, hsize', -⟩ := hs'.point
      exact h.engineDecode hs.regular hs'.regular (hsize.trans hsize'.symm) hstate hcalls ha
  | apply leftSpace applyUnit cs =>
      obtain ⟨hcs, hrest, -⟩ := hpoint
      have hnot : rest ≠ [.setDecoding] := by
        obtain ⟨rfl, -⟩ | ⟨rfl, -⟩ := hrest <;> simp
      cases cs with
      | nil => exact ⟨rfl, h.goto hnot⟩
      | cons c cs => exact h.apply (grants_of_suffix hcs List.mem_cons_self) hnot
  | clearInitDone => exact hpoint.elim
  | allocBuffer => exact hpoint.elim
  | destroy => exact hpoint.elim

end Exec

/-! ## runs -/

theorem SameInput.symm (h : SameInput r r') : SameInput r' r :=
  ⟨h.unread.symm, h.totalInput.symm, h.dynamicConsumed.symm, h.allRequestDataReceived.symm,
    h.requestDataSize.symm, h.prepForNext.symm, h.state.symm⟩

theorem SameCodec.symm {c c' : CodecInput} (h : SameCodec c c') : SameCodec c' c :=
  ⟨h.staged.symm, h.consumed.symm, h.calls.symm,
    fun hnil => h.staged.symm.trans (h.fresh (h.calls.trans hnil)),
    fun hne => (h.bytesConsumed fun hnil => hne (h.calls.symm.trans hnil)).symm⟩

theorem Coupled.symm (h : Coupled code s s') : Coupled code s' s :=
  ⟨h.input.symm, h.codec.symm, h.uiInitDone.symm, h.grants.symm,
    fun hdec => (h.ignore (hdec.imp_right h.input.state.trans)).symm⟩

theorem SameEvent.symm {e e' : MsbcDecoderEvent} (h : SameEvent e e') : SameEvent e' e := by
  cases e <;> cases e' <;> simp_all [SameEvent]

theorem SameEvent.inSession {e e' : MsbcDecoderEvent} (h : SameEvent e e') (he : InSession e) :
    InSession e' := by
  cases e <;> cases e' <;> simp_all [SameEvent, InSession]

/-- Two runs of a session at the same point. -/
structure CoupledRuns (uiSize : Fin (2 ^ 31)) (t t' : MsbcDecoderSched) : Prop where
  left : t.queue = [] ∧ SessionAt uiSize t.code t.state
  right : t'.queue = [] ∧ SessionAt uiSize t'.code t'.state
  code : t'.code = t.code
  coupled : Coupled t.code t.state t'.state

theorem CoupledRuns.symm {t t' : MsbcDecoderSched} (h : CoupledRuns uiSize t t') :
    CoupledRuns uiSize t' t :=
  ⟨h.right, h.left, h.code.symm, h.code ▸ h.coupled.symm⟩

/-- **Lock step**: what one of the runs can do, the other one can, and they stay coupled. -/
theorem CoupledRuns.step {t t' t1 : MsbcDecoderSched} {e e' : MsbcDecoderEvent}
    (h : CoupledRuns uiSize t t') (he : InSession e ∧ SameEvent e e')
    (hstep : msbcDecoderStep uiSize t e = some t1) :
    ∃ t1', msbcDecoderStep uiSize t' e' = some t1' ∧ CoupledRuns uiSize t1 t1' := by
  obtain ⟨hsession, hsame⟩ := he
  obtain ⟨⟨hqueue, hs⟩, ⟨hqueue', hs'⟩, hcode, hcoupled⟩ := h
  obtain ⟨code, queue, s⟩ := t
  obtain ⟨code', queue', s'⟩ := t'
  obtain rfl : queue = [] := hqueue
  obtain rfl : queue' = [] := hqueue'
  obtain rfl : code' = code := hcode
  have hleft := hs.step hsession hstep
  have hnext : ∃ t1', msbcDecoderStep uiSize ⟨code', [], s'⟩ e' = some t1' ∧
      t1'.code = t1.code ∧ Coupled t1.code t1.state t1'.state := by
    obtain ⟨rfl, rfl, rfl⟩ | ⟨c, cs, a, rfl, rfl, rfl⟩ | ⟨i, s1, rfl, hisr, rfl⟩ :=
      session_step_cases hsession hstep
    · obtain ⟨p⟩ | _ | _ | _ := e' <;> try cases hsame
      exact ⟨_, rfl, rfl, hcoupled.goto (by simp)⟩
    · cases e' with
      | stmt a' =>
          obtain ⟨hnext, hstate⟩ := hcoupled.exec hs hs' hsame
          exact ⟨_, rfl, hnext, hstate⟩
      | _ => cases hsame
    · cases e' with
      | interrupt i' =>
          obtain rfl : i = i' := hsame
          obtain ⟨s1', hisr', hstate⟩ := hcoupled.isr hs hs' hisr
          refine ⟨⟨code', [], s1'⟩, ?_, rfl, hstate⟩
          simp [msbcDecoderStep, schedStep, hisr']
      | _ => cases hsame
  obtain ⟨t1', hstep', hcode', hstate⟩ := hnext
  exact ⟨t1', hstep', hleft, hs'.step (hsame.inSession hsession) hstep', hcode', hstate⟩

theorem coupledRuns_outputs {t t' : MsbcDecoderSched} (h : CoupledRuns uiSize t t') :
    t.outputs = t'.outputs := by
  simp only [MsbcDecoderSched.outputs, h.coupled.codec.calls, h.coupled.grants]

/-- Coupled runs that are fed with the same events put out the same, if anything. -/
theorem CoupledRuns.run {t t' : MsbcDecoderSched} {es es' : List MsbcDecoderEvent}
    (h : CoupledRuns uiSize t t') (hes : ∀ e ∈ es, InSession e)
    (hsame : List.Forall₂ SameEvent es es') :
    (run (msbcDecoderStep uiSize) t es).map MsbcDecoderSched.outputs =
      (run (msbcDecoderStep uiSize) t' es').map MsbcDecoderSched.outputs := by
  have hforth : List.Forall₂ (fun e e' => InSession e ∧ SameEvent e e') es es' := by
    induction hsame with
    | nil => exact .nil
    | cons he _ ih =>
        exact .cons ⟨hes _ List.mem_cons_self, he⟩
          (ih fun e hmem => hes e (List.mem_cons_of_mem _ hmem))
  have hback : List.Forall₂ (fun e e' => InSession e ∧ SameEvent e e') es' es :=
    hforth.flip.imp fun e e' ⟨hin, hsame⟩ => ⟨hsame.inSession hin, hsame.symm⟩
  have hall : ∀ t (es : List MsbcDecoderEvent),
      Along (msbcDecoderStep uiSize) (fun _ _ => True) t es := fun t es =>
    along_of_forall (P := fun _ => True) (I := fun _ => True) (fun _ _ _ _ _ _ => trivial)
      (fun _ _ _ _ => trivial) trivial fun _ _ => trivial
  cases hrun : Embedded.run (msbcDecoderStep uiSize) t es with
  | some t1 =>
      obtain ⟨t1', hrun', h1⟩ := run_sim (C := fun _ _ => True)
        (fun _ _ _ _ _ hR hE _ hstep => hR.step hE hstep) h hforth (hall t' es') hrun
      rw [hrun', Option.map_some, Option.map_some, coupledRuns_outputs h1]
  | none =>
      cases hrun' : Embedded.run (msbcDecoderStep uiSize) t' es' with
      | none => rfl
      | some t1' =>
          obtain ⟨t1, hrun1, -⟩ := run_sim (C := fun _ _ => True)
            (fun _ _ _ _ _ hR hE _ hstep => hR.step hE hstep) h.symm hback (hall t es) hrun'
          rw [hrun] at hrun1
          cases hrun1

/-! ## sessions started with nothing left -/

/-- Two new sessions are coupled when neither has bytes left from before. -/
theorem coupled_fresh (h : s.codec.buffSize = s.codec.bytesConsumed)
    (h' : s'.codec.buffSize = s'.codec.bytesConsumed) (mem mem' : Nat → UInt8) :
    Coupled [] (s.fresh mem) (s'.fresh mem') := by
  have hnil : ∀ {s : MsbcDecoder} (mem), s.codec.buffSize = s.codec.bytesConsumed →
      (s.fresh mem).codec.staged = [] := by
    intro s mem hleft
    apply List.eq_nil_of_length_eq_zero
    simp [MsbcDecoder.fresh, hleft]
  refine ⟨⟨rfl, rfl, rfl, rfl, rfl, rfl, rfl⟩, ?_, rfl, rfl, fun hdec => ?_⟩
  · exact ⟨(hnil mem h).trans (hnil mem' h').symm, rfl, rfl, fun _ => hnil mem h,
      fun hne => absurd rfl hne⟩
  · simp [MsbcDecoder.fresh] at hdec

theorem independent_of_nothing_left (hs : s.Regular uiSize)
    (h : s.codec.buffSize = s.codec.bytesConsumed) : Independent uiSize s := by
  intro mem mem' es es' hes hsame
  have hstart : run (msbcDecoderStep uiSize) .start (newSession mem' ++ es') =
      run (msbcDecoderStep uiSize) ⟨[], [], MsbcDecoder.zeroed.fresh mem'⟩ es' :=
    run_session mem'
  rw [run_session, hstart]
  refine CoupledRuns.run ⟨⟨rfl, sessionAt_fresh hs mem⟩,
    ⟨rfl, sessionAt_fresh (regular_start uiSize) mem'⟩, rfl, ?_⟩ hes hsame
  exact coupled_fresh h rfl mem mem'

/-! ## the first bytes -/

/-- As long as the ring has not been filled, the codec has either not been called and
nothing has been read, or its first input was the first bytes received. -/
def FirstIn (s : MsbcDecoder) : Prop :=
  s.received.length < msbcDecoderConfig.bufferSize →
    s.codec.calls = [] ∧ s.codec.staged = [] ∧ s.unread = s.received ∨
      ∃ call, s.codec.calls.head? = some call ∧ call.input <+: s.received

/-- The call of the codec. -/
theorem FirstIn.callCodec {c : CodecInput} (h : FirstIn s) (hc : s.Refilled c)
    (consume : Consumption) : FirstIn (s.callCodec c consume) := by
  intro hlen
  have hcalls : (s.callCodec c consume).codec.calls =
      s.codec.calls ++ [⟨s.codec.consumed, s.codec.staged ++ s.unread.take s.readable⟩] := by
    simp [MsbcDecoder.callCodec, CodecInput.process, hc.calls, hc.consumed, hc.input]
  obtain ⟨hnil, hstaged, hunread⟩ | ⟨call, hhead, hprefix⟩ := h hlen
  · refine .inr ⟨_, by rw [hcalls, hnil]; rfl, ?_⟩
    rw [hstaged, hunread]
    exact List.take_prefix _ _
  · exact .inr ⟨call, by simp [hcalls, hhead], hprefix⟩

/-- What the first bytes depend on is left alone. -/
theorem FirstIn.congr (h : FirstIn s) (hring : s'.input.ring = s.input.ring)
    (hcodec : s'.codec = s.codec) (hreceived : s'.received = s.received) : FirstIn s' := by
  simp only [FirstIn, MsbcDecoder.unread, hring, hcodec, hreceived] at h ⊢
  exact h

theorem FirstIn.exec {c : MsbcDecoderStmt} (h : FirstIn s)
    (hs : SessionAt uiSize (c :: rest) s) (a : MsbcDecoderAnswer) :
    FirstIn (c.exec uiSize a s).state := by
  have hpoint := hs.point
  cases c with
  | switchState =>
      simp only [MsbcDecoderStmt.exec]
      split <;> exact h
  | ifBuffered =>
      simp only [MsbcDecoderStmt.exec]
      split <;> exact h
  | engineInit =>
      obtain ⟨-, -, hcalls⟩ := hpoint
      intro hlen
      obtain ⟨-, hstaged, hunread⟩ | ⟨call, hhead, -⟩ := h hlen
      · refine .inl ⟨hcalls, ?_, hunread⟩
        apply List.eq_nil_of_length_eq_zero
        simpa [msbcDecoderEngineInit, MsbcDecoderStmt.exec, Effect.goOn] using
          congrArg List.length hstaged
      · simp [hcalls] at hhead
  | engineStart =>
      obtain ⟨c, hc, heq⟩ := msbcDecoderEngineStart_eq hs.regular a.initDone a.consume
      simp only [MsbcDecoderStmt.exec, heq]
      exact (h.callCodec hc a.consume).congr rfl rfl rfl
  | ifStarted =>
      simp only [MsbcDecoderStmt.exec]
      split <;> try split
      all_goals exact h.congr rfl rfl rfl
  | engineDecode =>
      by_cases hdrained : s.Drained
      · simp only [MsbcDecoderStmt.exec, msbcDecoderEngineDecode_drained hs.regular hdrained]
        exact h
      · obtain ⟨c, hc, heq⟩ := msbcDecoderEngineDecode_eq hs.regular hdrained a.consume
        simp only [MsbcDecoderStmt.exec, heq]
        exact (h.callCodec hc a.consume).congr rfl rfl rfl
  | apply leftSpace applyUnit cs =>
      cases cs with
      | nil => exact h
      | cons c cs =>
          have hring := c.exec_ring (grants_of_suffix hpoint.1 List.mem_cons_self)
            ⟨s.input, leftSpace, applyUnit⟩
          exact h.congr hring rfl rfl
  | clearInitDone => exact hpoint.elim
  | allocBuffer => exact hpoint.elim
  | _ => exact h.congr rfl rfl rfl

/-- A frame. -/
theorem FirstIn.isr {i : MsbcDecoderIsr} (h : FirstIn s) (hs : s.Regular uiSize)
    (hisr : msbcDecoderIsr s i = some s') : FirstIn s' := by
  cases i with
  | prepareForNext =>
      cases hisr
      exact h.congr rfl rfl rfl
  | recvFrame buffer =>
      simp only [msbcDecoderIsr] at hisr
      split at hisr
      · cases hisr
        intro hlen
        rw [List.length_append] at hlen
        obtain ⟨hcalls, hstaged, hunread⟩ | ⟨call, hhead, hprefix⟩ := h (by omega)
        · refine .inl ⟨hcalls, hstaged, ?_⟩
          have hused : s.input.ring.used msbcDecoderConfig.bufferSize = s.received.length := by
            rw [← s.length_unread, hunread]
          have hfits : s.input.ring.used msbcDecoderConfig.bufferSize + buffer.length <
            msbcDecoderConfig.bufferSize := by omega
          rw [MsbcDecoder.unread, DecoderInput.ring_recvFrame,
            RingBuffer.contents_recv hs.ring hfits]
          exact congrArg (· ++ buffer) hunread
        · exact .inr ⟨call, hhead, hprefix.trans (List.prefix_append _ _)⟩
      · cases hisr

theorem firstBytes_of_nothing_left (hs : s.Regular uiSize)
    (h : s.codec.buffSize = s.codec.bytesConsumed) : FirstBytes uiSize s := by
  intro mem es t hes hrun hlen call hcall
  rw [run_session] at hrun
  have hfresh : FirstIn (s.fresh mem) := by
    refine fun _ => .inl ⟨rfl, ?_, rfl⟩
    apply List.eq_nil_of_length_eq_zero
    simp [MsbcDecoder.fresh, h]
  have hinv := run_inv_of_forall (P := InSession)
    (I := fun t => (t.queue = [] ∧ SessionAt uiSize t.code t.state) ∧ FirstIn t.state)
    ?_ ⟨⟨rfl, sessionAt_fresh hs mem⟩, hfresh⟩ hes hrun
  · obtain ⟨hnil, -⟩ | ⟨call', hhead, hprefix⟩ := hinv.2 hlen
    · simp [hnil] at hcall
    · obtain rfl : call' = call := Option.some.inj (hhead.symm.trans hcall)
      exact hprefix
  · rintro ⟨code, queue, s⟩ e t' ⟨⟨hqueue, hs⟩, hfirst⟩ he hstep
    obtain rfl : queue = [] := hqueue
    refine ⟨hs.step he hstep, ?_⟩
    obtain ⟨-, -, rfl⟩ | ⟨c, cs, a, -, rfl, rfl⟩ | ⟨i, s', -, hisr, rfl⟩ :=
      session_step_cases he hstep
    · exact hfirst
    · exact hfirst.exec hs a
    · exact hfirst.isr hs.regular hisr

/-! ## the leak -/

/-- As many bytes as the decoder waits for, all of them 1. -/
def startFrame : List UInt8 := List.replicate 912 1

/-- The frame arrives, and the handler calls the codec for the first time; new memory is zero. -/
def firstCall : List MsbcDecoderEvent :=
  .interrupt (.recvFrame startFrame) :: .call .doDecoderHandler ::
    List.replicate 5 (.stmt (.quiet fun _ => 0))

/-- A frame of 912 bytes starts the decoder. -/
theorem fresh_recvFrame (hs : s.Regular uiSize) (mem : Nat → UInt8) (buffer : List UInt8)
    (hlen : buffer.length = 912) : ∃ s1,
    msbcDecoderIsr (s.fresh mem) (.recvFrame buffer) = some s1 ∧
      s1.input.state = .buffering ∧ s1.input.totalInput = 912 ∧ s1.codec = (s.fresh mem).codec ∧
      s1.unread = buffer := by
  have hlimit : msbcDecoderConfig.bufferingLimit = 912 := rfl
  have hunread : ((s.fresh mem).input.ring.recv msbcDecoderConfig.bufferSize buffer).contents
      msbcDecoderConfig.bufferSize = buffer := by
    have hcap : msbcDecoderConfig.bufferSize = 3648 := rfl
    have hused : (s.fresh mem).input.ring.used msbcDecoderConfig.bufferSize = 0 := rfl
    have hnil : (s.fresh mem).input.ring.contents msbcDecoderConfig.bufferSize = [] := rfl
    rw [RingBuffer.contents_recv (sessionAt_fresh hs mem).regular.ring (by omega), hnil,
      List.nil_append]
  have hframe : (s.fresh mem).buffer = true ∧ buffer.length < ipcLengthLimit := by
    rw [hlen]
    exact ⟨rfl, by decide⟩
  refine ⟨_, if_pos hframe, ?_, ?_, rfl, ?_⟩
  · simp [DecoderInput.recvFrame, DecoderInput.countFrame_eq, MsbcDecoder.fresh, hlen, hlimit]
  · simp [DecoderInput.recvFrame, DecoderInput.countFrame_eq, MsbcDecoder.fresh, hlen, hlimit]
  · rw [MsbcDecoder.unread, DecoderInput.ring_recvFrame, hunread]

/-- The handler starts the engine when there are enough data. -/
theorem run_opening (uiSize : Fin (2 ^ 31)) (hstate : s.input.state = .buffering)
    (hlimit : msbcDecoderConfig.bufferingLimit ≤ s.input.totalInput) (a : MsbcDecoderAnswer) :
    run (msbcDecoderStep uiSize) ⟨[], [], s⟩ (.call .doDecoderHandler ::
      List.replicate 4 (.stmt a)) = some ⟨msbcInitiatingCase, [],
        (msbcDecoderEngineInit uiSize a.mem s).setState .initiating⟩ := by
  simp [run, msbcDecoderStep, schedStep, msbcDecoderCode, MsbcDecoderStmt.exec, Effect.code,
    Effect.goOn, hstate, hlimit, msbcBufferingCase, List.replicate]

/-- The first input is as many bytes of the new buffer as the last session has left, and the
received ones behind them. -/
theorem run_firstCall (hs : s.Regular uiSize) (mem : Nat → UInt8) : ∃ t n,
    run (msbcDecoderStep uiSize) ⟨[], [], s.fresh mem⟩ firstCall = some t ∧
      t.outputs.1 = [List.replicate (s.codec.buffSize - s.codec.bytesConsumed) 0 ++
        startFrame.take n] := by
  obtain ⟨s1, hisr, hstate, htotal, hcodec, hunread⟩ := fresh_recvFrame hs mem
    startFrame List.length_replicate
  have hlimit : msbcDecoderConfig.bufferingLimit ≤ s1.input.totalInput := by
    rw [htotal]
    decide
  have hopen := run_opening uiSize hstate hlimit (.quiet fun _ => 0)
  have hregular : ((msbcDecoderEngineInit uiSize (fun _ => 0) s1).setState .initiating).Regular
      uiSize := regular_run (t := ⟨[], [], s1⟩) ((sessionAt_fresh hs mem).regular.isr hisr) hopen
  obtain ⟨c, hc, heq⟩ := msbcDecoderEngineStart_eq hregular (some 1) (consumeUpTo 0)
  have hcalls : c.calls = [] := by
    rw [hc.calls]
    exact congrArg CodecInput.calls hcodec
  have hstaged :
      ((msbcDecoderEngineInit uiSize (fun _ => 0) s1).setState .initiating).codec.staged =
      List.replicate (s.codec.buffSize - s.codec.bytesConsumed) 0 := by
    simp [CodecInput.staged, MsbcDecoder.setState, msbcDecoderEngineInit, hcodec,
      MsbcDecoder.fresh, slice]
  have hunread2 : ((msbcDecoderEngineInit uiSize (fun _ => 0) s1).setState .initiating).unread =
      startFrame := hunread
  have hinput := hc.input
  rw [hstaged, hunread2] at hinput
  refine ⟨_, ((msbcDecoderEngineInit uiSize (fun _ => 0) s1).setState .initiating).readable,
    run_cons_eq_some.mpr ⟨⟨[], [], s1⟩, ?_, run_append_eq_some.mpr ⟨_, hopen, rfl⟩⟩, ?_⟩
  · simp [msbcDecoderStep, schedStep, hisr]
  · simp only [MsbcDecoderStmt.exec, MsbcDecoderAnswer.quiet, heq]
    simp [MsbcDecoderSched.outputs, MsbcDecoder.callCodec, CodecInput.process, hcalls, hinput]

theorem firstCall_inSession : ∀ e ∈ firstCall, InSession e := by
  simp [firstCall, InSession]

theorem firstCall_same : List.Forall₂ SameEvent firstCall firstCall := by
  refine List.forall₂_same.mpr ?_
  simp [firstCall, SameEvent]

/-- A single call shows how many bytes were left. -/
theorem nothing_left_of_independent (hs : s.Regular uiSize) (h : Independent uiSize s) :
    s.codec.buffSize = s.codec.bytesConsumed := by
  obtain ⟨t, n, hrun, hout⟩ := run_firstCall hs fun _ => 0
  obtain ⟨t', n', hrun', hout'⟩ := run_firstCall (regular_start uiSize) fun _ => 0
  have hstart : run (msbcDecoderStep uiSize) .start (newSession (fun _ => 0) ++ firstCall) =
      some t' := (run_session fun _ => 0).trans hrun'
  have hsame := h (fun _ => 0) (fun _ => 0) _ _ firstCall_inSession firstCall_same
  rw [run_session, hrun, hstart] at hsame
  have hinput : List.replicate (s.codec.buffSize - s.codec.bytesConsumed) 0 ++
      startFrame.take n = startFrame.take n' := by
    have hfst := congrArg Prod.fst (Option.some.inj hsame)
    rw [hout, hout'] at hfst
    exact List.head_eq_of_cons_eq hfst
  -- the frame has no byte that is 0
  have hzero : (0 : UInt8) ∉ startFrame.take n' := fun hmem => by
    have hone := List.eq_of_mem_replicate (List.mem_of_mem_take hmem)
    exact absurd hone (by decide)
  rw [← hinput, List.mem_append, List.mem_replicate] at hzero
  have hle := hs.codec.consumed_le
  grind

/-! ## the result -/

/-- **Independent sessions**: after any history, a new session goes as it would after
power-up, and the first bytes presented to the codec are the first ones received,
exactly when the codec had consumed everything that was staged. -/
theorem sessions_independent_iff (uiSize : Fin (2 ^ 31)) {es : List MsbcDecoderEvent}
    {t : MsbcDecoderSched} (hrun : run (msbcDecoderStep uiSize) .start es = some t) :
    Independent uiSize t.state ∧ FirstBytes uiSize t.state ↔
      t.state.codec.buffSize = t.state.codec.bytesConsumed := by
  have hs := regular_run (regular_start uiSize) hrun
  constructor
  · exact fun h => nothing_left_of_independent hs h.1
  · exact fun h => ⟨independent_of_nothing_left hs h, firstBytes_of_nothing_left hs h⟩

/-- A first session in which the codec consumes up to `n` bytes of every call. -/
def consumingSession (n : Nat) : List MsbcDecoderEvent :=
  newSession (fun _ => 0) ++ .interrupt (.recvFrame startFrame) :: .call .doDecoderHandler ::
    List.replicate 12 (.stmt { MsbcDecoderAnswer.quiet (fun _ => 0) with consume := consumeUpTo n })

/-- What the next session depends on. -/
def MsbcDecoderSched.leftView (t : MsbcDecoderSched) : Nat × Nat × Nat :=
  (t.code.length, t.state.codec.buffSize, t.state.codec.bytesConsumed)

/-- With a codec that consumes whatever it is given. -/
theorem sessions_independent_iff_consumed : ∃ t,
    run (msbcDecoderStep 57) .start (consumingSession 57) = some t ∧ t.code = [] ∧
      Independent 57 t.state ∧ FirstBytes 57 t.state := by
  have hview : (run (msbcDecoderStep 57) .start (consumingSession 57)).map
      MsbcDecoderSched.leftView = some (0, 57, 57) := by
    decide +kernel
  obtain ⟨t, hrun, ht⟩ := Option.map_eq_some_iff.mp hview
  simp only [MsbcDecoderSched.leftView, Prod.mk.injEq, List.length_eq_zero_iff] at ht
  exact ⟨t, hrun, ht.1, (sessions_independent_iff 57 hrun).mpr (ht.2.1.trans ht.2.2.symm)⟩

/-- **The leak**: the codec consumes nothing of its first 57 bytes, and the session is ended. -/
theorem old_bytes_presented : ¬ ∀ (es : List MsbcDecoderEvent) (t : MsbcDecoderSched),
    run (msbcDecoderStep 57) .start es = some t → t.code = [] →
      Independent 57 t.state ∧ FirstBytes 57 t.state := by
  intro hclaim
  have hview : (run (msbcDecoderStep 57) .start (consumingSession 0)).map
      MsbcDecoderSched.leftView = some (0, 57, 0) := by
    decide +kernel
  obtain ⟨t, hrun, ht⟩ := Option.map_eq_some_iff.mp hview
  simp only [MsbcDecoderSched.leftView, Prod.mk.injEq, List.length_eq_zero_iff] at ht
  have hleft := nothing_left_of_independent (regular_run (regular_start 57) hrun)
    (hclaim _ t hrun ht.1).1
  omega

end Fr5080
