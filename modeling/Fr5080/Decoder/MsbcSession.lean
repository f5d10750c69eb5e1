import Fr5080.Decoder.Msbc

/-!
# Fr5080.Decoder.MsbcSession

The course of a session of the mSBC decoder: `msbc_decoder_destroy` ends the
session before it, `msbc_decoder_init` starts it, and then frames arrive and
the task calls `msbc_decoder_do_decoder_handler`.

`MsbcAt` says for every point of the task's code what the state of the decoder is
there and how far the engine has come; `SessionAt` holds throughout a
session (`sessionAt_run`), whatever the state was that it was started from.
-/

namespace Fr5080

open Embedded

/-! ## the points of a session -/

/-- The engine has not been initialised. -/
def MsbcDecoder.Waiting (s : MsbcDecoder) : Prop :=
  (s.input.state = .idle ∨ s.input.state = .buffering) ∧ s.codec.calls = []

/-- The engine has been initialised, and the codec has been called. -/
def MsbcDecoder.Called (uiSize : Fin (2 ^ 31)) (s : MsbcDecoder) : Prop :=
  s.codec.inpSize = uiSize ∧ s.codec.calls ≠ []

/-- What the state is between two calls of the handler. -/
def MsbcDecoder.Settled (uiSize : Fin (2 ^ 31)) (s : MsbcDecoder) : Prop :=
  s.Waiting ∨ (s.input.state = .initiating ∨ s.input.state = .decoding) ∧ s.Called uiSize

/-- The points of a session: for the code still to be executed, the state there. -/
def MsbcAt (uiSize : Fin (2 ^ 31)) (s : MsbcDecoder) : List MsbcDecoderStmt → Prop
  | [] => s.Settled uiSize
  | .switchState :: rest => rest = [] ∧ s.Settled uiSize
  | .setBuffering :: rest | .ifBuffered :: rest => rest = [] ∧ s.Waiting
  | .engineInit :: rest => rest = [.setInitiating] ∧ s.Waiting
  | .setInitiating :: rest =>
      rest = [] ∧ (s.input.state = .idle ∨ s.input.state = .buffering) ∧ s.codec.inpSize = uiSize
  | .engineStart :: rest =>
      rest = [.ifStarted] ∧ s.input.state = .initiating ∧ s.codec.inpSize = uiSize
  | .ifStarted :: rest | .setDecoding :: rest =>
      rest = [] ∧ s.input.state = .initiating ∧ s.Called uiSize
  | .engineDecode :: rest => rest = [] ∧ s.input.state = .decoding ∧ s.Called uiSize
  | .apply _ _ cs :: rest =>
      (∃ bytesConsumed channel, cs <:+ msbcDecoderApplyCode bytesConsumed channel) ∧
        (rest = [.ifStarted] ∧ s.input.state = .initiating ∨
          rest = [] ∧ s.input.state = .decoding) ∧ s.Called uiSize
  | .clearInitDone :: _ | .allocBuffer :: _ | .destroy :: _ => False

/-- What holds throughout a session. -/
structure SessionAt (uiSize : Fin (2 ^ 31)) (code : List MsbcDecoderStmt) (s : MsbcDecoder) :
    Prop where
  regular : s.Regular uiSize
  buffer : s.buffer = true
  point : MsbcAt uiSize s code

variable {uiSize : Fin (2 ^ 31)} {code rest : List MsbcDecoderStmt} {s s' : MsbcDecoder}

/-! ## every step keeps it -/

/-- The grant code reads the ring of the decoder but does not touch its indexes, and it does not
assign the state. -/
def ApplyStmt.grants : ApplyStmt → Bool
  | .clearInputIndex | .clearOutputIndex | .setIdle => false
  | .readLeftSpace bufferSize => bufferSize = msbcDecoderConfig.bufferSize
  | _ => true

/-- The code behind a request is the grant code. -/
theorem grants_of_suffix {cs : List ApplyStmt} {c : ApplyStmt}
    (h : ∃ bytesConsumed channel, cs <:+ msbcDecoderApplyCode bytesConsumed channel)
    (hc : c ∈ cs) : c.grants = true := by
  obtain ⟨bytesConsumed, channel, hsuffix⟩ := h
  have hmem := hsuffix.subset hc
  simp only [msbcDecoderApplyCode, List.mem_cons, List.not_mem_nil, or_false] at hmem
  obtain rfl | rfl | rfl | rfl | rfl | rfl | rfl | rfl | rfl | rfl := hmem <;> rfl

/-- The grant code does not change the state of the decoder. -/
theorem ApplyStmt.exec_state {c : ApplyStmt} (hc : c.grants = true) (x : ApplyCtx) :
    (c.exec x).1.state = x.state := by
  cases c <;> simp_all [ApplyStmt.exec, ApplyStmt.grants]

/-- The grant code does not change the ring. -/
theorem ApplyStmt.exec_ring {c : ApplyStmt} (hc : c.grants = true) (x : ApplyCtx) :
    (c.exec x).1.ring = x.ring := by
  cases c <;> simp_all [ApplyStmt.exec, ApplyStmt.grants]

/-- A frame moves the state from IDLE to BUFFERING at most. -/
theorem MsbcAt.isr {i : MsbcDecoderIsr} (h : MsbcAt uiSize s code)
    (hisr : msbcDecoderIsr s i = some s') : MsbcAt uiSize s' code := by
  have hcodec : s'.codec = s.codec := by
    simp only [msbcDecoderIsr] at hisr
    grind
  have hstate : s'.input.state = s.input.state ∨
      s.input.state = .idle ∧ s'.input.state = .buffering := by
    cases i with
    | prepareForNext => cases hisr; exact .inl rfl
    | recvFrame buffer =>
        obtain ⟨state, tasks, hmove, heq⟩ := s.input.recvFrame_eq msbcDecoderConfig buffer
        simp only [msbcDecoderIsr, heq] at hisr
        split at hisr
        · cases hisr; exact hmove
        · cases hisr
  unfold MsbcAt at h ⊢
  simp only [MsbcDecoder.Settled, MsbcDecoder.Waiting, MsbcDecoder.Called, hcodec] at h ⊢
  grind

/-- What the codec's variables are after a call. -/
theorem MsbcDecoder.Refilled.called {c : CodecInput} (hc : s.Refilled c)
    (hsize : s.codec.inpSize = uiSize) (consume : Consumption) :
    (c.process consume).inpSize = uiSize ∧ (c.process consume).calls ≠ [] :=
  ⟨hc.inpSize.trans hsize, by simp [CodecInput.process]⟩

/-- One statement goes on to the next point. -/
theorem MsbcAt.exec {c : MsbcDecoderStmt} (hs : s.Regular uiSize)
    (h : MsbcAt uiSize s (c :: rest)) (a : MsbcDecoderAnswer) :
    MsbcAt uiSize (c.exec uiSize a s).state ((c.exec uiSize a s).code rest) := by
  cases c with
  | switchState =>
      obtain ⟨rfl, hsettled⟩ := h
      simp only [MsbcDecoderStmt.exec]
      have hpoint := hsettled
      obtain ⟨hstate, hcalls⟩ | ⟨hstate, hcalled⟩ := hsettled <;> split <;>
        simp_all [Effect.code, MsbcAt, msbcIdleCase, msbcBufferingCase, msbcInitiatingCase,
          msbcDecodingCase, MsbcDecoder.Waiting, MsbcDecoder.Called]
  | setBuffering =>
      obtain ⟨rfl, -, hcalls⟩ := h
      exact ⟨rfl, .inr rfl, hcalls⟩
  | ifBuffered =>
      obtain ⟨rfl, hwaiting⟩ := h
      simp only [MsbcDecoderStmt.exec]
      split
      · exact ⟨rfl, hwaiting⟩
      · exact .inl hwaiting
  | engineInit =>
      obtain ⟨rfl, hstate, -⟩ := h
      exact ⟨rfl, hstate, rfl⟩
  | setInitiating =>
      obtain ⟨rfl, -, hsize⟩ := h
      exact ⟨rfl, rfl, hsize⟩
  | engineStart =>
      obtain ⟨rfl, hstate, hsize⟩ := h
      obtain ⟨c, hc, heq⟩ := msbcDecoderEngineStart_eq hs a.initDone a.consume
      simp only [MsbcDecoderStmt.exec, heq]
      exact ⟨⟨_, _, List.suffix_rfl⟩, .inl ⟨rfl, hstate⟩, hc.called hsize a.consume⟩
  | ifStarted =>
      obtain ⟨rfl, hstate, hcalled⟩ := h
      simp only [MsbcDecoderStmt.exec]
      split
      · exact ⟨rfl, hstate, hcalled⟩
      · split <;> exact .inr ⟨.inl hstate, hcalled⟩
  | setDecoding =>
      obtain ⟨rfl, -, hcalled⟩ := h
      exact ⟨rfl, rfl, hcalled⟩
  | engineDecode =>
      obtain ⟨rfl, hstate, hcalled⟩ := h
      by_cases hdrained : s.Drained
      · simp only [MsbcDecoderStmt.exec, msbcDecoderEngineDecode_drained hs hdrained]
        exact .inr ⟨.inr hstate, hcalled⟩
      · obtain ⟨c, hc, heq⟩ := msbcDecoderEngineDecode_eq hs hdrained a.consume
        simp only [MsbcDecoderStmt.exec, heq]
        exact ⟨⟨_, _, List.suffix_rfl⟩, .inr ⟨rfl, hstate⟩, hc.called hcalled.1 a.consume⟩
  | apply leftSpace applyUnit cs =>
      obtain ⟨hcs, hrest, hcalled⟩ := h
      have hdone : MsbcAt uiSize s rest := by
        obtain ⟨rfl, hstate⟩ | ⟨rfl, hstate⟩ := hrest
        · exact ⟨rfl, hstate, hcalled⟩
        · exact .inr ⟨.inr hstate, hcalled⟩
      cases cs with
      | nil => exact hdone
      | cons c cs =>
          have hstate := c.exec_state (grants_of_suffix hcs List.mem_cons_self)
            ⟨s.input, leftSpace, applyUnit⟩
          obtain ⟨bytesConsumed, channel, hsuffix⟩ := hcs
          have htail : cs <:+ msbcDecoderApplyCode bytesConsumed channel :=
            (List.suffix_cons c cs).trans hsuffix
          simp only [MsbcDecoderStmt.exec]
          split
          · refine ⟨⟨_, _, htail⟩, ?_, hcalled⟩
            simpa [hstate] using hrest
          · obtain ⟨rfl, hinit⟩ | ⟨rfl, hdec⟩ := hrest
            · exact ⟨rfl, hstate.trans hinit, hcalled⟩
            · exact .inr ⟨.inr (hstate.trans hdec), hcalled⟩
  | clearInitDone => exact h.elim
  | allocBuffer => exact h.elim
  | destroy => exact h.elim

/-- An interrupt does not move the buffer. -/
theorem msbcDecoderIsr_buffer {i : MsbcDecoderIsr} (h : msbcDecoderIsr s i = some s') :
    s'.buffer = s.buffer := by
  simp only [msbcDecoderIsr] at h
  grind

/-- Only init and destroy concern the buffer. -/
theorem MsbcAt.exec_buffer {c : MsbcDecoderStmt} (h : MsbcAt uiSize s (c :: rest))
    (a : MsbcDecoderAnswer) : (c.exec uiSize a s).state.buffer = s.buffer := by
  cases c with
  | clearInitDone => exact h.elim
  | allocBuffer => exact h.elim
  | destroy => exact h.elim
  | engineDecode =>
      simp only [MsbcDecoderStmt.exec, msbcDecoderEngineDecode]
      split <;> split <;> rfl
  | apply leftSpace applyUnit cs => cases cs <;> rfl
  | switchState =>
      simp only [MsbcDecoderStmt.exec]
      split <;> rfl
  | ifBuffered =>
      simp only [MsbcDecoderStmt.exec]
      split <;> rfl
  | ifStarted =>
      simp only [MsbcDecoderStmt.exec]
      split <;> try split
      all_goals rfl
  | _ => rfl

/-- A statement stays in the session. -/
theorem SessionAt.exec {c : MsbcDecoderStmt} (h : SessionAt uiSize (c :: rest) s)
    (a : MsbcDecoderAnswer) :
    SessionAt uiSize ((c.exec uiSize a s).code rest) (c.exec uiSize a s).state where
  regular := h.regular.exec c a
  buffer := (h.point.exec_buffer a).trans h.buffer
  point := h.point.exec h.regular a

/-- An interrupt does not end the session. -/
theorem SessionAt.isr {i : MsbcDecoderIsr} (h : SessionAt uiSize code s)
    (hisr : msbcDecoderIsr s i = some s') : SessionAt uiSize code s' where
  regular := h.regular.isr hisr
  buffer := (msbcDecoderIsr_buffer hisr).trans h.buffer
  point := h.point.isr hisr

/-- What a step of a session can do. -/
theorem session_step_cases {e : MsbcDecoderEvent} {t' : MsbcDecoderSched} (he : InSession e)
    (h : msbcDecoderStep uiSize ⟨code, [], s⟩ e = some t') :
    (e = .call .doDecoderHandler ∧ code = [] ∧ t' = ⟨[.switchState], [], s⟩) ∨
      (∃ c cs a, e = .stmt a ∧ code = c :: cs ∧
        t' = ⟨(c.exec uiSize a s).code cs, [], (c.exec uiSize a s).state⟩) ∨
      ∃ i s', e = .interrupt i ∧ msbcDecoderIsr s i = some s' ∧ t' = ⟨code, [], s'⟩ := by
  obtain ⟨p, rfl, rfl, rfl⟩ | hstmt | hisr := msbcDecoderStep_cases h
  · obtain rfl : p = .doDecoderHandler := he
    exact .inl ⟨rfl, rfl, rfl⟩
  · exact .inr (.inl hstmt)
  · exact .inr (.inr hisr)

/-- Each event of a session stays in it. -/
theorem SessionAt.step {e : MsbcDecoderEvent} {t' : MsbcDecoderSched}
    (h : SessionAt uiSize code s) (he : InSession e)
    (hstep : msbcDecoderStep uiSize ⟨code, [], s⟩ e = some t') :
    t'.queue = [] ∧ SessionAt uiSize t'.code t'.state := by
  obtain ⟨-, rfl, rfl⟩ | ⟨c, cs, a, -, rfl, rfl⟩ | ⟨i, s', -, hisr, rfl⟩ :=
    session_step_cases he hstep
  · exact ⟨rfl, h.regular, h.buffer, rfl, h.point⟩
  · exact ⟨rfl, h.exec a⟩
  · exact ⟨rfl, h.isr hisr⟩

/-! ## a new session -/

/-- Every statement is answered without an error; new memory contains `mem`. -/
def MsbcDecoderAnswer.quiet (mem : Nat → UInt8) : MsbcDecoderAnswer where
  mem := mem
  initDone := some 1
  consume := consumeUpTo 0
  channel := true

/-- `msbc_decoder_destroy` and `msbc_decoder_init` are called, the latter gets a channel, and no
frame arrives meanwhile. -/
def newSession (mem : Nat → UInt8) : List MsbcDecoderEvent :=
  .call .destroy :: .stmt (.quiet mem) :: .call (.init true) ::
    List.replicate 14 (.stmt (.quiet mem))

/-- The state that a session starts from. -/
def MsbcDecoder.fresh (mem : Nat → UInt8) (s : MsbcDecoder) : MsbcDecoder where
  input := { s.input with
    ring := ⟨mem, 0, 0⟩
    totalInput := 0
    dynamicConsumed := 0
    allRequestDataReceived := false
    requestDataSize := 31 * msbcSingleFrameSize
    prepForNext := false
    state := .idle
    grant := 31 * msbcSingleFrameSize
    since := 0 }
  codec := { s.codec with consumed := [], calls := [] }
  uiInitDone := 0
  ignoreFirstConsumed := s.ignoreFirstConsumed
  buffer := true
  received := []
  grants := [31]

/-- The first grant of `msbc_decoder.c`. -/
theorem msbc_initGrant : msbcDecoderConfig.initApplyUnit * msbcDecoderConfig.unitSize % 2 ^ 32 =
    31 * msbcSingleFrameSize := by decide

/-- A destroy and an init start a session afresh. -/
theorem run_newSession (uiSize : Fin (2 ^ 31)) (mem : Nat → UInt8) (s : MsbcDecoder) :
    run (msbcDecoderStep uiSize) ⟨[], [], s⟩ (newSession mem) =
      some ⟨[], [], s.fresh mem⟩ := by
  simp only [MsbcDecoder.fresh, ← msbc_initGrant]
  rfl

/-- A fresh session. -/
theorem sessionAt_fresh (h : s.Regular uiSize) (mem : Nat → UInt8) :
    SessionAt uiSize [] (s.fresh mem) where
  regular := regular_run (t := ⟨[], [], s⟩) h (run_newSession uiSize mem s)
  buffer := rfl
  point := .inl ⟨.inl rfl, rfl⟩

/-- The run of a session, behind its init. -/
theorem run_session {es : List MsbcDecoderEvent} (mem : Nat → UInt8) :
    run (msbcDecoderStep uiSize) ⟨[], [], s⟩ (newSession mem ++ es) =
      run (msbcDecoderStep uiSize) ⟨[], [], s.fresh mem⟩ es := by
  have hrun : ∀ t, run (msbcDecoderStep uiSize) ⟨[], [], s⟩ (newSession mem ++ es) = some t ↔
      run (msbcDecoderStep uiSize) ⟨[], [], s.fresh mem⟩ es = some t := by
    intro t
    rw [run_append_eq_some, run_newSession]
    simp
  exact Option.ext hrun

/-- Whatever the state was before, a session goes its course. -/
theorem sessionAt_run {es : List MsbcDecoderEvent} {t : MsbcDecoderSched}
    (h : SessionAt uiSize [] s) (hes : ∀ e ∈ es, InSession e)
    (hrun : run (msbcDecoderStep uiSize) ⟨[], [], s⟩ es = some t) :
    t.queue = [] ∧ SessionAt uiSize t.code t.state := by
  refine run_inv_of_forall (P := InSession)
    (I := fun t => t.queue = [] ∧ SessionAt uiSize t.code t.state) ?_ ⟨rfl, h⟩ hes hrun
  rintro ⟨code, queue, s⟩ e t' ⟨hqueue, h⟩ he hstep
  obtain rfl : queue = [] := hqueue
  exact h.step he hstep

end Fr5080
