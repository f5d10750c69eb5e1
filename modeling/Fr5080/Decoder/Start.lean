import Fr5080.Decoder.Session

/-!
# Fr5080.Decoder.Start

The start of decoding.  `mp3_decoder_recv_frame` inserts
`MP3_DECODER_DO_DECODE` when the idle decoder has 2048 bytes, and goes to
BUFFERING with it; its handler starts the engine.

The handler also leaves the state BUFFERING behind when it finds fewer than
2048 bytes, and a frame inserts nothing in that state.  So a message that is
left over from before `mp3_decoder_init` stops the next session: no further frame
starts the decoder (`start_lost`).

`startNotLost_step` says which steps keep the start, exactly; from it
`start_not_lost_iff` for runs.
-/

namespace Fr5080

open Embedded

/-- The statements of `mp3_decoder_do_decoder_handler` up to the one where it leaves IDLE and
BUFFERING. -/
def SessionStmt.decides : SessionStmt → Bool
  | .switchState | .setBuffering | .ifBuffered | .setInitiating => true
  | _ => false

/-- An `MP3_DECODER_DO_DECODE` is in the queue, or its handler has been entered and has not
yet decided whether to start. -/
def DecodePending (t : SessionSched) : Prop :=
  .mp3DecoderDoDecode ∈ t.queue ∨ t.code.any SessionStmt.decides

/-- When the task is idle, this is the queue alone. -/
theorem decodePending_idle {t : SessionSched} (h : t.code = []) :
    DecodePending t ↔ .mp3DecoderDoDecode ∈ t.queue := by
  simp [DecodePending, h]

/-- There are enough data to start, and the decoder has not been started. -/
def Mp3Session.Startable (s : Mp3Session) : Prop :=
  mp3DecoderConfig.bufferingLimit ≤ s.dec.totalInput ∧
    (s.dec.state = .idle ∨ s.dec.state = .buffering)

/-- From the first `mp3_decoder_init` on, a decoder that can be started will be. -/
def StartNotLost (t : SessionSched) : Prop :=
  t.state.initRan = true → t.state.Startable → DecodePending t

/-- The next statement is `state = IDLE`, of `mp3_decoder_init` or of a
`mp3_decoder_destroy` after it. -/
def ResetsNext (t : SessionSched) : Bool :=
  match t.code with
  | .initInput c :: _ => c.resetsState
  | .destroyInput c :: _ => c.resetsState && t.state.initRan
  | _ => false

/-- Without an `MP3_DECODER_DO_DECODE` pending, no frame reaches the limit in the state
BUFFERING, and the state is not set to IDLE with the limit reached. -/
def KeepsStart (t : SessionSched) : SessionEvent → Prop
  | .interrupt (.rawFrame buffer) =>
      t.state.initRan = true ∧ t.state.dec.state = .buffering ∧
        mp3DecoderConfig.bufferingLimit ≤ (t.state.dec.totalInput + buffer.length) % 2 ^ 32 →
      DecodePending t
  | .stmt _ =>
      ResetsNext t = true ∧ mp3DecoderConfig.bufferingLimit ≤ t.state.dec.totalInput →
      DecodePending t
  | _ => True

instance (t : SessionSched) : Decidable (DecodePending t) :=
  inferInstanceAs (Decidable (_ ∨ _))

instance (t : SessionSched) (e : SessionEvent) : Decidable (KeepsStart t e) :=
  match e with
  | .interrupt (.rawFrame _) => inferInstanceAs (Decidable (_ ∧ _ ∧ _ → _))
  | .interrupt .decoderStart => .isTrue trivial
  | .interrupt .needMoreSbc => .isTrue trivial
  | .interrupt .decoderPrepNext => .isTrue trivial
  | .stmt _ => inferInstanceAs (Decidable (_ ∧ _ → _))
  | .call p => p.elim
  | .dispatch => .isTrue trivial

variable {t t' : SessionSched} {code : List SessionStmt} {queue posted : List SessionMsg}
  {s s' : Mp3Session}

/-! ## messages and frames -/

/-- More messages do no harm. -/
theorem StartNotLost.append (h : StartNotLost ⟨code, queue, s⟩) :
    StartNotLost ⟨code, queue ++ posted, s⟩ := by
  simp only [StartNotLost, DecodePending, List.mem_append] at h ⊢
  grind

theorem startNotLost_of_not (h : ¬ t.state.Startable) : StartNotLost t :=
  fun _ hcan => absurd hcan h

/-- The handler is on its way to decide. -/
theorem startNotLost_of_decides (next : List SessionStmt)
    (h : next.any SessionStmt.decides = true) : StartNotLost ⟨next ++ code, queue, s⟩ := by
  intro _ _
  simp [DecodePending, List.any_append, h]

/-- A statement that does not decide and leaves alone what the start depends on. -/
theorem StartNotLost.next {c : SessionStmt} (h : StartNotLost ⟨c :: code, queue, s⟩)
    (next : List SessionStmt) (hdecides : c.decides = false)
    (hinit : s'.initRan = s.initRan) (hcan : s'.Startable → s.Startable) :
    StartNotLost ⟨next ++ code, queue ++ posted, s'⟩ := by
  simp only [StartNotLost, DecodePending, List.any_cons, List.any_append, List.mem_append] at h ⊢
  grind

/-- What the start depends on is left alone. -/
theorem EngineFrame.startable {d : Mp3Decoder} (hframe : EngineFrame s.dec d)
    (hcan : ({ s with dec := d } : Mp3Session).Startable) : s.Startable := by
  simpa [Mp3Session.Startable, hframe.state, hframe.totalInput] using hcan

theorem StartNotLost.dispatch {m : SessionMsg} (h : StartNotLost ⟨[], m :: queue, s⟩) :
    StartNotLost ⟨userMsgHandler m, queue, s⟩ := by
  simp only [StartNotLost, DecodePending] at h ⊢
  cases m <;> simp_all [userMsgHandler, SessionStmt.decides]

/-- What a frame does to the start of the decoder. -/
theorem mp3DecoderRecvFrame_start (buffer : List UInt8) (d : Mp3Decoder) :
    (mp3DecoderRecvFrame buffer d).totalInput = (d.totalInput + buffer.length) % 2 ^ 32 ∧
      if d.state = .idle ∧
          mp3DecoderConfig.bufferingLimit ≤ (d.totalInput + buffer.length) % 2 ^ 32 then
        (mp3DecoderRecvFrame buffer d).state = .buffering ∧
          (mp3DecoderRecvFrame buffer d).tasks = d.tasks ++ [.doDecode]
      else (mp3DecoderRecvFrame buffer d).state = d.state ∧
          (mp3DecoderRecvFrame buffer d).tasks = d.tasks := by
  simp only [mp3DecoderRecvFrame, DecoderInput.recvFrame, DecoderInput.countFrame_eq]
  split <;> simp_all

/-- A frame keeps the start exactly when it does not reach the limit in the state BUFFERING
with no message pending. -/
theorem startNotLost_rawFrame (t : SessionSched) (buffer : List UInt8) :
    StartNotLost ⟨t.code, t.queue ++ (ipcRxUserHandler t.state (.rawFrame buffer)).2,
      (ipcRxUserHandler t.state (.rawFrame buffer)).1⟩ ↔
      KeepsStart t (.interrupt (.rawFrame buffer)) := by
  obtain ⟨htotal, hstart⟩ := mp3DecoderRecvFrame_start buffer t.state.dec
  simp only [ipcRxUserHandler, StartNotLost, KeepsStart, Mp3Session.Startable, htotal]
  split at hstart
  · next hidle =>
      obtain ⟨hstate, htasks⟩ := hstart
      simp [DecodePending, htasks, hidle.1, SessionMsg.ofTask]
  · next hidle =>
      obtain ⟨hstate, htasks⟩ := hstart
      have hpending : DecodePending t ↔ .mp3DecoderDoDecode ∈ t.queue ∨
        t.code.any SessionStmt.decides := Iff.rfl
      simp only [DecodePending, htasks, hstate, List.drop_length, List.map_nil, List.append_nil]
      grind

/-! ## statements -/

/-- A statement on the input variables keeps the start unless it assigns IDLE with the
limit reached and no message pending. -/
theorem startNotLost_input {c : ApplyStmt} {b : Bool}
    (h : s.initRan = true → s.Startable → DecodePending ⟨code, queue, s⟩)
    (hran : c.resetsState = false → b = s.initRan) :
    StartNotLost ⟨code, queue, { s.input c with initRan := b }⟩ ↔
      (c.resetsState = true ∧ b = true ∧
        mp3DecoderConfig.bufferingLimit ≤ s.dec.totalInput → DecodePending ⟨code, queue, s⟩) := by
  obtain ⟨htotal, hstate⟩ := c.exec_start ⟨s.dec.toDecoderInput, 0, s.applyUnit⟩
  have hlimit : 0 < mp3DecoderConfig.bufferingLimit := by decide
  simp only [StartNotLost, Mp3Session.Startable, Mp3Session.input, DecodePending] at h ⊢
  cases hresets : c.resetsState with
  | true =>
      rw [hresets, if_pos rfl] at hstate
      simp [hstate]
  | false =>
      rw [hresets, if_neg Bool.false_ne_true] at hstate
      rw [hran hresets, hstate]
      grind

/-- The other statements keep the start. -/
theorem StartNotLost.stmt {c : SessionStmt} {a : SessionAnswer}
    (h : StartNotLost ⟨c :: code, queue, s⟩)
    (hinit : ∀ x, c ≠ .initInput x) (hdestroy : ∀ x, c ≠ .destroyInput x) :
    StartNotLost ⟨(c.exec a s).code code, queue ++ (c.exec a s).posted, (c.exec a s).state⟩ := by
  cases c with
  | initInput x => exact absurd rfl (hinit x)
  | destroyInput x => exact absurd rfl (hdestroy x)
  | switchState =>
      cases hstate : s.dec.state with
      | idle =>
          simp only [SessionStmt.exec, hstate]
          exact startNotLost_of_decides idleCase rfl
      | buffering =>
          simp only [SessionStmt.exec, hstate]
          exact startNotLost_of_decides bufferingCase rfl
      | _ =>
          refine startNotLost_of_not ?_
          simp [SessionStmt.exec, hstate, Mp3Session.Startable, Effect.goOn]
  | setBuffering => exact startNotLost_of_decides bufferingCase rfl
  | ifBuffered =>
      simp only [SessionStmt.exec]
      split
      · exact startNotLost_of_decides [.engineInit, .setInitiating] rfl
      · next hlimit => exact startNotLost_of_not fun hcan => hlimit hcan.1
  | setInitiating =>
      exact startNotLost_of_not (by simp [SessionStmt.exec, Mp3Session.setState,
        Mp3Session.Startable])
  | setDecoding =>
      exact startNotLost_of_not (by simp [SessionStmt.exec, Mp3Session.setState,
        Mp3Session.Startable])
  | ifStarted =>
      simp only [SessionStmt.exec]
      split
      · exact h.next [.setDecoding] rfl rfl id
      · split
        · exact h.next [] rfl rfl id
        · exact h.next [] rfl rfl id
  | engineStart =>
      exact h.next [] rfl rfl (mp3DecoderEngineStart_frame _ _ _).startable
  | engineDecode =>
      exact h.next [] rfl rfl (mp3DecoderEngineDecode_frame _ _).startable
  | freeCodecBlock i =>
      simp only [SessionStmt.exec]
      split
      · exact h.next [.freeCodecBlock (i + 1)] rfl rfl id
      · exact h.next [] rfl rfl id
  | _ => exact h.next [] rfl rfl id

/-! ## runs -/

/-- A statement keeps the start exactly when it meets the condition. -/
theorem startNotLost_stmt {c : SessionStmt} {a : SessionAnswer}
    (h : StartNotLost ⟨c :: code, queue, s⟩) :
    StartNotLost ⟨(c.exec a s).code code, queue ++ (c.exec a s).posted, (c.exec a s).state⟩ ↔
      KeepsStart ⟨c :: code, queue, s⟩ (.stmt a) := by
  cases c with
  | initInput x =>
      have hinput := startNotLost_input (c := x) (b := s.initRan || x.resetsState) h (by simp_all)
      rw [SessionStmt.exec, Effect.goOn, List.append_nil]
      refine hinput.trans ?_
      simp only [KeepsStart, ResetsNext, Bool.or_eq_true]
      grind [DecodePending, SessionStmt.decides]
  | destroyInput x =>
      have hinput := startNotLost_input (c := x) (b := s.initRan) h (fun _ => rfl)
      rw [SessionStmt.exec, Effect.goOn, List.append_nil]
      refine hinput.trans ?_
      simp only [KeepsStart, ResetsNext, Bool.and_eq_true]
      grind [DecodePending, SessionStmt.decides]
  | _ => exact iff_of_true (h.stmt (by simp) (by simp)) (by simp [KeepsStart, ResetsNext])

/-- A step keeps the start exactly when it meets the condition. -/
theorem startNotLost_step {e : SessionEvent} (h : StartNotLost t)
    (hstep : sessionStep t e = some t') : StartNotLost t' ↔ KeepsStart t e := by
  obtain ⟨code, queue, s⟩ := t
  obtain ⟨m, rest, rfl, rfl, rfl, rfl⟩ | ⟨c, cs, a, rfl, rfl, rfl⟩ | ⟨i, rfl, rfl⟩ :=
    sessionStep_cases hstep
  · exact iff_of_true h.dispatch trivial
  · exact startNotLost_stmt h
  · cases i with
    | rawFrame buffer => exact startNotLost_rawFrame ⟨code, queue, s⟩ buffer
    | _ => exact iff_of_true h.append trivial

/-- The start of decoding is not lost, in any state on the way, exactly when every step of
the run meets the condition. -/
theorem start_not_lost_iff {es : List SessionEvent} (hrun : run sessionStep .start es = some t) :
    (∀ es1 t1, es1 <+: es → run sessionStep .start es1 = some t1 → StartNotLost t1) ↔
      Along sessionStep KeepsStart .start es := by
  refine run_prefixes_iff_along (fun s e s' => startNotLost_step) ?_ hrun
  exact fun hran => absurd hran Bool.false_ne_true

/-! ## two runs -/

/-- The first session gets 2048 bytes and is started. -/
def firstStart : List SessionEvent :=
  .interrupt .decoderStart :: handling 12 ++ fourFrames ++ handling 8

theorem start_not_lost_iff_first : ∃ t, run sessionStep .start firstStart = some t ∧
    ∀ es1 t1, es1 <+: firstStart → run sessionStep .start es1 = some t1 → StartNotLost t1 := by
  have hdone : (run sessionStep .start firstStart).isSome = true := by decide +kernel
  obtain ⟨t, hrun⟩ := Option.isSome_iff_exists.mp hdone
  exact ⟨t, hrun, (start_not_lost_iff hrun).mpr (by decide +kernel)⟩

/-- A session starts; its end and the start of the next one are asked for, and 2048 bytes
arrive before either is handled. -/
def staleStart : List SessionEvent :=
  .interrupt .decoderStart :: handling 12 ++
    .interrupt .decoderPrepNext :: .interrupt .decoderStart :: fourFrames

/-- What the start depends on. -/
def SessionSched.startView (t : SessionSched) : Nat × List SessionMsg × Bool × Nat × DecoderState :=
  (t.code.length, t.queue, t.state.initRan, t.state.dec.totalInput, t.state.dec.state)

/-- The message that the frames have inserted is handled behind `mp3_decoder_init`, where the
decoder has no data; the next 2048 bytes do not insert another one. -/
theorem start_lost : ∃ t,
    run sessionStep .start (staleStart ++ handling 10 ++ handling 12 ++ handling 3 ++ fourFrames) =
      some t ∧ t.code = [] ∧ t.queue = [] ∧ ¬ StartNotLost t := by
  have hview : (run sessionStep .start
      (staleStart ++ handling 10 ++ handling 12 ++ handling 3 ++ fourFrames)).map
        SessionSched.startView = some (0, [], true, 2048, .buffering) := by
    decide +kernel
  obtain ⟨t, hrun, ht⟩ := Option.map_eq_some_iff.mp hview
  simp only [SessionSched.startView, Prod.mk.injEq, List.length_eq_zero_iff] at ht
  obtain ⟨hcode, hqueue, hran, htotal, hstate⟩ := ht
  refine ⟨t, hrun, hcode, hqueue, ?_⟩
  simp [StartNotLost, Mp3Session.Startable, decodePending_idle hcode, hqueue, hran, htotal, hstate,
    mp3DecoderConfig]

end Fr5080
