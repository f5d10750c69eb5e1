import Fr5080.Decoder.MsbcSession

/-!
# Fr5080.Decoder.MsbcGrant

Whether the mSBC decoder asks for more data.  `msbc_decoder_engine_decode` sends
the grant behind the call of the codec, and only if `ipc_alloc_channel` gives it a
channel; if not, the next call is meant to try again.  The next call returns
early when the last one consumed nothing and there is nothing new to decode
(`MsbcDecoder.Drained`), and then there is no further try: without a grant the
MCU sends nothing, and nothing changes any more.

`InBudget` bounds the bytes counted in `msbc_decoder_dynamic_consumed` by those
that can have been in the decoder, so the counter never wraps; it is kept by every
step (`inBudget_run`).
-/

namespace Fr5080

open Embedded

/-! ## what the MCU may send -/

/-- The bytes of the last grant, as the MCU reads it from the message. -/
def MsbcDecoder.granted (s : MsbcDecoder) : Nat :=
  s.grants.getLast?.getD 0 % ipcLengthLimit * msbcSingleFrameSize

/-- The MCU sends no more than was granted. -/
def WithinGrant (t : MsbcDecoderSched) : MsbcDecoderEvent → Prop
  | .interrupt (.recvFrame buffer) => t.state.input.since + buffer.length ≤ t.state.granted
  | _ => True

instance (t : MsbcDecoderSched) (e : MsbcDecoderEvent) : Decidable (WithinGrant t e) :=
  match e with
  | .interrupt (.recvFrame _) => inferInstanceAs (Decidable (_ ≤ _))
  | .interrupt .prepareForNext => .isTrue trivial
  | .call _ => .isTrue trivial
  | .dispatch => .isTrue trivial
  | .stmt _ => .isTrue trivial

/-- An event of a session whose MCU keeps to the grants. -/
def KeepsToGrant (t : MsbcDecoderSched) (e : MsbcDecoderEvent) : Prop :=
  InSession e ∧ WithinGrant t e

instance (t : MsbcDecoderSched) (e : MsbcDecoderEvent) : Decidable (KeepsToGrant t e) :=
  inferInstanceAs (Decidable (_ ∧ _))

/-- A grant is due, and there is room for at least two frames. -/
structure MsbcDecoder.RequestDue (s : MsbcDecoder) : Prop where
  state : s.input.state = .decoding
  allReceived : s.input.allRequestDataReceived = true
  noPrep : s.input.prepForNext = false
  consumed : msbcDecoderConfig.requestDataThd ≤ s.input.dynamicConsumed
  room : s.input.ring.used msbcDecoderConfig.bufferSize + 2 * msbcSingleFrameSize ≤
    msbcDecoderConfig.bufferSize

instance (s : MsbcDecoder) : Decidable s.RequestDue :=
  decidable_of_iff (s.input.state = .decoding ∧ s.input.allRequestDataReceived = true ∧
      s.input.prepForNext = false ∧
      msbcDecoderConfig.requestDataThd ≤ s.input.dynamicConsumed ∧
      s.input.ring.used msbcDecoderConfig.bufferSize + 2 * msbcSingleFrameSize ≤
        msbcDecoderConfig.bufferSize)
    ⟨fun ⟨h1, h2, h3, h4, h5⟩ => ⟨h1, h2, h3, h4, h5⟩, fun ⟨h1, h2, h3, h4, h5⟩ =>
      ⟨h1, h2, h3, h4, h5⟩⟩

/-- A grant has been sent since `s`. -/
def MsbcDecoder.GrantSent (s s' : MsbcDecoder) : Prop :=
  ∃ applyUnit, s'.grants = s.grants ++ [applyUnit]

variable {uiSize : Fin (2 ^ 31)} {code rest : List MsbcDecoderStmt} {s s' : MsbcDecoder}
  {a : MsbcDecoderAnswer}

/-! ## the counter is bounded -/

/-- The bytes the codec has consumed and that are still to be counted. -/
def uncounted : List MsbcDecoderStmt → Nat
  | .apply _ _ (.addConsumed bytesConsumed :: _) :: _ => bytesConsumed
  | _ => 0

/-- The next statement is `dynamic_consumed = 0`. -/
def ClearsNext : List MsbcDecoderStmt → Prop
  | .apply _ _ (.clearDynamicConsumed :: _) :: _ => True
  | _ => False

/-- The bytes consumed since the last grant, those staged and those unread have been there at that
time or been received since. -/
structure InBudget (uiSize : Fin (2 ^ 31)) (code : List MsbcDecoderStmt) (s : MsbcDecoder) :
    Prop where
  since : s.input.since ≤ ipcLengthLimit * msbcSingleFrameSize
  bytes : ClearsNext code ∨
    s.input.dynamicConsumed + uncounted code + s.codec.staged.length + s.unread.length ≤
      msbcDecoderConfig.bufferSize + uiSize + s.input.since

/-- The statement concerns none of the bytes. -/
theorem InBudget.next (h : InBudget uiSize code s) (hcode : ¬ ClearsNext code)
    {code' : List MsbcDecoderStmt} (hcount : uncounted code' ≤ uncounted code)
    (hdynamic : s'.input.dynamicConsumed = s.input.dynamicConsumed)
    (hring : s'.input.ring = s.input.ring) (hcodec : s'.codec.staged.length = s.codec.staged.length)
    (hsince : s'.input.since = s.input.since) : InBudget uiSize code' s' := by
  have hunread : s'.unread = s.unread := by rw [MsbcDecoder.unread, MsbcDecoder.unread, hring]
  have hbytes := h.bytes.resolve_left hcode
  refine ⟨hsince ▸ h.since, .inr ?_⟩
  rw [hdynamic, hcodec, hunread, hsince]
  omega

/-- The bytes that the codec consumes are no longer staged. -/
theorem MsbcDecoder.Refilled.length {c : CodecInput} (hs : s.Regular uiSize) (hc : s.Refilled c)
    (consume : Consumption) :
    (s.callCodec c consume).codec.bytesConsumed +
        (s.callCodec c consume).codec.staged.length + (s.callCodec c consume).unread.length =
      s.codec.staged.length + s.unread.length := by
  have hbuff := hc.buffSize
  have hread := s.readable_eq
  have hvalid := (hc.valid hs.codec consume).consumed_le
  have hadvance := RingBuffer.used_advance hs.ring (s.codec.readable_le _ s.input.ring)
  have hstaged := (s.callCodec c consume).codec.length_staged
  have hbytes : (s.callCodec c consume).codec.buffSize = c.buffSize := rfl
  have hunread : (s.callCodec c consume).unread.length = s.unread.length - s.readable := by
    rw [MsbcDecoder.length_unread, MsbcDecoder.length_unread]
    exact hadvance
  have hle : (s.callCodec c consume).codec.bytesConsumed ≤ c.buffSize := hvalid
  omega

/-- A call of the codec, counted in the next statement. -/
theorem InBudget.called {c : CodecInput} {s1 : MsbcDecoder} (h : InBudget uiSize code s)
    (hcode : ¬ ClearsNext code) (hcount : uncounted code = 0) (hs : s.Regular uiSize)
    (hc : s.Refilled c) (consume : Consumption)
    (hs1 : s1.input = (s.callCodec c consume).input ∧ s1.codec = (s.callCodec c consume).codec)
    (channel : Bool) (rest : List MsbcDecoderStmt) :
    InBudget uiSize (s1.applyStmt channel :: rest) s1 := by
  have hbytes := h.bytes.resolve_left hcode
  have hlength := hc.length hs consume
  have hunread : s1.unread = (s.callCodec c consume).unread := by
    rw [MsbcDecoder.unread, MsbcDecoder.unread, hs1.1]
  have hdynamic : s1.input.dynamicConsumed = s.input.dynamicConsumed := by
    rw [hs1.1]
    rfl
  have hsince : s1.input.since = s.input.since := by
    rw [hs1.1]
    rfl
  have hpending : uncounted (s1.applyStmt channel :: rest) =
      (s.callCodec c consume).codec.bytesConsumed := by
    rw [← hs1.2]
    rfl
  refine ⟨hsince ▸ h.since, .inr ?_⟩
  rw [hpending, hunread, hs1.2, hdynamic, hsince]
  omega

/-- What the grant code does to the bytes counted. -/
theorem InBudget.apply {c : ApplyStmt} {cs : List ApplyStmt} {l u l' u' : Nat}
    (h : InBudget uiSize (.apply l u (c :: cs) :: rest) s) (hs : s.Regular uiSize)
    (hcs : ∃ bytesConsumed channel, c :: cs <:+ msbcDecoderApplyCode bytesConsumed channel)
    (hs' : s'.input = (c.exec ⟨s.input, l, u⟩).1.toDecoderInput ∧ s'.codec = s.codec) :
    InBudget uiSize (.apply l' u' cs :: rest) s' := by
  have hstaged : s'.codec.staged.length = s.codec.staged.length := by rw [hs'.2]
  have hunread : s'.unread.length = s.unread.length := by
    rw [MsbcDecoder.unread, MsbcDecoder.unread, hs'.1,
      c.exec_ring (grants_of_suffix hcs List.mem_cons_self)]
  obtain ⟨bytesConsumed, channel, hsuffix⟩ := hcs
  simp only [msbcDecoderApplyCode, List.suffix_cons_iff, List.suffix_nil, List.cons.injEq,
    reduceCtorEq, or_false] at hsuffix
  obtain ⟨hsince, hbytes⟩ := h
  obtain ⟨hinput, -⟩ := hs'
  have hle : s.codec.staged.length ≤ uiSize := by
    rw [CodecInput.length_staged]
    have hbuff := hs.codec.buff_le
    have hsize := hs.size
    omega
  have hlt := hs.ring.used_lt
  rw [← s.length_unread] at hlt
  obtain ⟨rfl, rfl⟩ | ⟨rfl, rfl⟩ | ⟨rfl, rfl⟩ | ⟨rfl, rfl⟩ | ⟨rfl, rfl⟩ | ⟨rfl, rfl⟩ | ⟨rfl, rfl⟩ |
    ⟨rfl, rfl⟩ | ⟨rfl, rfl⟩ | ⟨rfl, rfl⟩ := hsuffix
  all_goals
    refine ⟨?_, ?_⟩
    · simp_all [ApplyStmt.exec]
    · simp only [ClearsNext, uncounted, hstaged, hunread, hinput, ApplyStmt.exec, false_or,
        true_or] at hbytes ⊢ <;> omega

/-- A condition that fails has changed nothing. -/
theorem ApplyStmt.exec_leave {c : ApplyStmt} {x : ApplyCtx} (h : (c.exec x).2 = false) :
    (c.exec x).1 = x ∧ c ≠ .clearDynamicConsumed := by
  cases c <;> simp_all [ApplyStmt.exec]

theorem InBudget.exec {c : MsbcDecoderStmt} (h : InBudget uiSize (c :: rest) s)
    (hs : SessionAt uiSize (c :: rest) s) (a : MsbcDecoderAnswer) :
    InBudget uiSize ((c.exec uiSize a s).code rest) (c.exec uiSize a s).state := by
  have hpoint := hs.point
  cases c with
  | switchState =>
      obtain ⟨rfl, -⟩ := hpoint
      simp only [MsbcDecoderStmt.exec]
      split <;> exact h.next id (Nat.le_refl _) rfl rfl rfl rfl
  | ifBuffered =>
      obtain ⟨rfl, -⟩ := hpoint
      simp only [MsbcDecoderStmt.exec]
      split <;> exact h.next id (Nat.le_refl _) rfl rfl rfl rfl
  | engineInit =>
      obtain ⟨rfl, -⟩ := hpoint
      refine h.next id (Nat.le_refl _) rfl rfl ?_ rfl
      simp [MsbcDecoderStmt.exec, Effect.goOn, msbcDecoderEngineInit]
  | engineStart =>
      obtain ⟨c, hc, heq⟩ := msbcDecoderEngineStart_eq hs.regular a.initDone a.consume
      simp only [MsbcDecoderStmt.exec, heq]
      refine h.called id rfl hs.regular hc a.consume ?_ a.channel rest
      exact ⟨rfl, rfl⟩
  | ifStarted =>
      obtain ⟨rfl, -⟩ := hpoint
      simp only [MsbcDecoderStmt.exec]
      split <;> try split
      all_goals exact h.next id (Nat.le_refl _) rfl rfl rfl rfl
  | engineDecode =>
      obtain ⟨rfl, -⟩ := hpoint
      by_cases hdrained : s.Drained
      · simp only [MsbcDecoderStmt.exec, msbcDecoderEngineDecode_drained hs.regular hdrained]
        exact h.next id (Nat.le_refl _) rfl rfl rfl rfl
      · obtain ⟨c, hc, heq⟩ := msbcDecoderEngineDecode_eq hs.regular hdrained a.consume
        simp only [MsbcDecoderStmt.exec, heq]
        refine h.called id rfl hs.regular hc a.consume ?_ a.channel []
        exact ⟨rfl, rfl⟩
  | apply leftSpace applyUnit cs =>
      obtain ⟨hcs, hrest, -⟩ := hpoint
      have hcount : uncounted rest = 0 := by
        obtain ⟨rfl, -⟩ | ⟨rfl, -⟩ := hrest <;> rfl
      cases cs with
      | nil => exact h.next id hcount.le rfl rfl rfl rfl
      | cons c cs =>
          simp only [MsbcDecoderStmt.exec]
          split
          · exact h.apply hs.regular hcs ⟨rfl, rfl⟩
          · next hleave =>
              obtain ⟨hsame, hne⟩ := ApplyStmt.exec_leave (Bool.not_eq_true _ ▸ hleave)
              have hclear : ¬ ClearsNext (.apply leftSpace applyUnit (c :: cs) :: rest) := by
                cases c <;> simp_all [ClearsNext]
              rw [hsame]
              exact h.next hclear (hcount.trans_le (Nat.zero_le _)) rfl rfl rfl rfl
  | clearInitDone => exact hpoint.elim
  | allocBuffer => exact hpoint.elim
  | destroy => exact hpoint.elim
  | _ =>
      obtain ⟨rfl, -⟩ := hpoint
      exact h.next id (Nat.le_refl _) rfl rfl rfl rfl

/-- A frame within the grant. -/
theorem InBudget.isr {i : MsbcDecoderIsr} (h : InBudget uiSize code s) (hs : s.Regular uiSize)
    (hgrant : WithinGrant ⟨code, [], s⟩ (.interrupt i)) (hisr : msbcDecoderIsr s i = some s') :
    InBudget uiSize code s' := by
  cases i with
  | prepareForNext =>
      cases hisr
      exact ⟨h.since, h.bytes⟩
  | recvFrame buffer =>
      simp only [msbcDecoderIsr] at hisr
      split at hisr
      · next hframe =>
          cases hisr
          have hlen := lt_bufferSize_of_lt hframe.2
          have hunread : ((s.input.ring.recv msbcDecoderConfig.bufferSize buffer).contents
              msbcDecoderConfig.bufferSize).length ≤ s.unread.length + buffer.length := by
            rw [s.length_unread]
            by_cases hfits : s.input.ring.used msbcDecoderConfig.bufferSize + buffer.length <
                msbcDecoderConfig.bufferSize
            · rw [RingBuffer.contents_recv hs.ring hfits]
              simp
            · rw [RingBuffer.contents_recv_full hs.ring hlen (by omega), List.length_drop]
              omega
          obtain ⟨state, tasks, -, heq⟩ := s.input.recvFrame_eq msbcDecoderConfig buffer
          have hsince : s.input.since + buffer.length ≤ s.granted := hgrant
          have hgranted : s.granted ≤ ipcLengthLimit * msbcSingleFrameSize :=
            Nat.mul_le_mul_right _ (Nat.mod_lt _ (by decide)).le
          refine ⟨?_, h.bytes.imp_right fun hbytes => ?_⟩
          · rw [heq]
            exact hsince.trans hgranted
          · simp only [MsbcDecoder.unread, heq] at hbytes hunread ⊢
            omega
      · cases hisr

/-- The bound holds throughout a session, whatever the state was before. -/
theorem inBudget_run {es : List MsbcDecoderEvent} {t : MsbcDecoderSched}
    (hs : s.Regular uiSize) (mem : Nat → UInt8)
    (hgrant : Along (msbcDecoderStep uiSize) KeepsToGrant ⟨[], [], s.fresh mem⟩ es)
    (hrun : run (msbcDecoderStep uiSize) ⟨[], [], s.fresh mem⟩ es = some t) :
    (t.queue = [] ∧ SessionAt uiSize t.code t.state) ∧ InBudget uiSize t.code t.state := by
  have hfresh := sessionAt_fresh hs mem
  have hbudget : InBudget uiSize [] (s.fresh mem) := by
    refine ⟨Nat.zero_le _, .inr ?_⟩
    have hstaged := (s.fresh mem).codec.length_staged
    have hbuff := hfresh.regular.codec.buff_le
    have hsize := hfresh.regular.size
    have hunread : (s.fresh mem).unread.length = 0 := rfl
    have hdynamic : (s.fresh mem).input.dynamicConsumed = 0 := rfl
    have hcount : uncounted [] = 0 := rfl
    omega
  refine run_inv_of_along (C := KeepsToGrant)
    (I := fun t => (t.queue = [] ∧ SessionAt uiSize t.code t.state) ∧
      InBudget uiSize t.code t.state) ?_ ⟨⟨rfl, hfresh⟩, hbudget⟩ hgrant hrun
  rintro ⟨code, queue, s⟩ e t' ⟨⟨hqueue, hs⟩, hbudget⟩ ⟨hin, hgrant⟩ hstep
  obtain rfl : queue = [] := hqueue
  refine ⟨hs.step hin hstep, ?_⟩
  obtain ⟨-, rfl, rfl⟩ | ⟨c, cs, a, -, rfl, rfl⟩ | ⟨i, s', rfl, hisr, rfl⟩ :=
    session_step_cases hin hstep
  · exact hbudget.next id (Nat.le_refl _) rfl rfl rfl rfl
  · exact hbudget.exec hs a
  · exact hbudget.isr hs.regular hgrant hisr

/-! ## the next call -/

/-- With at least two frames of room there is something to ask for. -/
theorem msbc_applyUnit_ne_zero {leftSpace : Nat}
    (h : leftSpace + 2 * msbcSingleFrameSize ≤ msbcDecoderConfig.bufferSize) :
    msbcDecoderConfig.applyUnit leftSpace ≠ 0 := by
  have hcap : msbcDecoderConfig.bufferSize = 3648 := rfl
  have hframe : msbcSingleFrameSize = 57 := rfl
  rw [hcap, hframe] at h
  have hspace : sub32 msbcDecoderBufferSize leftSpace = 3648 - leftSpace :=
    sub32_of_le (by have hsize : msbcDecoderBufferSize = 3648 := rfl; omega)
  have heq : msbcDecoderConfig.applyUnit leftSpace =
      if sub32 msbcDecoderBufferSize leftSpace > msbcDecoderApplyLimit then
        msbcDecoderApplyLimit / msbcSingleFrameSize - 1
      else sub32 (sub32 msbcDecoderBufferSize leftSpace / msbcSingleFrameSize) 1 := rfl
  rw [heq, hspace, hframe]
  split
  · decide
  · rw [sub32_of_le (by omega)]
    omega

/-- The next statement of the grant code, when it goes on. -/
theorem executes_goesOn {c : ApplyStmt} {cs : List ApplyStmt} {l u : Nat}
    {Q : List Empty → MsbcDecoder → Prop} (hgo : (c.exec ⟨s.input, l, u⟩).2 = true)
    (h : Executes (msbcDecoderStep uiSize) a
      ⟨[.apply (c.exec ⟨s.input, l, u⟩).1.leftSpace (c.exec ⟨s.input, l, u⟩).1.applyUnit cs], [],
        { s with
          input := (c.exec ⟨s.input, l, u⟩).1.toDecoderInput
          grants := s.grants ++ c.sent ⟨s.input, l, u⟩ }⟩ Q) :
    Executes (msbcDecoderStep uiSize) a ⟨[.apply l u (c :: cs)], [], s⟩ Q := by
  refine .stmt ?_ h
  simp [msbcDecoderStep, schedStep, MsbcDecoderStmt.exec, Effect.code, hgo]

/-- The grant code with a channel sends a grant when one is due. -/
theorem executes_apply {bytesConsumed : Nat}
    (hall : s.input.allRequestDataReceived = true) (hprep : s.input.prepForNext = false)
    (hconsumed : msbcDecoderConfig.requestDataThd ≤
      (s.input.dynamicConsumed + bytesConsumed) % 2 ^ 32)
    (hunit : msbcDecoderConfig.applyUnit
      (s.input.ring.used msbcDecoderConfig.bufferSize) ≠ 0) :
    Executes (msbcDecoderStep uiSize) a
      ⟨[.apply 0 0 (msbcDecoderApplyCode bytesConsumed true)], [], s⟩
      fun _ s' => s.GrantSent s' := by
  refine executes_goesOn rfl (executes_goesOn ?_ (executes_goesOn rfl (executes_goesOn rfl
    (executes_goesOn rfl (executes_goesOn ?_ (executes_goesOn rfl (executes_goesOn rfl
      (executes_goesOn rfl (executes_goesOn rfl (.stmt rfl (.done ?_)))))))))))
  · simpa [ApplyStmt.exec, hall, hprep] using hconsumed
  · simp [ApplyStmt.exec, hunit]
  · refine ⟨msbcDecoderConfig.applyUnit (s.input.ring.used msbcDecoderConfig.bufferSize), ?_⟩
    simp [ApplyStmt.sent, ApplyStmt.exec, MsbcDecoderStmt.exec, Effect.goOn]

/-- The handler of a decoding decoder calls `msbc_decoder_engine_decode`. -/
theorem executes_switchState {Q : List Empty → MsbcDecoder → Prop}
    (hstate : s.input.state = .decoding)
    (h : Executes (msbcDecoderStep uiSize) a ⟨msbcDecodingCase, [], s⟩ Q) :
    Executes (msbcDecoderStep uiSize) a ⟨msbcDecoderCode .doDecoderHandler, [], s⟩ Q := by
  refine .stmt ?_ h
  simp [msbcDecoderStep, schedStep, msbcDecoderCode, MsbcDecoderStmt.exec, Effect.code, hstate]

/-- The early return changes nothing, so the next call will not try again either. -/
theorem executes_drained (hs : s.Regular uiSize) (hstate : s.input.state = .decoding)
    (hdrained : s.Drained) :
    Executes (msbcDecoderStep uiSize) a ⟨msbcDecoderCode .doDecoderHandler, [], s⟩
      fun _ s' => s' = s := by
  have hdone : Executes (msbcDecoderStep uiSize) a ⟨[], [], s⟩ fun _ s' => s' = s := .done rfl
  refine executes_switchState hstate (.stmt ?_ hdone)
  simp [msbcDecoderStep, schedStep, msbcDecodingCase, MsbcDecoderStmt.exec, Effect.code,
    Effect.goOn, msbcDecoderEngineDecode_drained hs hdrained]

theorem not_sent_of_drained (hs : s.Regular uiSize) (hstate : s.input.state = .decoding)
    (hdrained : s.Drained) :
    ¬ Executes (msbcDecoderStep uiSize) a ⟨msbcDecoderCode .doDecoderHandler, [], s⟩
      fun _ s' => s.GrantSent s' := by
  intro hsent
  obtain ⟨-, s', ⟨applyUnit, hgrants⟩, rfl⟩ := hsent.and (executes_drained hs hstate hdrained)
  simp at hgrants

/-- Otherwise the grant is sent. -/
theorem sent_of_not_drained (hs : s.Regular uiSize) (hbudget : InBudget uiSize [] s)
    (hdue : s.RequestDue) (hchannel : a.channel = true) (hdrained : ¬ s.Drained) :
    Executes (msbcDecoderStep uiSize) a ⟨msbcDecoderCode .doDecoderHandler, [], s⟩
      fun _ s' => s.GrantSent s' := by
  obtain ⟨c, hc, heq⟩ := msbcDecoderEngineDecode_eq hs hdrained a.consume
  have hstep : msbcDecoderStep uiSize ⟨msbcDecodingCase, [], s⟩ (.stmt a) =
      some ⟨[.apply 0 0 (msbcDecoderApplyCode (s.callCodec c a.consume).codec.bytesConsumed true)],
        [], { s.callCodec c a.consume with ignoreFirstConsumed := false }⟩ := by
    simp [msbcDecoderStep, schedStep, msbcDecodingCase, MsbcDecoderStmt.exec, Effect.code, heq,
      MsbcDecoder.applyStmt, hchannel]
  refine executes_switchState hdue.state (.stmt hstep ?_)
  refine executes_apply (s := { s.callCodec c a.consume with ignoreFirstConsumed := false })
    hdue.allReceived hdue.noPrep ?_ (msbc_applyUnit_ne_zero ?_)
  · -- the sum does not wrap
    have hbytes := hbudget.bytes.resolve_left id
    have hsince := hbudget.since
    have hlength := hc.length hs a.consume
    have hlimit : ipcLengthLimit * msbcSingleFrameSize = 58368 := rfl
    have hcap : msbcDecoderConfig.bufferSize = 3648 := rfl
    have hsize := uiSize.isLt
    have hthd := hdue.consumed
    have hsum : (s.input.dynamicConsumed + (s.callCodec c a.consume).codec.bytesConsumed) % 2 ^ 32 =
        s.input.dynamicConsumed + (s.callCodec c a.consume).codec.bytesConsumed :=
      Nat.mod_eq_of_lt (by omega)
    exact hthd.trans ((Nat.le_add_right _ _).trans hsum.ge)
  · have hused := RingBuffer.used_advance hs.ring (s.codec.readable_le _ s.input.ring)
    have hroom := hdue.room
    have hle : (s.callCodec c a.consume).input.ring.used msbcDecoderConfig.bufferSize ≤
        s.input.ring.used msbcDecoderConfig.bufferSize := hused.trans_le (Nat.sub_le _ _)
    exact (Nat.add_le_add_right hle _).trans hroom

/-- **A skipped grant is tried again**: in every state of every session in which a grant is due, the
next call of the handler that gets a channel sends it, unless the codec consumed nothing of the last
input and there is nothing new for it. -/
theorem grant_retried_iff (uiSize : Fin (2 ^ 31)) {es0 es : List MsbcDecoderEvent}
    {t u : MsbcDecoderSched} (mem : Nat → UInt8)
    (hhistory : run (msbcDecoderStep uiSize) .start es0 = some t)
    (hgrant : Along (msbcDecoderStep uiSize) KeepsToGrant ⟨[], [], t.state.fresh mem⟩ es)
    (hrun : run (msbcDecoderStep uiSize) ⟨[], [], t.state⟩ (newSession mem ++ es) = some u)
    (hidle : u.code = []) (hdue : u.state.RequestDue) (a : MsbcDecoderAnswer)
    (hchannel : a.channel = true) :
    Executes (msbcDecoderStep uiSize) a ⟨msbcDecoderCode .doDecoderHandler, [], u.state⟩
        (fun _ s' => u.state.GrantSent s') ↔
      ¬ u.state.Drained := by
  rw [run_session] at hrun
  obtain ⟨⟨-, hs⟩, hbudget⟩ := inBudget_run (regular_run (regular_start uiSize) hhistory) mem
    hgrant hrun
  rw [hidle] at hbudget
  constructor
  · exact fun hsent hdrained => not_sent_of_drained hs.regular hdue.state hdrained hsent
  · exact sent_of_not_drained hs.regular hbudget hdue hchannel

/-! ## two runs -/

/-- The codec consumes up to `n` bytes of every call, and no channel is to be had. -/
def MsbcDecoderAnswer.noChannel (n : Nat) : MsbcDecoderAnswer where
  mem := fun _ => 0
  initDone := some 1
  consume := consumeUpTo n
  channel := false

/-- The bytes granted by the init arrive, and the handler is called once. -/
def grantedThenCalled (n : Nat) : List MsbcDecoderEvent :=
  .interrupt (.recvFrame (List.replicate 1000 0)) ::
    .interrupt (.recvFrame (List.replicate 767 0)) :: .call .doDecoderHandler ::
      List.replicate 14 (.stmt (.noChannel n))

/-- The codec leaves a part of its first input for the second call: the grant is sent later. -/
theorem grant_retried_iff_part : ∃ u,
    run (msbcDecoderStep 2048) .start (newSession (fun _ => 0) ++ grantedThenCalled 1000) =
      some u ∧
    Executes (msbcDecoderStep 2048) (.quiet fun _ => 0)
      ⟨msbcDecoderCode .doDecoderHandler, [], u.state⟩ fun _ s' => u.state.GrantSent s' := by
  have hview : (run (msbcDecoderStep 2048) .start
      (newSession (fun _ => 0) ++ grantedThenCalled 1000)).map (fun u =>
        (u.code.length, decide u.state.RequestDue, decide u.state.Drained)) =
          some (0, true, false) := by
    decide +kernel
  obtain ⟨u, hrun, hu⟩ := Option.map_eq_some_iff.mp hview
  simp only [Prod.mk.injEq, List.length_eq_zero_iff, decide_eq_true_eq, decide_eq_false_iff_not]
    at hu
  have hboot : run (msbcDecoderStep 2048) .start [] = some .start := rfl
  exact ⟨u, hrun, (grant_retried_iff 2048 _ hboot (by decide +kernel) hrun hu.1 hu.2.1 _ rfl).mpr
    hu.2.2⟩

/-- **The stall**: the codec consumes all 1767 bytes at once, and no channel is to be had at the end
of the two calls; from then on nothing asks for more. -/
theorem grant_not_retried : ¬ ∀ (es : List MsbcDecoderEvent) (u : MsbcDecoderSched),
    Along (msbcDecoderStep 2048) KeepsToGrant
      ⟨[], [], MsbcDecoder.zeroed.fresh fun _ => 0⟩ es →
    run (msbcDecoderStep 2048) .start (newSession (fun _ => 0) ++ es) = some u →
    u.code = [] → u.state.RequestDue → ∀ a : MsbcDecoderAnswer, a.channel = true →
      Executes (msbcDecoderStep 2048) a ⟨msbcDecoderCode .doDecoderHandler, [], u.state⟩
        fun _ s' => u.state.GrantSent s' := by
  intro hclaim
  have hview : (run (msbcDecoderStep 2048) .start
      (newSession (fun _ => 0) ++ grantedThenCalled 2048)).map (fun u =>
        (u.code.length, decide u.state.RequestDue, decide u.state.Drained)) =
          some (0, true, true) := by
    decide +kernel
  obtain ⟨u, hrun, hu⟩ := Option.map_eq_some_iff.mp hview
  simp only [Prod.mk.injEq, List.length_eq_zero_iff, decide_eq_true_eq] at hu
  have hsent := hclaim _ u (by decide +kernel) hrun hu.1 hu.2.1 (.quiet fun _ => 0) rfl
  exact not_sent_of_drained (regular_run (regular_start 2048) hrun) hu.2.1.state hu.2.2 hsent

end Fr5080
