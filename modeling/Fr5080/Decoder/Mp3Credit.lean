import Fr5080.Decoder.Mp3

/-!
# Fr5080.Decoder.Mp3Credit

The grants of the MP3 decoder over whole sessions.  After `mp3_decoder_init`
the MCU sends at most what it was granted, in frames of any length, and
`mp3_decoder_do_decoder_handler` runs between them, with any answers of the
codec.

* `mp3_ring_never_overflows` — what is unread and what may still arrive always
  leave 256 bytes of the ring free;
* `mp3_credit_never_starves` — when nothing more may arrive, enough is left to
  reach the next request.

Both follow from one invariant, `Mp3Decoder.CreditInv`: every grant restores
the same bounds, and between two grants bytes only move from the credit to
the ring, to the codec and into `dynamic_consumed`.
-/

namespace Fr5080

open Embedded

/-- What happens in a session: a frame arrives, the task is scheduled, or the
next session is announced. -/
inductive Mp3Event
  | recvFrame (buffer : List UInt8)
  | doDecoderHandler (a : Mp3Answers)
  | prepareForNext

/-- One event; the MCU does not send more than the last grant. -/
def mp3Step (d : Mp3Decoder) : Mp3Event → Option Mp3Decoder
  | .recvFrame buffer =>
      if d.since + buffer.length ≤ d.grant then some (mp3DecoderRecvFrame buffer d) else none
  | .doDecoderHandler a => some (mp3DecoderDoDecoderHandler a d)
  | .prepareForNext => some (mp3DecoderPrepareForNext d)

/-- The input bytes that no grant has made up for yet: unread, staged, or
consumed since the last grant. -/
def Mp3Decoder.held (d : Mp3Decoder) : Nat :=
  d.unread.length + d.staged.length + d.dynamicConsumed

/-- The invariant of a session. -/
structure Mp3Decoder.CreditInv (d : Mp3Decoder) : Prop where
  order : d.InOrder
  accounted : d.toDecoderInput.Accounted
  grant_le : d.grant ≤ 3840
  unread_le : d.unread.length + d.requestDataSize ≤ 3840
  held_ge : 3585 ≤ d.held + d.requestDataSize
  held_lt : d.held + d.requestDataSize < 2 ^ 31 + 3840
  phase : d.engineReady = false ↔ d.state = .idle ∨ d.state = .buffering

variable {d d' : Mp3Decoder}

/-! ## the units of a grant -/

/-- As long as the ring has 256 bytes to spare, the computation does not wrap. -/
theorem mp3_applyUnit_eq {leftSpace : Nat} (h : leftSpace ≤ 3840) :
    mp3DecoderConfig.applyUnit leftSpace = (4096 - leftSpace) / 256 - 1 := by
  have hspace : sub32 4096 leftSpace = 4096 - leftSpace := sub32_of_le (by omega)
  have hunits : sub32 ((4096 - leftSpace) / 256) 1 = (4096 - leftSpace) / 256 - 1 :=
    sub32_of_le (by omega)
  show sub32 (sub32 4096 leftSpace / 256) 1 = _
  rw [hspace, hunits]

/-- A grant leaves between 256 and 511 bytes of the ring. -/
theorem mp3Grant_bounds {ring : RingBuffer UInt8} (h : ring.used 4096 ≤ 3840)
    (hunit : mp3DecoderConfig.applyUnit (ring.used 4096) ≠ 0) :
    mp3Grant ring ≠ 0 ∧ 3585 ≤ ring.used 4096 + mp3Grant ring ∧
      ring.used 4096 + mp3Grant ring ≤ 3840 := by
  have hgrant : mp3Grant ring = ((4096 - ring.used 4096) / 256 - 1) * 256 % 2 ^ 32 := by
    rw [← mp3_applyUnit_eq h]
    rfl
  rw [mp3_applyUnit_eq h] at hunit
  rw [hgrant]
  omega

/-! ## the invariant is kept -/

theorem mp3DecoderInit_creditInv (d : Mp3Decoder) : (mp3DecoderInit d).CreditInv := by
  have horder := mp3DecoderInit_inOrder d
  have hinput : (mp3DecoderInit d).toDecoderInput = _ :=
    runCode_mp3DecoderInitCode d.toDecoderInput
  have hunread : (mp3DecoderInit d).unread = [] := (horder.waiting rfl).2.2
  have hstaged : (mp3DecoderInit d).staged = [] := rfl
  have hrequest : (mp3DecoderInit d).requestDataSize = 3840 := by rw [hinput]
  have hdynamic : (mp3DecoderInit d).dynamicConsumed = 0 := by rw [hinput]
  have hheld : (mp3DecoderInit d).held = 0 := by
    rw [Mp3Decoder.held, hunread, hstaged, hdynamic]
    rfl
  refine ⟨horder, ?_, ?_, ?_, ?_, ?_, ?_⟩
  · rw [hinput]
    exact accounted_fresh (by decide : 3840 ≠ 0) rfl rfl rfl rfl
  · rw [hinput]
  · rw [hunread, hrequest]
    decide
  · rw [hheld, hrequest]
    decide
  · rw [hheld, hrequest]
    decide
  · rw [hinput]
    exact ⟨fun _ => .inl rfl, fun _ => rfl⟩

/-- The state and the tasks do not matter, as long as the state tells whether
the engine is initialised. -/
theorem Mp3Decoder.CreditInv.update (h : d.CreditInv) (state : DecoderState)
    (hphase : d.engineReady = false ↔ state = .idle ∨ state = .buffering)
    (tasks : List DecoderTask) (initDone : Nat) :
    ({ d with state := state, tasks := tasks, initDone := initDone } : Mp3Decoder).CreditInv :=
  ⟨⟨h.order.wf, h.order.waiting, h.order.running⟩,
    ⟨h.accounted.request, h.accounted.allReceived⟩, h.grant_le, h.unread_le, h.held_ge,
    h.held_lt, hphase⟩

/-- A frame within the grant moves bytes from the credit to the ring. -/
theorem Mp3Decoder.CreditInv.recvFrame (h : d.CreditInv) {buffer : List UInt8}
    (hgrant : d.since + buffer.length ≤ d.grant) : (mp3DecoderRecvFrame buffer d).CreditInv := by
  have hrequest := h.accounted.request
  have hunread := h.unread_le
  have hfits : d.ring.used mp3DecoderConfig.bufferSize + buffer.length < 4096 := by
    rw [Mp3Decoder.unread, RingBuffer.length_contents] at hunread
    omega
  have horder := h.order.recvFrame hfits
  obtain ⟨state, tasks, hstate, heq⟩ := d.toDecoderInput.recvFrame_eq mp3DecoderConfig buffer
  have hinput : (mp3DecoderRecvFrame buffer d).toDecoderInput = _ := heq
  have hunread' : (mp3DecoderRecvFrame buffer d).unread.length =
      d.unread.length + buffer.length := by
    rw [Mp3Decoder.unread, hinput, RingBuffer.length_contents]
    have hused := RingBuffer.used_recv h.order.wf hfits
    rwa [Mp3Decoder.unread, RingBuffer.length_contents]
  have hrequest' : (mp3DecoderRecvFrame buffer d).requestDataSize =
      d.requestDataSize - buffer.length := by rw [hinput]
  have hheld : (mp3DecoderRecvFrame buffer d).held = d.held + buffer.length := by
    have hdynamic : (mp3DecoderRecvFrame buffer d).dynamicConsumed = d.dynamicConsumed := by
      rw [hinput]
    rw [Mp3Decoder.held, hunread', hdynamic, Mp3Decoder.held,
      show (mp3DecoderRecvFrame buffer d).staged = d.staged from rfl]
    omega
  have hge := h.held_ge
  have hlt := h.held_lt
  refine ⟨horder, h.accounted.recvFrame _ _, ?_, ?_, ?_, ?_, ?_⟩
  · rw [hinput]
    exact h.grant_le
  · omega
  · omega
  · omega
  · rw [hinput]
    refine h.phase.trans ?_
    obtain rfl | ⟨hidle, rfl⟩ := hstate
    · exact Iff.rfl
    · simp [hidle]

/-- Initialising the engine stages nothing. -/
theorem Mp3Decoder.CreditInv.engineInit (h : d.CreditInv) (hready : d.engineReady = false)
    (uiSize : Fin (2 ^ 31)) :
    ({ mp3DecoderEngineInit uiSize d with state := .initiating } : Mp3Decoder).CreditInv := by
  have horder := h.order.engineInit hready uiSize
  have hstaged : (mp3DecoderEngineInit uiSize d).staged = d.staged := by
    rw [Mp3Decoder.staged, Mp3Decoder.staged, hready]
    apply List.eq_nil_of_length_eq_zero
    simp [mp3DecoderEngineInit, CodecInput.alloc]
  have hheld : (mp3DecoderEngineInit uiSize d).held = d.held := by
    rw [Mp3Decoder.held, hstaged]
    rfl
  refine ⟨⟨horder.wf, horder.waiting, horder.running⟩,
    ⟨h.accounted.request, h.accounted.allReceived⟩, h.grant_le, h.unread_le, ?_, ?_, ?_⟩
  · exact hheld.symm ▸ h.held_ge
  · exact hheld.symm ▸ h.held_lt
  · simp [mp3DecoderEngineInit]

/-- Refilling moves bytes from the ring to the staging buffer. -/
theorem Mp3Decoder.CreditInv.refilled (h : d.CreditInv) (hready : d.engineReady = true)
    {inpBuf : Nat → UInt8} (horder : (d.refilled inpBuf).InOrder) :
    (d.refilled inpBuf).CreditInv := by
  have hread : d.readable ≤ d.unread.length := by
    rw [Mp3Decoder.unread, RingBuffer.length_contents]
    exact CodecInput.readable_le _ _ _
  have hunread : (d.refilled inpBuf).unread.length = d.unread.length - d.readable := by
    rw [Mp3Decoder.unread, Mp3Decoder.unread, RingBuffer.length_contents,
      RingBuffer.length_contents]
    exact RingBuffer.used_advance h.order.wf (CodecInput.readable_le _ _ _)
  have hstaged : (d.refilled inpBuf).staged.length = d.staged.length + d.readable := by
    have hready' : (d.refilled inpBuf).engineReady = true := hready
    rw [Mp3Decoder.staged, Mp3Decoder.staged, if_pos hready', if_pos hready,
      CodecInput.length_staged, CodecInput.length_staged]
    rfl
  have hheld : (d.refilled inpBuf).held = d.held := by
    rw [Mp3Decoder.held, hunread, hstaged, Mp3Decoder.held,
      show (d.refilled inpBuf).dynamicConsumed = d.dynamicConsumed from rfl]
    omega
  have hle := h.unread_le
  refine ⟨horder, ⟨h.accounted.request, h.accounted.allReceived⟩, h.grant_le, ?_, ?_, ?_,
    h.phase⟩
  · show (d.refilled inpBuf).unread.length + d.requestDataSize ≤ 3840
    omega
  · exact hheld.symm ▸ h.held_ge
  · exact hheld.symm ▸ h.held_lt

/-- The codec call moves bytes from the staging buffer to `dynamic_consumed`; a
grant behind it starts again from the bounds. -/
theorem Mp3Decoder.CreditInv.codecCall (h : d.CreditInv) (hready : d.engineReady = true)
    (hzero : d.codec.bytesConsumed = 0) (consume : Consumption) :
    (d.codecCall consume).CreditInv := by
  have horder := h.order.codecCall hready hzero consume
  have hconsumed : (consume d.codec.buffSize).val ≤ d.codec.buffSize :=
    Nat.lt_succ_iff.mp (consume d.codec.buffSize).isLt
  obtain ⟨hring, hstate⟩ :=
    runCode_mp3DecoderApplyCode_frame d.toDecoderInput (consume d.codec.buffSize)
  have hunread : (d.codecCall consume).unread = d.unread :=
    congrArg (RingBuffer.contents mp3DecoderConfig.bufferSize) hring
  have hstaged : d.staged.length = d.codec.buffSize := by
    rw [Mp3Decoder.staged, if_pos hready, CodecInput.length_staged, hzero, Nat.sub_zero]
  have hstaged' : (d.codecCall consume).staged.length =
      d.codec.buffSize - consume d.codec.buffSize := by
    have hready' : (d.codecCall consume).engineReady = true := hready
    rw [Mp3Decoder.staged, if_pos hready', CodecInput.length_staged]
    rfl
  have hsize : d.codec.buffSize < 2 ^ 31 :=
    Nat.lt_of_le_of_lt (h.order.running hready).valid.buff_le (h.order.running hready).valid.size_lt
  have hphase : (d.codecCall consume).engineReady = false ↔
      (d.codecCall consume).state = .idle ∨ (d.codecCall consume).state = .buffering := by
    rw [show (d.codecCall consume).state = d.state from hstate]
    exact h.phase
  have hle := h.unread_le
  have hge := h.held_ge
  have hlt := h.held_lt
  have hheld : d.held = d.unread.length + d.staged.length + d.dynamicConsumed := rfl
  have hheld' : (d.codecCall consume).held = d.unread.length +
      (d.codec.buffSize - consume d.codec.buffSize) + (d.codecCall consume).dynamicConsumed := by
    rw [Mp3Decoder.held, hunread, hstaged']
  have hcode := runCode_mp3DecoderApplyCode d.toDecoderInput (consume d.codec.buffSize)
  split at hcode
  · next hdue =>
      have hinput : (d.codecCall consume).toDecoderInput = _ := hcode
      have hused : d.ring.used 4096 = d.unread.length :=
        (RingBuffer.length_contents 4096 d.ring).symm
      have hrequest : (d.codecCall consume).requestDataSize = mp3Grant d.ring := by rw [hinput]
      have hdynamic : (d.codecCall consume).dynamicConsumed = 0 := by rw [hinput]
      obtain ⟨hpos, hgrant, hgrant'⟩ := mp3Grant_bounds (by omega) hdue.2
      refine ⟨horder, ?_, ?_, ?_, ?_, ?_, hphase⟩
      · rw [hinput]
        exact accounted_fresh hpos rfl rfl rfl rfl
      · rw [hinput]
        show mp3Grant d.ring ≤ 3840
        omega
      · rw [hunread, hrequest]
        omega
      · rw [hheld', hrequest, hdynamic]
        omega
      · rw [hheld', hrequest, hdynamic]
        omega
  · have hinput : (d.codecCall consume).toDecoderInput = _ := hcode
    have hrequest : (d.codecCall consume).requestDataSize = d.requestDataSize := by rw [hinput]
    have hdynamic : (d.codecCall consume).dynamicConsumed =
        d.dynamicConsumed + consume d.codec.buffSize := by
      rw [hinput]
      exact Nat.mod_eq_of_lt (by omega)
    refine ⟨horder, ?_, ?_, ?_, ?_, ?_, hphase⟩
    · rw [hinput]
      exact ⟨h.accounted.request, h.accounted.allReceived⟩
    · rw [hinput]
      exact h.grant_le
    · rw [hunread, hrequest]
      exact hle
    · omega
    · omega

theorem Mp3Decoder.CreditInv.engineDecode (h : d.CreditInv) (hready : d.engineReady = true)
    (consume : Consumption) : (mp3DecoderEngineDecode consume d).CreditInv := by
  obtain ⟨inpBuf, horder, -, hdecode⟩ := mp3DecoderEngine_eq h.order hready
  have hrefilled := h.refilled hready horder
  rw [hdecode]
  split
  · exact hrefilled
  · exact hrefilled.codecCall hready rfl consume

theorem Mp3Decoder.CreditInv.engineStart (h : d.CreditInv) (hready : d.engineReady = true)
    (initDone : Option Nat) (consume : Consumption) :
    (mp3DecoderEngineStart initDone consume d).CreditInv ∧
      (mp3DecoderEngineStart initDone consume d).engineReady = true := by
  obtain ⟨inpBuf, horder, hstart, -⟩ := mp3DecoderEngine_eq h.order hready
  have hrefilled := (h.refilled hready horder).update _ h.phase d.tasks (initDone.getD d.initDone)
  rw [hstart]
  exact ⟨hrefilled.codecCall hready rfl consume, hready⟩

/-- The handler, case by case as they fall through. -/
theorem Mp3Decoder.CreditInv.initiatingCase (h : d.CreditInv) (hready : d.engineReady = true)
    (a : Mp3Answers) : (d.initiatingCase a).CreditInv := by
  obtain ⟨hstart, hready'⟩ := h.engineStart hready a.initDone a.startConsume
  unfold Mp3Decoder.initiatingCase
  generalize mp3DecoderEngineStart a.initDone a.startConsume d = d1 at hstart hready' ⊢
  dsimp only
  split
  · have hdecoding := hstart.update .decoding (by simp [hready']) d1.tasks d1.initDone
    exact hdecoding.engineDecode hready' a.decodeConsume
  · split
    · exact hstart.update _ hstart.phase _ _
    · exact hstart

theorem Mp3Decoder.CreditInv.bufferingCase (h : d.CreditInv) (hready : d.engineReady = false)
    (a : Mp3Answers) : (d.bufferingCase a).CreditInv := by
  unfold Mp3Decoder.bufferingCase
  split
  · exact (h.engineInit hready a.inpSize).initiatingCase rfl a
  · exact h

theorem Mp3Decoder.CreditInv.doDecoderHandler (h : d.CreditInv) (a : Mp3Answers) :
    (mp3DecoderDoDecoderHandler a d).CreditInv := by
  have hphase := h.phase
  unfold mp3DecoderDoDecoderHandler
  cases hstate : d.state with
  | idle =>
      have hready : d.engineReady = false := hphase.mpr (.inl hstate)
      have hbuffering := h.update .buffering (by simp [hready]) d.tasks d.initDone
      exact hbuffering.bufferingCase hready a
  | buffering => exact h.bufferingCase (hphase.mpr (.inr hstate)) a
  | initiating => exact h.initiatingCase (by simpa [hstate] using hphase) a
  | decoding => exact h.engineDecode (by simpa [hstate] using hphase) a.decodeConsume
  | pcmTransmitting => exact h

/-- Every event keeps the invariant. -/
theorem mp3Step_creditInv {e : Mp3Event} (h : d.CreditInv) (hstep : mp3Step d e = some d') :
    d'.CreditInv := by
  cases e with
  | recvFrame buffer =>
      simp only [mp3Step] at hstep
      split at hstep
      · next hgrant => cases hstep; exact h.recvFrame hgrant
      · cases hstep
  | doDecoderHandler a => cases hstep; exact h.doDecoderHandler a
  | prepareForNext =>
      cases hstep
      exact ⟨⟨h.order.wf, h.order.waiting, h.order.running⟩,
        ⟨h.accounted.request, h.accounted.allReceived⟩, h.grant_le, h.unread_le, h.held_ge,
        h.held_lt, h.phase⟩

theorem mp3_run_creditInv (d0 : Mp3Decoder) {es : List Mp3Event}
    (h : run mp3Step (mp3DecoderInit d0) es = some d) : d.CreditInv :=
  run_inv (fun _ _ _ hinv hstep => mp3Step_creditInv hinv hstep) (mp3DecoderInit_creditInv d0) h

/-! ## the sessions -/

/-- The two indexes meet exactly when nothing is unread. -/
theorem Mp3Decoder.InOrder.out_eq_inp_iff (h : d.InOrder) :
    d.ring.out = d.ring.inp ↔ d.unread = [] := by
  rw [← List.length_eq_zero_iff, Mp3Decoder.unread, RingBuffer.length_contents,
    h.wf.used_eq_zero_iff]

/-- A codec that is initialised at once, and consumes up to `start` bytes of the call in
`engine_start` and up to `decode` bytes of the one in `engine_decode`. -/
def Mp3Answers.consuming (start decode : Nat) : Mp3Answers where
  inpSize := ⟨2048, by decide⟩
  initDone := some 1
  startConsume := consumeUpTo start
  decodeConsume := consumeUpTo decode

/-- The first grant arrives, decoding begins and the second grant is sent; that arrives, too, and
a part of it is consumed. -/
def mp3TwoGrants : List Mp3Event :=
  List.replicate 8 (.recvFrame (List.replicate 480 3)) ++
    .doDecoderHandler (.consuming 600 2048) ::
    List.replicate 5 (.recvFrame (List.replicate 512 5)) ++
    [.doDecoderHandler (.consuming 0 500)]

/-- The session has consumed 3148 bytes of two grants. -/
theorem run_mp3TwoGrants : ∃ d, run mp3Step (mp3DecoderInit .zeroed) mp3TwoGrants = some d ∧
    d.unread.length = 1704 ∧ d.dynamicConsumed = 500 ∧ d.grant = 2560 ∧
    d.allRequestDataReceived = true ∧ d.prepForNext = false := by
  have hview : (run mp3Step (mp3DecoderInit .zeroed) mp3TwoGrants).map (fun d =>
      (d.ring.used 4096, d.dynamicConsumed, d.grant, d.allRequestDataReceived,
        d.prepForNext)) = some (1704, 500, 2560, true, false) := by decide +kernel
  obtain ⟨d, hrun, hd⟩ := Option.map_eq_some_iff.mp hview
  simp only [Prod.mk.injEq] at hd
  obtain ⟨hused, hdynamic, hgrant, hall, hprep⟩ := hd
  exact ⟨d, hrun, (RingBuffer.length_contents 4096 d.ring).trans hused, hdynamic, hgrant, hall,
    hprep⟩

/-- **No overflow**: in every session what is unread and what may still arrive
leave 256 bytes of the ring free.  Hence a frame the MCU may send overwrites no
unread byte, the two indexes meet only when everything received has been read,
and the units of a grant, computed from what is then unread, never wrap. -/
theorem mp3_ring_never_overflows (d0 d : Mp3Decoder) (es : List Mp3Event)
    (h : run mp3Step (mp3DecoderInit d0) es = some d) :
    d.unread.length + d.requestDataSize ≤ 4096 - 256 ∧
    (∀ buffer, d.since + buffer.length ≤ d.grant →
      (mp3DecoderRecvFrame buffer d).unread = d.unread ++ buffer) ∧
    (d.ring.out = d.ring.inp ↔ d.codec.consumed ++ d.staged = d.received) ∧
    (∀ leftSpace ≤ d.unread.length,
      mp3DecoderConfig.applyUnit leftSpace + 1 = (4096 - leftSpace) / 256) ∧
    d.grant ≤ 4096 - 256 := by
  have hinv := mp3_run_creditInv d0 h
  have hle := hinv.unread_le
  refine ⟨hle, fun buffer hgrant => ?_, ?_, fun leftSpace hleft => ?_, hinv.grant_le⟩
  · have hrequest := hinv.accounted.request
    have hlength : d.unread.length = d.ring.used 4096 := RingBuffer.length_contents 4096 d.ring
    have hfits : d.ring.used mp3DecoderConfig.bufferSize + buffer.length < 4096 := by
      show d.ring.used 4096 + buffer.length < 4096
      omega
    exact hinv.order.unread_recvFrame hfits
  · rw [hinv.order.out_eq_inp_iff, ← hinv.order.stream]
    exact List.self_eq_append_right.symm
  · rw [mp3_applyUnit_eq (by omega)]
    omega

/-- In the session of two grants. -/
theorem mp3_ring_never_overflows_twoGrants :
    ∃ d, run mp3Step (mp3DecoderInit .zeroed) mp3TwoGrants = some d ∧ d.grant = 2560 ∧
      d.unread.length + d.requestDataSize ≤ 4096 - 256 ∧
      (∀ buffer, d.since + buffer.length ≤ d.grant →
        (mp3DecoderRecvFrame buffer d).unread = d.unread ++ buffer) ∧
      (d.ring.out = d.ring.inp ↔ d.codec.consumed ++ d.staged = d.received) ∧
      (∀ leftSpace ≤ d.unread.length,
        mp3DecoderConfig.applyUnit leftSpace + 1 = (4096 - leftSpace) / 256) ∧
      d.grant ≤ 4096 - 256 := by
  obtain ⟨d, hrun, -, -, hgrant, -⟩ := run_mp3TwoGrants
  exact ⟨d, hrun, hgrant, mp3_ring_never_overflows .zeroed d mp3TwoGrants hrun⟩

/-- **No starvation**: in every session, when all that was granted has arrived
and no end is announced, at least 3585 bytes are unread, staged or consumed
since the grant; so when the input is drained the next request is due. -/
theorem mp3_credit_never_starves (d0 d : Mp3Decoder) (es : List Mp3Event)
    (h : run mp3Step (mp3DecoderInit d0) es = some d)
    (hall : d.allRequestDataReceived = true) (_ : d.prepForNext = false) :
    3585 ≤ d.unread.length + d.staged.length + d.dynamicConsumed ∧
    (d.unread = [] → d.staged = [] → 1024 ≤ d.dynamicConsumed) := by
  have hinv := mp3_run_creditInv d0 h
  have hrequest := hinv.accounted.request
  have hsince := hinv.accounted.allReceived.mp hall
  have hheld := hinv.held_ge
  rw [show d.requestDataSize = 0 by omega, Nat.add_zero, Mp3Decoder.held] at hheld
  refine ⟨hheld, fun hunread hstaged => ?_⟩
  rw [hunread, hstaged, List.length_nil] at hheld
  omega

/-- In the session of two grants, when 500 bytes have been consumed since the second one. -/
theorem mp3_credit_never_starves_twoGrants :
    ∃ d, run mp3Step (mp3DecoderInit .zeroed) mp3TwoGrants = some d ∧ d.dynamicConsumed = 500 ∧
      3585 ≤ d.unread.length + d.staged.length + d.dynamicConsumed ∧
      (d.unread = [] → d.staged = [] → 1024 ≤ d.dynamicConsumed) := by
  obtain ⟨d, hrun, -, hdynamic, -, hall, hprep⟩ := run_mp3TwoGrants
  exact ⟨d, hrun, hdynamic, mp3_credit_never_starves .zeroed d mp3TwoGrants hrun hall hprep⟩

end Fr5080
