import Fr5080.Ipc.Run

/-!
# Fr5080.Ipc.Stall

The list of deferred messages does not stall.  `ipc_msg_sent` is called for a
completed channel only and tries the first message only, and a caller that frees a
channel of its own does not retry the list; so a message may wait while a channel is
available.  What keeps the list going is a channel in flight: its completion is the
next retry.

A message is left waiting, when it is sent or when it is retried, because all channels
it may use are taken.  There are two of them at least, and a caller holds one at
most; so another one is in flight (`inFlight_of_blocked`).

The condition of one holder cannot be dropped: two callers that hold the channels with
a buffer, and free them, leave a message behind that nobody retries.
-/

namespace Fr5080

open Embedded

/-- At most one channel is held by a caller. -/
def OneHeld (held : Nat → Option UInt16) : Prop :=
  ∀ c < ipcChannels, ∀ c' < ipcChannels, (held c).isSome → (held c').isSome → c = c'

instance : DecidablePred OneHeld := fun _ =>
  inferInstanceAs (Decidable (∀ c < ipcChannels, ∀ c' < ipcChannels, _ → _ → c = c'))

/-- The message of some channel is in flight. -/
def Ipc.InFlight (s : Ipc) : Prop := ∃ c < ipcChannels, (s.log.flight c).isSome

/-- Every channel is available, held or in flight. -/
def Ipc.Accounted (held : Nat → Option UInt16) (s : Ipc) : Prop :=
  ∀ c < ipcChannels,
    s.availableBuffer.getLsbD c = true ∨ (held c).isSome ∨ (s.log.flight c).isSome

/-- The list waits for a channel in flight. -/
structure Ipc.Unstalled (held : Nat → Option UInt16) (s : Ipc) : Prop where
  accounted : s.Accounted held
  waiting : s.ipcMsgList ≠ [] → s.InFlight

variable {held : Nat → Option UInt16} {s s' : Ipc}

/-! ## the channel search -/

/-- Every message may use the channels with a buffer. -/
theorem ipcWithLoadChannels_le (length : UInt16) :
    ipcWithLoadChannels ≤ ipcAllocLimit length := by
  unfold ipcAllocLimit
  split <;> decide

/-- A message that finds no channel finds one in flight. -/
theorem inFlight_of_blocked {length : UInt16} (h : s.Accounted held)
    (hone : OneHeld held)
    (hblocked : ipcAllocScan s.availableBuffer (ipcAllocLimit length) = none) : s.InFlight := by
  have hbuffer : ∀ c < ipcWithLoadChannels, c < ipcChannels ∧
      ((held c).isSome ∨ (s.log.flight c).isSome) := by
    intro c hc
    have hlt : c < ipcChannels := Nat.lt_trans hc (by decide)
    have hoff := ipcAllocScan_none hblocked c
      (Nat.lt_of_lt_of_le hc (ipcWithLoadChannels_le length))
    exact ⟨hlt, (h c hlt).resolve_left (by simp [hoff])⟩
  obtain ⟨h0, hheld0 | hflight0⟩ := hbuffer 0 (by decide)
  · obtain ⟨h1, hheld1 | hflight1⟩ := hbuffer 1 (by decide)
    · exact absurd (hone 0 h0 1 h1 hheld0 hheld1) (by decide)
    · exact ⟨1, h1, hflight1⟩
  · exact ⟨0, h0, hflight0⟩

/-- The scan finds a channel of the four. -/
theorem lt_ipcChannels_of_scan {length : UInt16} {availableBuffer : BitVec 8} {c : Nat}
    (h : ipcAllocScan availableBuffer (ipcAllocLimit length) = some c) : c < ipcChannels :=
  Nat.lt_of_lt_of_le (ipcAllocScan_some h).1 (ipcAllocLimit_le length)

/-! ## the functions -/

/-- One channel changes hands, the others stay as they are. -/
theorem Ipc.Accounted.change {held' : Nat → Option UInt16} (h : s.Accounted held) (chn : Nat)
    (hchn : chn < ipcChannels → s'.availableBuffer.getLsbD chn = true ∨ (held' chn).isSome ∨
      (s'.log.flight chn).isSome)
    (hother : ∀ c < ipcChannels, c ≠ chn →
      s'.availableBuffer.getLsbD c = s.availableBuffer.getLsbD c ∧ held' c = held c ∧
        s'.log.flight c = s.log.flight c) : s'.Accounted held' := by
  intro c hc
  by_cases heq : c = chn
  · rw [heq] at hc ⊢
    exact hchn hc
  · obtain ⟨hbit, hheld, hflight⟩ := hother c hc heq
    rw [hbit, hheld, hflight]
    exact h c hc

/-- A channel that is freed is available. -/
theorem getLsbD_ipcFreeChannel {c : Nat} (hc : c < ipcChannels) (chn : Nat) (s : Ipc) :
    (ipcFreeChannel chn s).availableBuffer.getLsbD c =
      (s.availableBuffer.getLsbD c || decide (c = chn)) :=
  getLsbD_give (Nat.lt_trans hc (by decide))

/-- The channel of a transmission is no longer available. -/
theorem getLsbD_transmit {c : Nat} (hc : c < ipcChannels) (ele : IpcMsgElem)
    (data : List UInt8) (chn : Nat) (s : Ipc) :
    (s.transmit ele data chn).availableBuffer.getLsbD c =
      (s.availableBuffer.getLsbD c && !decide (c = chn)) :=
  getLsbD_take (Nat.lt_trans hc (by decide))

/-- Freeing a channel keeps the account. -/
theorem Ipc.Accounted.give (h : s.Accounted held) (chn : Nat) :
    (ipcFreeChannel chn s).Accounted held := by
  refine h.change chn (fun hchn => .inl ?_) fun c hc hne => ⟨?_, rfl, rfl⟩
  · simp [getLsbD_ipcFreeChannel hchn]
  · simp [getLsbD_ipcFreeChannel hc, hne]

/-- A channel that is taken and then in flight is accounted for. -/
theorem Ipc.Accounted.transmit (h : s.Accounted held) (ele : IpcMsgElem) (data : List UInt8)
    (chn : Nat) : (s.transmit ele data chn).Accounted held := by
  refine h.change chn (fun _ => .inr (.inr ?_)) fun c hc hne => ⟨?_, rfl, ?_⟩
  · simp [Ipc.transmit, ipcInsertMsg]
  · simp [getLsbD_transmit hc, hne]
  · simp [Ipc.transmit, ipcInsertMsg, hne]

/-- Behind a transmission there is a message in flight, which will end a wait. -/
theorem Ipc.Accounted.unstalled_transmit (h : s.Accounted held) (ele : IpcMsgElem)
    (data : List UInt8) {chn : Nat} (hchn : chn < ipcChannels) :
    (s.transmit ele data chn).Unstalled held :=
  ⟨h.transmit ele data chn, fun _ => ⟨chn, hchn, by simp [Ipc.transmit, ipcInsertMsg]⟩⟩

/-- A message that is sent or deferred does not stall the queue. -/
theorem Ipc.Unstalled.offer (h : s.Unstalled held) (hone : OneHeld held)
    (m : IpcSubmission) (ele : IpcMsgElem) (data : List UInt8) :
    ((s.submit m).offer ele data).Unstalled held := by
  have haccounted : (s.submit m).Accounted held := h.accounted
  unfold Ipc.offer
  split
  · next chn hscan =>
      exact haccounted.unstalled_transmit ele data (lt_ipcChannels_of_scan hscan)
  · next hscan =>
      exact ⟨haccounted, fun _ => inFlight_of_blocked (s := s) h.accounted hone hscan⟩

/-- `ipc_msg_sent` sends the first message, or leaves it behind a channel in flight. -/
theorem Ipc.Accounted.ipcMsgSent (h : s.Accounted held) (hone : OneHeld held) :
    (ipcMsgSent s).Unstalled held := by
  cases hlist : s.ipcMsgList with
  | nil =>
      rw [ipcMsgSent_nil hlist]
      exact ⟨h, fun hne => absurd hlist hne⟩
  | cons ele rest =>
      rw [ipcMsgSent_cons hlist]
      split
      · next chn hscan =>
          have hrest : Ipc.Accounted held { s with ipcMsgList := rest } := h
          exact hrest.unstalled_transmit ele ele.data (lt_ipcChannels_of_scan hscan)
      · next hscan => exact ⟨h, fun _ => inFlight_of_blocked h hone hscan⟩

/-- A completed channel is available, and the list is retried. -/
theorem Ipc.Unstalled.ipcIsrComplete (h : s.Unstalled held) (hone : OneHeld held) (chn : Nat) :
    (ipcIsrComplete chn s).Unstalled held := by
  have hfree : (ipcFreeChannel chn (s.complete chn)).Accounted held := by
    refine h.accounted.change chn (fun hchn => .inl ?_) fun c hc hne => ⟨?_, rfl, ?_⟩
    · simp [getLsbD_ipcFreeChannel hchn]
    · simp [getLsbD_ipcFreeChannel hc, Ipc.complete, hne]
    · simp [ipcFreeChannel, Ipc.complete, hne]
  have hretry := hfree.ipcMsgSent hone
  unfold Fr5080.ipcIsrComplete
  cases s.txCallback chn with
  | none => exact hretry
  | some callback =>
      cases callback with
      | ipcFreeChannel => exact ⟨Ipc.Accounted.give hretry.accounted chn, hretry.waiting⟩
      | user id => exact ⟨hretry.accounted, hretry.waiting⟩

/-- Neither does an interrupt. -/
theorem Ipc.Unstalled.ipcIsr (h : s.Unstalled held) (hone : OneHeld held) (status : BitVec 32) :
    (ipcIsr status s).Unstalled held :=
  ipcIsr_rule status s (J := fun _ s => s.Unstalled held)
    (fun chn _ _ _ hs => hs.ipcIsrComplete hone chn) (fun _ _ _ _ hs => hs)
    (fun _ _ hs => ⟨hs.accounted, hs.waiting⟩) h

/-! ## runs -/

/-- Nothing waits at the start. -/
theorem unstalled_start (ram shm : Nat → UInt8) (msgIn : Nat → IpcMsg) :
    (ipcStart ram shm msgIn).ipc.Unstalled (ipcStart ram shm msgIn).held := by
  have hall : ∀ c < ipcChannels,
      (BitVec.ofNat 8 ((1 <<< ipcChannels) - 1)).getLsbD c = true := by decide
  exact ⟨fun c hc => Or.inl (hall c hc), fun hne => absurd rfl hne⟩

/-- A step with at most one holder before it. -/
theorem unstalled_step {s s' : IpcSys} {op : IpcOp} (h : s.ipc.Unstalled s.held)
    (hone : OneHeld s.held) (hstep : ipcStep s op = some s') : s'.ipc.Unstalled s'.held := by
  cases ipcStep_transition hstep with
  | offer hoffer => exact h.offer hone _ _ _
  | @take length chn hscan =>
      have hbit : ∀ c < ipcChannels, (s.ipc.availableBuffer &&& ~~~(1#8 <<< chn)).getLsbD c =
          (s.ipc.availableBuffer.getLsbD c && !decide (c = chn)) :=
        fun c hc => getLsbD_take (Nat.lt_trans hc (by decide))
      refine ⟨h.accounted.change chn (fun _ => .inr (.inl ?_)) fun c hc hne => ⟨?_, ?_, rfl⟩,
        h.waiting⟩
      · simp
      · simp [hbit c hc, hne]
      · simp [hne]
  | full hscan => exact h
  | fill hheld hchn => exact ⟨h.accounted, h.waiting⟩
  | @insert chn format length allocLength callback hheld =>
      have hflight : ∀ c, (s.ipc.log.flight c).isSome →
          (Function.update s.ipc.log.flight chn (some s.ipc.nextTicket) c).isSome := by
        intro c hc
        by_cases heq : c = chn <;> simp [heq, hc]
      constructor
      · refine h.accounted.change chn (fun _ => .inr (.inr ?_)) fun c _ hne => ⟨rfl, ?_, ?_⟩
        · simp [ipcInsertMsg]
        · simp [hne]
        · simp [ipcInsertMsg, Ipc.submit, hne]
      · intro hne
        obtain ⟨c, hc, hc'⟩ := h.waiting hne
        exact ⟨c, hc, hflight c hc'⟩
  | @free chn allocLength hheld =>
      refine ⟨h.accounted.change chn (fun hchn => .inl ?_) fun c hc hne => ⟨?_, ?_, rfl⟩,
        h.waiting⟩
      · simp [getLsbD_ipcFreeChannel hchn]
      · simp [getLsbD_ipcFreeChannel hc, hne]
      · simp [hne]
  | isr hflight => exact h.ipcIsr hone _
  | reuse => exact ⟨h.accounted, h.waiting⟩

/-- Nor does any run that holds at most one channel stall the queue. -/
theorem unstalled_run {ram shm : Nat → UInt8} {msgIn : Nat → IpcMsg} {ops : List IpcOp}
    {s : IpcSys} (hone : Stays ipcStep (fun s => OneHeld s.held) (ipcStart ram shm msgIn) ops)
    (hrun : run ipcStep (ipcStart ram shm msgIn) ops = some s) : s.ipc.Unstalled s.held :=
  (run_inv_of_stays (fun _ _ _ h hone _ hstep => unstalled_step h hone hstep)
    (unstalled_start ram shm msgIn) (fun _ _ _ _ hheld => by cases hheld) hone hrun).1

/-- The interrupt that completes a channel in flight can come. -/
theorem ipcStep_isr_of_flight {s : IpcSys} {chn : Nat}
    (hflight : (s.ipc.log.flight chn).isSome) :
    ipcStep s (.isr (1#32 <<< (12 + chn))) =
      some { s with ipc := ipcIsr (1#32 <<< (12 + chn)) s.ipc } := by
  refine if_pos fun c hc hbit => ?_
  have hfour : ipcChannels = 4 := rfl
  have heq : c = chn := by
    simp only [BitVec.getLsbD_shiftLeft, BitVec.getLsbD_one] at hbit
    grind
  rwa [heq]

/-- As long as at most one channel is held by a caller, a message in the list waits for a channel
in flight, and the interrupt that completes it can still come. -/
theorem queue_never_stalls (ram shm : Nat → UInt8) (msgIn : Nat → IpcMsg) (ops : List IpcOp)
    (s : IpcSys) (hone : Stays ipcStep (fun s => OneHeld s.held) (ipcStart ram shm msgIn) ops)
    (hrun : run ipcStep (ipcStart ram shm msgIn) ops = some s) (hlist : s.ipc.ipcMsgList ≠ []) :
    ∃ chn < ipcChannels, (s.ipc.log.flight chn).isSome ∧
      (ipcStep s (.isr (1#32 <<< (12 + chn)))).isSome := by
  obtain ⟨chn, hchn, hflight⟩ := (unstalled_run hone hrun).waiting hlist
  exact ⟨chn, hchn, hflight, by rw [ipcStep_isr_of_flight hflight]; rfl⟩

/-- A caller holds channel 1 while a payload is in flight on channel 0 and a second
payload waits; then it frees the channel, which does not retry the list. -/
def heldHead : List IpcOp :=
  [.allocChannel 300, .msgWithPayloadSend .rawFrame 0 2 16 4 none,
    .msgWithPayloadSend .rawFrame 0 2 16 4 none, .freeChannel 1]

theorem queue_never_stalls_heldHead :
    ∃ s, run ipcStep (ipcStart (fun _ => 0) (fun _ => 0) fun _ => ⟨0, 0, 0, 0⟩) heldHead = some s ∧
      ∃ chn < ipcChannels, (s.ipc.log.flight chn).isSome ∧
        (ipcStep s (.isr (1#32 <<< (12 + chn)))).isSome :=
  ⟨_, rfl, queue_never_stalls (fun _ => 0) (fun _ => 0) (fun _ => ⟨0, 0, 0, 0⟩) heldHead _
    (by decide) rfl (by decide)⟩

/-- Two callers hold the channels with a buffer: the message is left with nothing in flight. -/
example :
    (run ipcStep (ipcStart (fun _ => 0) (fun _ => 0) fun _ => ⟨0, 0, 0, 0⟩)
      [.allocChannel 300, .allocChannel 300, .msgWithPayloadSend .rawFrame 0 2 16 4 none,
        .freeChannel 0, .freeChannel 1]).map
      (fun s => (s.ipc.ipcMsgList.length, s.ipc.availableBuffer)) = some (1, 15#8) := by
  decide

end Fr5080
