import Mathlib.Data.List.Perm.Basic
import Mathlib.Data.List.Nodup
import Mathlib.Data.List.Range
import Fr5080.Ipc.Delivery

/-!
# Fr5080.Ipc.Ownership

Who owns a channel.  At every step of a run each channel is available, held
by a caller or in flight, and `available_buffer` has exactly the bits of the
available ones (`Ipc.Owned.exclusive`).  What follows from it: a message
register is never overwritten while the MCU still works on it, payload
messages stay on the channels with a buffer, and the callback of a message is
called exactly once, with the channel of the message, when it completes.

`Ipc.Owned` is kept by each transition of `Fr5080.Ipc.Run` — taking a
channel, giving it back, transmitting, completing — and `Ipc.Called` relates
the calls of `ipc_isr` to the completions.  Callbacks of the application leave
the driver alone; `ipc_free_channel` as a callback frees the channel a second
time, which is harmless as long as the retry has not put a waiting message on
it (`FreesOnce`).
-/

namespace Fr5080

open Embedded

/-! ## tables of channels -/

/-- What is left of a table after the entry of `c` has been cleared. -/
theorem eq_some_of_update_none {α : Type} {f : Nat → Option α} {c j : Nat} {u : α}
    (h : Function.update f c none j = some u) : j ≠ c ∧ f j = some u := by
  by_cases heq : j = c
  · rw [heq, Function.update_self] at h
    cases h
  · rw [Function.update_of_ne heq] at h
    exact ⟨heq, h⟩

/-- A table after the entry of `c` has been set. -/
theorem eq_some_of_update_some {α : Type} {f : Nat → Option α} {c j : Nat} {t u : α}
    (h : Function.update f c (some t) j = some u) : j = c ∧ t = u ∨ j ≠ c ∧ f j = some u := by
  by_cases heq : j = c
  · rw [heq, Function.update_self] at h
    exact .inl ⟨heq, Option.some.inj h⟩
  · rw [Function.update_of_ne heq] at h
    exact .inr ⟨heq, h⟩

/-! ## messages in flight -/

/-- The messages in flight, by channel. -/
def Ipc.flightTickets (s : Ipc) : List Nat := (List.range ipcChannels).filterMap s.log.flight

/-- Clearing the channel of message `t` removes it from the messages in flight. -/
theorem filterMap_update_none {l : List Nat} (hl : l.Nodup) {f : Nat → Option Nat} {c t : Nat}
    (hc : c ∈ l) (ht : f c = some t) :
    (l.filterMap f).Perm (t :: l.filterMap (Function.update f c none)) := by
  have hperm := List.perm_cons_erase hc
  have hrest : (l.erase c).filterMap f = (l.erase c).filterMap (Function.update f c none) := by
    apply List.filterMap_congr
    intro x hx
    have hne : x ≠ c := fun hxc => by
      rw [hxc] at hx
      exact hl.not_mem_erase hx
    rw [Function.update_of_ne hne]
  have h1 := hperm.filterMap f
  have h2 := hperm.filterMap (Function.update f c none)
  rw [List.filterMap_cons_some ht, hrest] at h1
  rw [List.filterMap_cons_none (Function.update_self c none f)] at h2
  exact h1.trans (h2.symm.cons t)

theorem flightTickets_clear {f : Nat → Option Nat} {c t : Nat} (hc : c < ipcChannels)
    (ht : f c = some t) :
    ((List.range ipcChannels).filterMap f).Perm
      (t :: (List.range ipcChannels).filterMap (Function.update f c none)) :=
  filterMap_update_none List.nodup_range (List.mem_range.mpr hc) ht

theorem flightTickets_set {f : Nat → Option Nat} {c t : Nat} (hc : c < ipcChannels)
    (hnone : f c = none) :
    ((List.range ipcChannels).filterMap (Function.update f c (some t))).Perm
      ((List.range ipcChannels).filterMap f ++ [t]) := by
  have h := flightTickets_clear (f := Function.update f c (some t)) hc (Function.update_self ..)
  rw [Function.update_idem, ← hnone, Function.update_eq_self] at h
  exact h.trans (List.perm_append_singleton t _).symm

/-! ## the invariant -/

/-- Exactly one of: the channel is available, a caller holds it, its message
is in flight. -/
def OneOwner (available held inFlight : Prop) : Prop :=
  (available ∧ ¬ held ∧ ¬ inFlight) ∨ (¬ available ∧ held ∧ ¬ inFlight) ∨
    (¬ available ∧ ¬ held ∧ inFlight)

/-- Channel ownership, for the channels `held` by callers. -/
structure Ipc.Owned (held : Nat → Option UInt16) (s : Ipc) : Prop where
  exclusive : ∀ c < ipcChannels,
    OneOwner (s.availableBuffer.getLsbD c = true) ((held c).isSome) ((s.log.flight c).isSome)
  outside : ∀ c, ipcChannels ≤ c → held c = none ∧ s.log.flight c = none
  heldClass : ∀ c length, held c = some length → length ≠ 0 → c < ipcWithLoadChannels
  callback : ∀ c t, s.log.flight c = some t →
    ∃ m, s.log.submitted[t]? = some m ∧ s.txCallback c = m.callback
  sentClass : ∀ t ∈ s.log.sent, ∃ m, s.log.submitted[t.ticket]? = some m ∧
    (m.allocLength ≠ 0 → t.chn < ipcWithLoadChannels)
  sentFree : ∀ t ∈ s.log.sent, t.displaced = none
  flightSent : ∀ c t, s.log.flight c = some t → ∃ w ∈ s.log.sent, w.ticket = t ∧ w.chn = c
  completedSent : ∀ p ∈ s.log.completed, ∃ w ∈ s.log.sent, w.ticket = p.1 ∧ w.chn = p.2
  tickets : s.sentTickets.Perm (s.log.completed.map Prod.fst ++ s.flightTickets)

variable {held : Nat → Option UInt16} {s : Ipc}

/-- A free channel is neither held nor in flight. -/
theorem Ipc.Owned.of_available (h : s.Owned held) {c : Nat} (hc : c < ipcChannels)
    (hbit : s.availableBuffer.getLsbD c = true) : held c = none ∧ s.log.flight c = none := by
  obtain ⟨_, h1, h2⟩ | ⟨h0, _⟩ | ⟨h0, _⟩ := h.exclusive c hc
  · simpa using And.intro h1 h2
  · exact absurd hbit h0
  · exact absurd hbit h0

/-- A held channel is one of the four, not free and not in flight. -/
theorem Ipc.Owned.of_held (h : s.Owned held) {c : Nat} {length : UInt16}
    (hheld : held c = some length) :
    c < ipcChannels ∧ s.availableBuffer.getLsbD c = false ∧ s.log.flight c = none := by
  have hc : c < ipcChannels := by
    apply Nat.lt_of_not_le
    intro hle
    rw [(h.outside c hle).1] at hheld
    cases hheld
  refine ⟨hc, ?_⟩
  obtain ⟨_, h1, _⟩ | ⟨h0, _, h2⟩ | ⟨_, h1, _⟩ := h.exclusive c hc
  · simp [hheld] at h1
  · simpa using And.intro h0 h2
  · simp [hheld] at h1

/-- A channel in flight is one of the four, not free and not held. -/
theorem Ipc.Owned.of_flight (h : s.Owned held) {c t : Nat} (hflight : s.log.flight c = some t) :
    c < ipcChannels ∧ s.availableBuffer.getLsbD c = false ∧ held c = none := by
  have hc : c < ipcChannels := by
    apply Nat.lt_of_not_le
    intro hle
    rw [(h.outside c hle).2] at hflight
    cases hflight
  refine ⟨hc, ?_⟩
  obtain ⟨_, _, h2⟩ | ⟨_, _, h2⟩ | ⟨h0, h1, _⟩ := h.exclusive c hc
  · simp [hflight] at h2
  · simp [hflight] at h2
  · simpa using And.intro h0 h1

/-! ## the transitions keep it -/

/-- Ownership only depends on the channels and the history. -/
theorem Ipc.Owned.frame (h : s.Owned held) (s' : Ipc)
    (havail : s'.availableBuffer = s.availableBuffer) (hcb : s'.txCallback = s.txCallback)
    (hflight : s'.log.flight = s.log.flight) (hsub : s'.log.submitted = s.log.submitted)
    (hsent : s'.log.sent = s.log.sent) (hdone : s'.log.completed = s.log.completed) :
    s'.Owned held := by
  constructor
  · rw [havail, hflight]; exact h.exclusive
  · rw [hflight]; exact h.outside
  · exact h.heldClass
  · rw [hflight, hsub, hcb]; exact h.callback
  · rw [hsent, hsub]; exact h.sentClass
  · rw [hsent]; exact h.sentFree
  · rw [hflight, hsent]; exact h.flightSent
  · rw [hdone, hsent]; exact h.completedSent
  · rw [Ipc.sentTickets, Ipc.flightTickets, hsent, hdone, hflight]; exact h.tickets

/-- A new message changes no owner. -/
theorem Ipc.Owned.submit (h : s.Owned held) (m : IpcSubmission) : (s.submit m).Owned held where
  exclusive := h.exclusive
  outside := h.outside
  heldClass := h.heldClass
  callback := by
    intro c t ht
    obtain ⟨m', hm', hcb⟩ := h.callback c t ht
    exact ⟨m', getElem?_submit hm', hcb⟩
  sentClass := by
    intro t ht
    obtain ⟨m', hm', hclass⟩ := h.sentClass t ht
    exact ⟨m', getElem?_submit hm', hclass⟩
  sentFree := h.sentFree
  flightSent := h.flightSent
  completedSent := h.completedSent
  tickets := h.tickets

/-- `ipc_insert_msg` puts a channel that is neither free nor in flight, and
that nobody holds any more, in flight. -/
theorem Ipc.Owned.insert {ticket chn : Nat} {format : UInt8} {length : UInt16}
    {callback : Option IpcTxCallback} {m : IpcSubmission} {held' : Nat → Option UInt16}
    (h : s.Owned held') (hchn : chn < ipcChannels) (hheld' : held' chn ≠ none)
    (hheld : held = Function.update held' chn none)
    (hm : s.log.submitted[ticket]? = some m) (hcb : m.callback = callback)
    (hclass : m.allocLength ≠ 0 → chn < ipcWithLoadChannels) :
    (ipcInsertMsg ticket chn format length callback s).Owned held := by
  obtain ⟨len, hlen⟩ := Option.ne_none_iff_exists'.mp hheld'
  obtain ⟨_, hbit, hfree⟩ := h.of_held hlen
  subst hheld
  constructor
  · intro c hc
    show OneOwner (s.availableBuffer.getLsbD c = true) _
      ((Function.update s.log.flight chn (some ticket) c).isSome)
    by_cases heq : c = chn
    · subst heq
      rw [Function.update_self, Function.update_self, hbit]
      exact .inr (.inr (by simp))
    · rw [Function.update_of_ne heq, Function.update_of_ne heq]
      exact h.exclusive c hc
  · intro c hc
    have hne : c ≠ chn := by omega
    show Function.update held' chn none c = none ∧
      Function.update s.log.flight chn (some ticket) c = none
    rw [Function.update_of_ne hne, Function.update_of_ne hne]
    exact h.outside c hc
  · intro c l hl hne
    exact h.heldClass c l (eq_some_of_update_none hl).2 hne
  · intro c t ht
    change Function.update s.log.flight chn (some ticket) c = some t at ht
    show ∃ m, s.log.submitted[t]? = some m ∧
      Function.update s.txCallback chn callback c = m.callback
    obtain ⟨rfl, rfl⟩ | ⟨hne, ht⟩ := eq_some_of_update_some ht
    · exact ⟨m, hm, by rw [Function.update_self, hcb]⟩
    · rw [Function.update_of_ne hne]
      exact h.callback c t ht
  · intro t ht
    obtain ht | ht := List.mem_append.mp ht
    · exact h.sentClass t ht
    · rw [List.mem_singleton] at ht
      subst ht
      exact ⟨m, hm, hclass⟩
  · intro t ht
    obtain ht | ht := List.mem_append.mp ht
    · exact h.sentFree t ht
    · rw [List.mem_singleton] at ht
      subst ht
      exact hfree
  · intro c t ht
    change Function.update s.log.flight chn (some ticket) c = some t at ht
    obtain ⟨rfl, rfl⟩ | ⟨-, ht⟩ := eq_some_of_update_some ht
    · exact ⟨_, List.mem_append_right _ List.mem_cons_self, rfl, rfl⟩
    · obtain ⟨w, hw, hwt⟩ := h.flightSent c t ht
      exact ⟨w, List.mem_append_left _ hw, hwt⟩
  · intro p hp
    obtain ⟨w, hw, hwt⟩ := h.completedSent p hp
    exact ⟨w, List.mem_append_left _ hw, hwt⟩
  · rw [sentTickets_insert]
    have hset := flightTickets_set (t := ticket) hchn hfree
    show (s.sentTickets ++ [ticket]).Perm (s.log.completed.map Prod.fst ++ _)
    refine (h.tickets.append_right [ticket]).trans ?_
    rw [List.append_assoc]
    exact List.Perm.append_left _ hset.symm

/-- `ipc_alloc_channel` makes the caller the holder of the channel found. -/
theorem Ipc.Owned.take (h : s.Owned held) {c : Nat} {length : UInt16}
    (hscan : ipcAllocScan s.availableBuffer (ipcAllocLimit length) = some c) :
    ({ s with availableBuffer := s.availableBuffer &&& ~~~(1#8 <<< c) } : Ipc).Owned
      (Function.update held c (some length)) := by
  obtain ⟨hlimit, hbit⟩ := ipcAllocScan_some hscan
  have hle := ipcAllocLimit_le length
  have hchn : ipcChannels = 4 := rfl
  obtain ⟨_, hfree⟩ := h.of_available (Nat.lt_of_lt_of_le hlimit hle) hbit
  constructor
  · intro j hj
    show OneOwner ((s.availableBuffer &&& ~~~(1#8 <<< c)).getLsbD j = true) _
      ((s.log.flight j).isSome)
    rw [getLsbD_take (by omega)]
    by_cases heq : j = c
    · rw [heq, Function.update_self, hfree]
      exact .inr (.inl (by simp))
    · rw [Function.update_of_ne heq]
      simpa [heq] using h.exclusive j hj
  · intro j hj
    rw [Function.update_of_ne (by omega)]
    exact h.outside j hj
  · intro j l hl hne
    obtain ⟨rfl, rfl⟩ | ⟨-, hl⟩ := eq_some_of_update_some hl
    · rw [ipcAllocLimit_of_ne_zero hne] at hlimit
      exact hlimit
    · exact h.heldClass j l hl hne
  · exact h.callback
  · exact h.sentClass
  · exact h.sentFree
  · exact h.flightSent
  · exact h.completedSent
  · exact h.tickets

/-- `ipc_free_channel` of the holder makes its channel available. -/
theorem Ipc.Owned.give (h : s.Owned held) {c : Nat} {length : UInt16}
    (hheld : held c = some length) :
    (ipcFreeChannel c s).Owned (Function.update held c none) := by
  obtain ⟨hc, _, hfree⟩ := h.of_held hheld
  have hchn : ipcChannels = 4 := rfl
  constructor
  · intro j hj
    show OneOwner ((s.availableBuffer ||| (1#8 <<< c)).getLsbD j = true) _
      ((s.log.flight j).isSome)
    rw [getLsbD_give (by omega)]
    by_cases heq : j = c
    · rw [heq, Function.update_self, hfree]
      exact .inl (by simp)
    · rw [Function.update_of_ne heq]
      simpa [heq] using h.exclusive j hj
  · intro j hj
    rw [Function.update_of_ne (by omega)]
    exact h.outside j hj
  · intro j l hl hne
    exact h.heldClass j l (eq_some_of_update_none hl).2 hne
  · intro j t ht
    have hne : j ≠ c := fun heq => by
      rw [heq] at ht
      exact absurd (hfree.symm.trans ht) (by simp)
    show ∃ m, s.log.submitted[t]? = some m ∧ Function.update s.txCallback c none j = m.callback
    rw [Function.update_of_ne hne]
    exact h.callback j t ht
  · exact h.sentClass
  · exact h.sentFree
  · exact h.flightSent
  · exact h.completedSent
  · exact h.tickets

/-- A completed channel becomes available. -/
theorem Ipc.Owned.complete (h : s.Owned held) {c t : Nat} (hflight : s.log.flight c = some t) :
    (ipcFreeChannel c (s.complete c)).Owned held := by
  obtain ⟨hc, _, hheld⟩ := h.of_flight hflight
  have hchn : ipcChannels = 4 := rfl
  constructor
  · intro j hj
    show OneOwner ((s.availableBuffer ||| (1#8 <<< c)).getLsbD j = true) _
      ((Function.update s.log.flight c none j).isSome)
    rw [getLsbD_give (by omega)]
    by_cases heq : j = c
    · rw [heq, Function.update_self, hheld]
      exact .inl (by simp)
    · rw [Function.update_of_ne heq]
      simpa [heq] using h.exclusive j hj
  · intro j hj
    show held j = none ∧ Function.update s.log.flight c none j = none
    rw [Function.update_of_ne (by omega)]
    exact h.outside j hj
  · exact h.heldClass
  · intro j u hu
    change Function.update s.log.flight c none j = some u at hu
    show ∃ m, s.log.submitted[u]? = some m ∧ Function.update s.txCallback c none j = m.callback
    obtain ⟨hne, hu⟩ := eq_some_of_update_none hu
    rw [Function.update_of_ne hne]
    exact h.callback j u hu
  · exact h.sentClass
  · exact h.sentFree
  · intro j u hu
    change Function.update s.log.flight c none j = some u at hu
    exact h.flightSent j u (eq_some_of_update_none hu).2
  · intro p hp
    change p ∈ s.log.completed ++ (s.log.flight c).toList.map (·, c) at hp
    obtain hp | hp := List.mem_append.mp hp
    · exact h.completedSent p hp
    · rw [hflight, Option.toList_some, List.map_singleton, List.mem_singleton] at hp
      subst hp
      exact h.flightSent c t hflight
  · show s.sentTickets.Perm ((s.log.completed ++ (s.log.flight c).toList.map (·, c)).map Prod.fst ++
      (List.range ipcChannels).filterMap (Function.update s.log.flight c none))
    rw [hflight, Option.toList_some, List.map_singleton, List.map_append, List.map_singleton,
      List.append_assoc]
    exact h.tickets.trans (List.Perm.append_left _ (flightTickets_clear hc hflight))

/-- Writing a deferred or new message to the free channel found for it. -/
theorem Ipc.Owned.transmit (h : s.Owned held) {ele : IpcMsgElem} {m : IpcSubmission}
    {data : List UInt8} {c : Nat}
    (hscan : ipcAllocScan s.availableBuffer (ipcAllocLimit ele.allocLength) = some c)
    (hm : s.log.submitted[ele.ticket]? = some m) (hele : ele.Carries m) :
    (s.transmit ele data c).Owned held := by
  obtain ⟨hlimit, hbit⟩ := ipcAllocScan_some hscan
  have hc : c < ipcChannels := Nat.lt_of_lt_of_le hlimit (ipcAllocLimit_le _)
  have hheld : held c = none := (h.of_available hc hbit).1
  -- between `ipc_alloc_channel` and `ipc_insert_msg` the driver itself is the holder
  have htake := (h.take hscan).frame { s with
    availableBuffer := s.availableBuffer &&& ~~~(1#8 <<< c)
    shm := Embedded.store s.shm (ipcGetBufferOffset .dsp2mcu c) data } rfl rfl rfl rfl rfl rfl
  refine htake.insert hc (by simp) ?_ hm hele.2.1 ?_
  · rw [Function.update_idem, ← hheld, Function.update_eq_self]
  · intro hne
    have hlen : m.allocLength = ele.allocLength.toNat := hele.allocLength_eq
    have hne' : ele.allocLength ≠ 0 := fun hzero => hne (by rw [hlen, hzero]; rfl)
    rw [ipcAllocLimit_of_ne_zero hne'] at hlimit
    exact hlimit

/-- A new message is written to a free channel or waits. -/
theorem Ipc.Owned.offer (h : s.Owned held) {ele : IpcMsgElem} {m : IpcSubmission}
    {data : List UInt8} (hticket : ele.ticket = s.nextTicket) (hele : ele.Carries m) :
    ((s.submit m).offer ele data).Owned held := by
  have hsub := h.submit m
  have hm : (s.submit m).log.submitted[ele.ticket]? = some m := by
    rw [hticket]
    exact List.getElem?_concat_length
  unfold Ipc.offer
  split
  · next c hscan => exact hsub.transmit hscan hm hele
  · exact hsub.frame _ rfl rfl rfl rfl rfl rfl

/-- `ipc_msg_sent` keeps the owners. -/
theorem Ipc.Owned.ipcMsgSent (h : s.Owned held) (hrec : s.Recorded) :
    (ipcMsgSent s).Owned held := by
  refine ipcMsgSent_rule h ?_
  intro ele rest c hlist hscan
  obtain ⟨m, hm, hele⟩ := hrec.queued ele (by rw [hlist]; exact List.mem_cons_self)
  have hpop := h.frame { s with ipcMsgList := rest } rfl rfl rfl rfl rfl rfl
  exact hpop.transmit hscan hm hele

/-! ## callbacks -/

/-- The call due for the completion of message `p.1` on channel `p.2`. -/
def ipcCallDue (submitted : List IpcSubmission) (p : Nat × Nat) : Option IpcCall :=
  (submitted[p.1]?.bind (·.callback)).map fun callback => ⟨some p.1, p.2, callback⟩

/-- The calls made so far are those due for the completions so far, in order. -/
def Ipc.Called (s : Ipc) : Prop :=
  s.log.called = s.log.completed.filterMap (ipcCallDue s.log.submitted)

/-- Only the history of submissions, completions and calls matters. -/
theorem Ipc.Called.frame {s' : Ipc} (h : s.Called) (hcalled : s'.log.called = s.log.called)
    (hdone : s'.log.completed = s.log.completed) (hsub : s'.log.submitted = s.log.submitted) :
    s'.Called := by
  unfold Ipc.Called
  rw [hcalled, hdone, hsub]
  exact h

/-- A completed message is a submitted one. -/
theorem Ipc.Owned.completed_submitted (h : s.Owned held) {p : Nat × Nat}
    (hp : p ∈ s.log.completed) : ∃ m, s.log.submitted[p.1]? = some m := by
  obtain ⟨w, hw, hticket, _⟩ := h.completedSent p hp
  obtain ⟨m, hm, _⟩ := h.sentClass w hw
  exact ⟨m, by rw [← hticket, hm]⟩

/-- A new message makes no call due. -/
theorem Ipc.Called.submit (h : s.Called) (hown : s.Owned held) {s' : Ipc} {m : IpcSubmission}
    (hcalled : s'.log.called = s.log.called) (hdone : s'.log.completed = s.log.completed)
    (hsub : s'.log.submitted = s.log.submitted ++ [m]) : s'.Called := by
  unfold Ipc.Called
  rw [hcalled, hdone, hsub, h]
  apply List.filterMap_congr
  intro p hp
  obtain ⟨m', hm'⟩ := hown.completed_submitted hp
  simp only [ipcCallDue, hm', getElem?_submit hm']

/-- `ipc_msg_sent` leaves what is in flight in flight. -/
theorem ipcMsgSent_flight {s : Ipc} {c : Nat} (h : (s.log.flight c).isSome) :
    ((ipcMsgSent s).log.flight c).isSome := by
  refine ipcMsgSent_rule (P := fun s' => (s'.log.flight c).isSome) h ?_
  intro ele rest chn _ _
  show (Function.update s.log.flight chn (some ele.ticket) c).isSome
  by_cases heq : c = chn
  · rw [heq, Function.update_self]; rfl
  · rw [Function.update_of_ne heq]; exact h

/-! ## the second release -/

/-- Once channel `c` is free, the retry puts the head of the list on it. -/
def Ipc.RetryTakes (s : Ipc) (c : Nat) : Prop :=
  ∃ ele rest, s.ipcMsgList = ele :: rest ∧
    ipcAllocScan (s.availableBuffer ||| (1#8 <<< c)) (ipcAllocLimit ele.allocLength) = some c

/-- If the callback of channel `c` is `ipc_free_channel`, the retry leaves the
channel free. -/
def Ipc.FreedOnce (s : Ipc) (c : Nat) : Prop :=
  s.txCallback c = some .ipcFreeChannel → ¬ s.RetryTakes c

/-- `Ipc.FreedOnce` for the completions of the status word on the channels of
the list, each in the state it finds. -/
def IsrFreesOnce (status : BitVec 32) : List Nat → Ipc → Prop
  | [], _ => True
  | chn :: chns, s => (status.getLsbD (12 + chn) → s.FreedOnce chn) ∧
      IsrFreesOnce status chns (ipcIsrMsgOut status chn s)

/-- The condition on a step: no completion releases a channel in use. -/
def FreesOnce (s : IpcSys) : IpcOp → Prop
  | .isr status => IsrFreesOnce status (List.range ipcChannels) s.ipc
  | _ => True

theorem drop_range {n chn : Nat} (h : chn < n) :
    (List.range n).drop chn = chn :: (List.range n).drop (chn + 1) := by
  rw [List.drop_eq_getElem_cons (by simpa using h), List.getElem_range]

/-- A channel left alone by the retry is free and has no callback. -/
theorem retry_leaves {c : Nat} (hc : c < ipcChannels) (h : ¬ s.RetryTakes c) :
    (ipcMsgSent (ipcFreeChannel c (s.complete c))).availableBuffer.getLsbD c = true ∧
      (ipcMsgSent (ipcFreeChannel c (s.complete c))).txCallback c = none := by
  have hchn : ipcChannels = 4 := rfl
  have hfree : (s.availableBuffer ||| (1#8 <<< c)).getLsbD c = true := by
    rw [getLsbD_give (by omega)]
    simp
  have hnone : (Function.update s.txCallback c none) c = none := Function.update_self ..
  refine ipcMsgSent_rule (P := fun s' => s'.availableBuffer.getLsbD c = true ∧
    s'.txCallback c = none) ⟨hfree, hnone⟩ ?_
  intro ele rest chn hlist hscan
  have hne : c ≠ chn := by
    intro heq
    rw [← heq] at hscan
    exact h ⟨ele, rest, hlist, hscan⟩
  constructor
  · show ((s.availableBuffer ||| (1#8 <<< c)) &&& ~~~(1#8 <<< chn)).getLsbD c = true
    rw [getLsbD_take (by omega), hfree]
    simp [hne]
  · show Function.update (Function.update s.txCallback c none) chn ele.callback c = none
    rw [Function.update_of_ne hne, hnone]

/-- Freeing a free channel without a callback changes nothing. -/
theorem ipcFreeChannel_of_free {c : Nat} (hbit : s.availableBuffer.getLsbD c = true)
    (hcb : s.txCallback c = none) : ipcFreeChannel c s = s := by
  have havail : s.availableBuffer ||| (1#8 <<< c) = s.availableBuffer := by
    apply BitVec.eq_of_getLsbD_eq
    intro j hj
    rw [getLsbD_give hj]
    by_cases heq : j = c
    · rw [heq, hbit]
      rfl
    · simp [heq]
  unfold ipcFreeChannel
  rw [havail, ← hcb, Function.update_eq_self]

theorem ipcTxCall_of_free {c : Nat} {ticket : Option Nat}
    (hbit : s.availableBuffer.getLsbD c = true) (hcb : s.txCallback c = none) :
    ipcTxCall .ipcFreeChannel ticket c s = { s with
      log := { s.log with called := s.log.called ++ [⟨ticket, c, .ipcFreeChannel⟩] } } :=
  ipcFreeChannel_of_free (s := { s with
    log := { s.log with called := s.log.called ++ [⟨ticket, c, .ipcFreeChannel⟩] } }) hbit hcb

/-- A call of the callback, when `ipc_free_channel` finds its channel free,
only leaves its trace in the log. -/
theorem ipcIsrComplete_eq {c : Nat} (hc : c < ipcChannels) (h : s.FreedOnce c) :
    ipcIsrComplete c s =
      { ipcMsgSent (ipcFreeChannel c (s.complete c)) with
        log := { (ipcMsgSent (ipcFreeChannel c (s.complete c))).log with
          called := (ipcMsgSent (ipcFreeChannel c (s.complete c))).log.called ++
            (s.txCallback c).toList.map fun callback => ⟨s.log.flight c, c, callback⟩ } } := by
  unfold ipcIsrComplete
  cases hcb : s.txCallback c with
  | none => simp
  | some callback =>
      cases callback with
      | user id => rfl
      | ipcFreeChannel =>
          obtain ⟨hbit, hnone⟩ := retry_leaves hc (h hcb)
          exact ipcTxCall_of_free hbit hnone

/-! ## every run -/

/-- Ownership together with the account of messages and calls. -/
structure Ipc.Inv (held : Nat → Option UInt16) (s : Ipc) : Prop where
  owned : s.Owned held
  recorded : s.Recorded
  called : s.Called

/-- The callback of the completed message is called, once, with its channel. -/
theorem Ipc.Inv.ipcIsrComplete (h : s.Inv held) {c t : Nat} (hflight : s.log.flight c = some t)
    (hfreed : s.FreedOnce c) : (ipcIsrComplete c s).Inv held := by
  obtain ⟨howned, hrec, hcalled⟩ := h
  obtain ⟨m, hm, hcb⟩ := howned.callback c t hflight
  have hfree := howned.complete hflight
  have hfreeRec : (ipcFreeChannel c (s.complete c)).Recorded := hrec.frame rfl rfl rfl
  have hsent := hfree.ipcMsgSent hfreeRec
  obtain ⟨hlogCalled, hlogDone, hlogSub⟩ := ipcMsgSent_log (ipcFreeChannel c (s.complete c))
  rw [ipcIsrComplete_eq (howned.of_flight hflight).1 hfreed]
  refine ⟨hsent.frame _ rfl rfl rfl rfl rfl rfl, hfreeRec.ipcMsgSent.frame rfl rfl rfl, ?_⟩
  have hdone : (ipcFreeChannel c (s.complete c)).log.completed = s.log.completed ++ [(t, c)] := by
    show s.log.completed ++ (s.log.flight c).toList.map (·, c) = _
    rw [hflight]
    rfl
  have hcall : (ipcFreeChannel c (s.complete c)).log.called = s.log.called := rfl
  have hsub : (ipcFreeChannel c (s.complete c)).log.submitted = s.log.submitted := rfl
  unfold Ipc.Called
  simp only [hlogCalled, hlogDone, hlogSub, hdone, hcall, hsub]
  rw [hcalled, List.filterMap_append, hflight, hcb]
  have hdue : ipcCallDue s.log.submitted (t, c) = m.callback.map fun cb => ⟨some t, c, cb⟩ := by
    simp only [ipcCallDue, hm, Option.bind_some]
  rw [List.filterMap_cons, hdue]
  cases m.callback <;> rfl

/-- `ipc_isr` with the completion bits of channels in flight. -/
theorem Ipc.Inv.ipcIsr (h : s.Inv held) {status : BitVec 32}
    (hflight : ∀ chn < ipcChannels, status.getLsbD (12 + chn) → (s.log.flight chn).isSome)
    (hfreed : IsrFreesOnce status (List.range ipcChannels) s) : (ipcIsr status s).Inv held := by
  -- the channels still to be dealt with stay in flight meanwhile
  have hrule := ipcIsr_rule status s
    (J := fun chn s => s.Inv held ∧ IsrFreesOnce status ((List.range ipcChannels).drop chn) s ∧
      ∀ c, chn ≤ c → c < ipcChannels → status.getLsbD (12 + c) → (s.log.flight c).isSome)
    ?_ ?_ ?_ ⟨h, hfreed, fun c _ => hflight c⟩
  · exact hrule.1
  · rintro chn hchn s hbit ⟨hinv, hfreed, hrest⟩
    rw [drop_range hchn] at hfreed
    obtain ⟨t, ht⟩ := Option.isSome_iff_exists.mp (hrest chn (Nat.le_refl chn) hchn hbit)
    have hout : ipcIsrMsgOut status chn s = Fr5080.ipcIsrComplete chn s := if_pos hbit
    refine ⟨hinv.ipcIsrComplete ht (hfreed.1 hbit), by rw [← hout]; exact hfreed.2, ?_⟩
    intro c hle hc hset
    have hne : c ≠ chn := by omega
    have hfree : ((ipcFreeChannel chn (s.complete chn)).log.flight c).isSome := by
      show (Function.update s.log.flight chn none c).isSome
      rw [Function.update_of_ne hne]
      exact hrest c (by omega) hc hset
    rw [ipcIsrComplete_eq hchn (hfreed.1 hbit)]
    exact ipcMsgSent_flight hfree
  · rintro chn hchn s hbit ⟨hinv, hfreed, hrest⟩
    rw [drop_range hchn] at hfreed
    have hout : ipcIsrMsgOut status chn s = s := if_neg (by rw [hbit]; simp)
    exact ⟨hinv, by rw [← hout]; exact hfreed.2, fun c hle => hrest c (by omega)⟩
  · rintro s received ⟨⟨howned, hrec, hcalled⟩, _, hrest⟩
    exact ⟨⟨howned.frame _ rfl rfl rfl rfl rfl rfl, hrec.frame rfl rfl rfl,
      hcalled.frame rfl rfl rfl⟩, by rw [List.drop_of_length_le (by simp)]; trivial, hrest⟩

/-- Every operation of a run that meets the condition keeps the account. -/
theorem ipcInv_step {s s' : IpcSys} {op : IpcOp} (h : s.ipc.Inv s.held) (hfreed : FreesOnce s op)
    (hstep : ipcStep s op = some s') : s'.ipc.Inv s'.held := by
  have hrec := h.recorded.step hstep
  have ⟨howned, _, hcalled⟩ := h
  cases ipcStep_transition hstep with
  | @offer _ m ele data hoffer =>
      obtain ⟨hticket, hele, _⟩ := IpcOp.offer_carries _ hoffer
      obtain ⟨hlogCalled, hlogDone⟩ : ((s.ipc.submit m).offer ele data).log.called =
          s.ipc.log.called ∧ ((s.ipc.submit m).offer ele data).log.completed =
          s.ipc.log.completed := by
        unfold Ipc.offer
        split <;> exact ⟨rfl, rfl⟩
      exact ⟨howned.offer hticket hele, hrec,
        hcalled.submit howned hlogCalled hlogDone (submitted_offer m ele data s.ipc)⟩
  | take hscan => exact ⟨howned.take hscan, hrec, hcalled.frame rfl rfl rfl⟩
  | full hscan => exact h
  | fill hheld hchn =>
      exact ⟨howned.frame _ rfl rfl rfl rfl rfl rfl, hrec, hcalled.frame rfl rfl rfl⟩
  | @insert chn format length allocLength callback hheld =>
      have hsub := howned.submit
        (ipcInsertSubmission allocLength chn format length callback s.ipc)
      refine ⟨hsub.insert (howned.of_held hheld).1 (by rw [hheld]; simp) rfl
        List.getElem?_concat_length rfl ?_, hrec, hcalled.submit howned rfl rfl rfl⟩
      intro hne
      refine howned.heldClass chn allocLength hheld ?_
      intro hzero
      rw [hzero] at hne
      exact hne rfl
  | free hheld => exact ⟨howned.give hheld, hrec, hcalled.frame rfl rfl rfl⟩
  | isr hflight => exact h.ipcIsr hflight hfreed
  | reuse => exact ⟨howned.frame _ rfl rfl rfl rfl rfl rfl, hrec, hcalled.frame rfl rfl rfl⟩

theorem ipcInv_start (ram shm : Nat → UInt8) (msgIn : Nat → IpcMsg) :
    (ipcStart ram shm msgIn).ipc.Inv (ipcStart ram shm msgIn).held where
  owned :=
    { exclusive := by
        intro c hc
        have hbit : ∀ c < 4, (BitVec.ofNat 8 ((1 <<< ipcChannels) - 1)).getLsbD c = true := by
          decide
        exact .inl ⟨hbit c hc, by simp [ipcStart], by
          simp [ipcStart, ipcInit, Ipc.boot, IpcLog.empty]⟩
      outside := fun _ _ => ⟨rfl, rfl⟩
      heldClass := by intro c length hheld; cases hheld
      callback := by intro c t ht; cases ht
      sentClass := by intro t ht; cases ht
      sentFree := by intro t ht; cases ht
      flightSent := by intro c t ht; cases ht
      completedSent := by intro p hp; cases hp
      tickets := List.Perm.refl _ }
  recorded := recorded_start ram shm msgIn
  called := rfl

/-- The account holds after every run that meets the condition. -/
theorem ipcInv_run {ram shm : Nat → UInt8} {msgIn : Nat → IpcMsg} {ops : List IpcOp} {s : IpcSys}
    (hfreed : Along ipcStep FreesOnce (ipcStart ram shm msgIn) ops)
    (h : run ipcStep (ipcStart ram shm msgIn) ops = some s) : s.ipc.Inv s.held :=
  run_inv_of_along (I := fun s => s.ipc.Inv s.held)
    (fun _ _ _ hs hC hstep => ipcInv_step hs hC hstep) (ipcInv_start ram shm msgIn) hfreed h

/-! ## callbacks of the application -/

/-- The transmit callbacks of the operation are functions of the application. -/
def IpcOp.UserCallback : IpcOp → Prop
  | .msgSend _ _ callback => callback ≠ some .ipcFreeChannel
  | .msgWithPayloadSend _ _ _ _ _ callback => callback ≠ some .ipcFreeChannel
  | .insertMsg _ _ _ callback => callback ≠ some .ipcFreeChannel
  | .allocChannel _ | .writeBuffer .. | .freeChannel _ | .isr _ | .writeRam .. => True

theorem IpcOp.UserCallback.offer {op : IpcOp} (hop : op.UserCallback) {s : Ipc}
    {m : IpcSubmission} {ele : IpcMsgElem} {data : List UInt8}
    (h : op.offer s = some (m, ele, data)) : ele.callback ≠ some .ipcFreeChannel := by
  cases op with
  | msgSend msg subMsg callback => cases h; exact hop
  | msgWithPayloadSend msg header headerLength payload payloadLength callback =>
      cases h; exact hop
  | allocChannel length => cases h
  | writeBuffer chn bytes => cases h
  | insertMsg chn format length callback => cases h
  | freeChannel chn => cases h
  | isr status => cases h
  | writeRam offset bytes => cases h

/-- No channel and no waiting message has `ipc_free_channel` as its callback. -/
structure Ipc.UserCallbacks (s : Ipc) : Prop where
  channel : ∀ c, s.txCallback c ≠ some .ipcFreeChannel
  waiting : ∀ ele ∈ s.ipcMsgList, ele.callback ≠ some .ipcFreeChannel

theorem Ipc.UserCallbacks.frame (h : s.UserCallbacks) {s' : Ipc}
    (hcb : s'.txCallback = s.txCallback) (hlist : s'.ipcMsgList = s.ipcMsgList) :
    s'.UserCallbacks := by
  constructor
  · rw [hcb]; exact h.channel
  · rw [hlist]; exact h.waiting

/-- A channel gets the callback of a message, or loses it. -/
theorem Ipc.UserCallbacks.update (h : s.UserCallbacks) {s' : Ipc} {c : Nat}
    (callback : Option IpcTxCallback) (hne : callback ≠ some .ipcFreeChannel)
    (hcb : s'.txCallback = Function.update s.txCallback c callback)
    (hlist : ∀ ele ∈ s'.ipcMsgList, ele ∈ s.ipcMsgList) : s'.UserCallbacks := by
  refine ⟨?_, fun ele hele => h.waiting ele (hlist ele hele)⟩
  intro j
  rw [hcb]
  by_cases heq : j = c
  · rw [heq, Function.update_self]; exact hne
  · rw [Function.update_of_ne heq]; exact h.channel j

theorem Ipc.UserCallbacks.ipcMsgSent (h : s.UserCallbacks) : (ipcMsgSent s).UserCallbacks := by
  refine ipcMsgSent_rule h ?_
  intro ele rest chn hlist _
  refine h.update _ (h.waiting ele (by rw [hlist]; exact List.mem_cons_self)) rfl ?_
  intro e he
  rw [hlist]
  exact List.mem_cons_of_mem ele he

theorem Ipc.UserCallbacks.ipcIsrComplete (h : s.UserCallbacks) {c : Nat} (hc : c < ipcChannels) :
    (ipcIsrComplete c s).UserCallbacks := by
  have hfree : (ipcFreeChannel c (s.complete c)).UserCallbacks :=
    h.update none (by simp) rfl fun _ hele => hele
  rw [ipcIsrComplete_eq hc fun hcb => absurd hcb (h.channel c)]
  exact hfree.ipcMsgSent.frame rfl rfl

/-- With callbacks of the application every completion frees its channel once. -/
theorem Ipc.UserCallbacks.isrFreesOnce {status : BitVec 32} :
    ∀ (chns : List Nat) {s : Ipc}, (∀ c ∈ chns, c < ipcChannels) → s.UserCallbacks →
      IsrFreesOnce status chns s
  | [], _, _, _ => trivial
  | chn :: chns, s, hchns, h => by
      refine ⟨fun _ hcb => absurd hcb (h.channel chn),
        isrFreesOnce chns (fun c hc => hchns c (List.mem_cons_of_mem chn hc)) ?_⟩
      unfold ipcIsrMsgOut
      split
      · exact h.ipcIsrComplete (hchns chn List.mem_cons_self)
      · exact h

theorem Ipc.UserCallbacks.step {s s' : IpcSys} {op : IpcOp} (h : s.ipc.UserCallbacks)
    (hop : op.UserCallback) (hstep : ipcStep s op = some s') : s'.ipc.UserCallbacks := by
  cases ipcStep_transition hstep with
  | @offer _ m ele data hoffer =>
      show ((s.ipc.submit m).offer ele data).UserCallbacks
      unfold Ipc.offer
      split
      · exact h.update _ (hop.offer hoffer) rfl fun _ hele => hele
      · refine ⟨h.channel, ?_⟩
        intro e he
        obtain he | he := List.mem_append.mp he
        · exact h.waiting e he
        · rw [List.mem_singleton.mp he]
          exact hop.offer hoffer
  | take hscan => exact h.frame rfl rfl
  | full hscan => exact h
  | fill hheld hchn => exact h.frame rfl rfl
  | insert hheld => exact h.update _ hop rfl fun _ hele => hele
  | free hheld => exact h.update none (by simp) rfl fun _ hele => hele
  | isr hflight =>
      exact ipcIsr_rule _ _ (J := fun _ s => s.UserCallbacks)
        (fun _ hchn _ _ hs => hs.ipcIsrComplete hchn) (fun _ _ _ _ hs => hs)
        (fun _ _ hs => hs.frame rfl rfl) h
  | reuse => exact h.frame rfl rfl

/-- Runs with callbacks of the application meet the condition. -/
theorem freesOnce_of_userCallback (ram shm : Nat → UInt8) (msgIn : Nat → IpcMsg)
    {ops : List IpcOp} (hops : ∀ op ∈ ops, op.UserCallback) :
    Along ipcStep FreesOnce (ipcStart ram shm msgIn) ops := by
  refine along_of_forall (I := fun s => s.ipc.UserCallbacks)
    (fun _ _ _ hs hop hstep => hs.step hop hstep) ?_
    ⟨fun c => by simp [ipcStart, ipcInit], by intro ele hele; cases hele⟩ hops
  intro s op hs _
  cases op with
  | isr status => exact hs.isrFreesOnce _ fun c hc => List.mem_range.mp hc
  | _ => trivial

/-- **Channel ownership**: in every run whose callbacks leave the driver
alone, each channel is exactly one of available (its bit is set), held and in
flight; no register was written while its message was in flight; a channel
allocated for a nonzero length is channel 0 or 1; and the callbacks called are
those of the completed messages, in the order of completion, each with the
channel its message was sent on — where every message is, once, completed, in
flight or waiting. -/
theorem ipc_channel_ownership (ram shm : Nat → UInt8) (msgIn : Nat → IpcMsg) (ops : List IpcOp)
    (s : IpcSys) (hops : ∀ op ∈ ops, op.UserCallback)
    (h : run ipcStep (ipcStart ram shm msgIn) ops = some s) :
    (∀ c < ipcChannels, OneOwner (s.ipc.availableBuffer.getLsbD c = true) ((s.held c).isSome)
      ((s.ipc.log.flight c).isSome)) ∧
    (∀ t ∈ s.ipc.log.sent, t.displaced = none) ∧
    (∀ t ∈ s.ipc.log.sent, ∃ m, s.ipc.log.submitted[t.ticket]? = some m ∧
      (m.allocLength ≠ 0 → t.chn < ipcWithLoadChannels)) ∧
    s.ipc.log.called = s.ipc.log.completed.filterMap (ipcCallDue s.ipc.log.submitted) ∧
    (∀ p ∈ s.ipc.log.completed, ∃ t ∈ s.ipc.log.sent, t.ticket = p.1 ∧ t.chn = p.2) ∧
    (s.ipc.log.completed.map Prod.fst ++ s.ipc.flightTickets ++ s.ipc.waitingTickets).Perm
      (List.range s.ipc.log.submitted.length) := by
  obtain ⟨howned, hrec, hcalled⟩ :=
    ipcInv_run (freesOnce_of_userCallback ram shm msgIn hops) h
  exact ⟨howned.exclusive, howned.sentFree, howned.sentClass, hcalled, howned.completedSent,
    (howned.tickets.symm.append_right _).trans hrec.tickets⟩

/-- A held channel, a payload and a command complete in one interrupt while a
second payload waits. -/
theorem ipc_channel_ownership_isr :
    ∃ s, run ipcStep (ipcStart (fun _ => 0) (fun _ => 0) fun _ => ⟨0, 0, 0, 0⟩)
      [.allocChannel 8, .msgWithPayloadSend .rawFrame 0 2 16 4 (some (.user 1)),
        .msgWithPayloadSend .rawFrame 0 2 32 4 (some (.user 2)),
        .msgSend .dspReady 5 (some (.user 3)), .insertMsg 1 3 8 none, .isr 0x9000#32] = some s ∧
      s.ipc.log.called = [⟨some 0, 0, .user 1⟩, ⟨some 2, 3, .user 3⟩] ∧
      (s.ipc.log.completed.map Prod.fst ++ s.ipc.flightTickets ++ s.ipc.waitingTickets).Perm
        (List.range 4) := by
  refine ⟨_, rfl, rfl, ?_⟩
  have h := ipc_channel_ownership (fun _ => 0) (fun _ => 0) (fun _ => ⟨0, 0, 0, 0⟩)
    [.allocChannel 8, .msgWithPayloadSend .rawFrame 0 2 16 4 (some (.user 1)),
      .msgWithPayloadSend .rawFrame 0 2 32 4 (some (.user 2)),
      .msgSend .dspReady 5 (some (.user 3)), .insertMsg 1 3 8 none, .isr 0x9000#32] _
    (by simp [IpcOp.UserCallback]) rfl
  exact h.2.2.2.2.2

end Fr5080
