import Fr5080.Ipc.LoadCode
import Fr5080.Ipc.Stall

/-!
# Fr5080.Ipc.Basic

The transmit side of the IPC driver of `fr5080_basic`.  Its functions to allocate,
free and fill a channel are those of `fr5080_basic_xip` (`Fr5080.Ipc.Driver`), but
there is no list of deferred messages, and `ipc_isr` does not free the channel of a
message that has been sent: that is left to the callback.

`app_ipc_rx` passes `ipc_free_channel`, functions of the application free the channel
in their first line, and `app_ipc_ready` passes `NULL`, so the channel of
`IPC_MSG_DSP_READY` is lost.  Neither `app_ipc_ready` nor `app_ipc_rx` looks whether it
was given a channel: without one they store outside of the arrays of the driver.

A function of the application may call the driver; `body` are the calls that it makes.
-/

namespace Fr5080

open Embedded

/-! ## the code -/

/-- A call of the driver by the application. -/
inductive IpcUse
  | alloc (length : UInt16)
  | insert (chn : Nat) (format : UInt8) (length : UInt16) (callback : Option IpcTxCallback)
  | free (chn : Nat)
deriving DecidableEq

/-- The call as an operation of the driver: who inserts or frees holds the channel. -/
def IpcUse.op : IpcUse → IpcOp
  | .alloc length => .allocChannel length
  | .insert chn format length callback => .insertMsg chn format length callback
  | .free chn => .freeChannel chn

/-- A call of the driver. -/
def ipcUse (s : IpcSys) (u : IpcUse) : Option IpcSys := ipcStep s u.op

/-- The call gives the channel back, or puts a message on it. -/
def IpcUse.Releases (chn : Nat) : IpcUse → Prop
  | .alloc _ => False
  | .insert c _ _ _ => c = chn
  | .free c => c = chn

instance (chn : Nat) : DecidablePred (IpcUse.Releases chn)
  | .alloc _ => inferInstanceAs (Decidable False)
  | .insert c _ _ _ => inferInstanceAs (Decidable (c = chn))
  | .free c => inferInstanceAs (Decidable (c = chn))

/-- A function of the application that releases the channel it is called for. -/
def ReleasedBy (chn : Nat) (body : List IpcUse) : Prop := ∃ u ∈ body, u.Releases chn

instance (chn : Nat) (body : List IpcUse) : Decidable (ReleasedBy chn body) :=
  inferInstanceAs (Decidable (∃ u ∈ body, _))

/-- A function of the application, called for channel `chn`.  It holds the channel while it
runs, and nobody does when it returns without having released it. -/
def ipcUserCallback (chn : Nat) (body : List IpcUse) (s : IpcSys) : Option IpcSys :=
  (run ipcUse { s with held := Function.update s.held chn (some 0) } body).map fun s =>
    if ReleasedBy chn body then s else { s with held := Function.update s.held chn none }

/-- The body of `if(status & IPC_MSGOUTxx_STATUS)` in `ipc_isr` for channel `chn`:
`if(ipc_env.tx_callback[chn]) ipc_env.tx_callback[chn](chn);` -/
def basicIsrMsgOut (chn : Nat) (body : List IpcUse) (s : IpcSys) : Option IpcSys :=
  let done := { s with ipc := s.ipc.complete chn }
  match s.ipc.txCallback chn with
  | none => some done
  | some .ipcFreeChannel => some { done with ipc := ipcFreeChannel chn done.ipc }
  | some (.user _) => ipcUserCallback chn body done

/-- What can happen: `app_ipc_ready`, the answer of `app_ipc_rx` to `IPC_MSG_LOAD_CODE`, a call
of the driver by the application, and the completion of a message.  `ipc_isr` handles the
channels one after the other, and each is an event of its own: until its turn has come a
channel is in flight, so no callback can touch it. -/
inductive BasicIpcEvent
  | ready
  | loadCode
  | use (u : IpcUse)
  | sent (chn : Nat) (body : List IpcUse)

/-- `app_ipc_ready` and `app_ipc_rx` send a message; there is no driver any more when they store
outside of its arrays. -/
def ipcNotifySys (msg : IpcMsgType) (callback : Option IpcTxCallback) (s : IpcSys) :
    Option IpcSys :=
  (ipcNotify msg callback s.ipc).map fun ipc => { s with ipc := ipc }

/-- One step of a run.  The state is `none` from the store outside of the arrays on: nothing is
known of the memory then. -/
def basicIpcStep : Option IpcSys → BasicIpcEvent → Option (Option IpcSys)
  | none, _ => some none
  | some s, .ready => some (ipcNotifySys .dspReady none s)
  | some s, .loadCode => some (ipcNotifySys .loadCodeDone (some .ipcFreeChannel) s)
  | some s, .use u => (ipcUse s u).map some
  | some s, .sent chn body =>
      if chn < ipcChannels ∧ (s.ipc.log.flight chn).isSome then
        (basicIsrMsgOut chn body s).map some
      else none

/-! ## the invariant -/

/-- Every channel is available, held or in flight, and only one of these. -/
structure OwnedOnce (s : IpcSys) : Prop where
  accounted : s.ipc.Accounted s.held
  flight : ∀ c < ipcChannels, (s.ipc.log.flight c).isSome →
    s.ipc.availableBuffer.getLsbD c = false ∧ s.held c = none
  held : ∀ c < ipcChannels, (s.held c).isSome → s.ipc.availableBuffer.getLsbD c = false

/-- A channel that is neither available nor held nor in flight. -/
structure Leaked (c : Nat) (s : IpcSys) : Prop where
  unavailable : s.ipc.availableBuffer.getLsbD c = false
  flight : s.ipc.log.flight c = none
  held : s.held c = none

variable {s s' : IpcSys} {c chn : Nat} {body : List IpcUse} {u : IpcUse}

theorem not_accounted_iff : ¬ s.ipc.Accounted s.held ↔ ∃ c < ipcChannels, Leaked c s := by
  simp only [Ipc.Accounted, not_forall, not_or, Bool.not_eq_true, exists_prop]
  constructor
  · rintro ⟨c, hc, h1, h2, h3⟩
    exact ⟨c, hc, h1, Option.isSome_eq_false_iff.mp h3 |> Option.isNone_iff_eq_none.mp,
      Option.isSome_eq_false_iff.mp h2 |> Option.isNone_iff_eq_none.mp⟩
  · rintro ⟨c, hc, h⟩
    exact ⟨c, hc, h.unavailable, by simp [h.held], by simp [h.flight]⟩

theorem lt_eight_of_lt (hc : c < ipcChannels) : c < 8 := Nat.lt_trans hc (by decide)

/-! ## what the functions do to a channel -/

/-- A caller takes an available channel. -/
theorem OwnedOnce.take (h : OwnedOnce s) (hc : s.ipc.availableBuffer.getLsbD c = true)
    (length : UInt16) :
    OwnedOnce ⟨{ s.ipc with availableBuffer := s.ipc.availableBuffer &&& ~~~(1#8 <<< c) },
      Function.update s.held c (some length)⟩ := by
  constructor
  · intro j hj
    simp only [getLsbD_take (lt_eight_of_lt hj)]
    by_cases heq : j = c
    · simp [heq]
    · simpa [heq] using h.accounted j hj
  · intro j hj hflight
    have hold := h.flight j hj hflight
    have hne : j ≠ c := by
      rintro rfl
      rw [hc] at hold
      cases hold.1
    simp [getLsbD_take (lt_eight_of_lt hj), hold, hne]
  · intro j hj hheld
    simp only [getLsbD_take (lt_eight_of_lt hj)]
    by_cases heq : j = c
    · simp [heq]
    · simp only [Function.update_of_ne heq] at hheld
      simp [h.held j hj hheld]

/-- A holder gives its channel back. -/
theorem OwnedOnce.give (h : OwnedOnce s) (hc : (s.held c).isSome) :
    OwnedOnce ⟨ipcFreeChannel c s.ipc, Function.update s.held c none⟩ := by
  constructor
  · intro j hj
    simp only [ipcFreeChannel, getLsbD_give (lt_eight_of_lt hj)]
    by_cases heq : j = c
    · simp [heq]
    · simpa [heq] using h.accounted j hj
  · intro j hj hflight
    have hold := h.flight j hj hflight
    have hne : j ≠ c := by
      rintro rfl
      simp [hold.2] at hc
    simp [ipcFreeChannel, getLsbD_give (lt_eight_of_lt hj), hold, hne]
  · intro j hj hheld
    have hne : j ≠ c := by
      rintro rfl
      simp at hheld
    simp only [Function.update_of_ne hne] at hheld
    simp [ipcFreeChannel, getLsbD_give (lt_eight_of_lt hj), h.held j hj hheld, hne]

/-- A holder puts a message on its channel. -/
theorem OwnedOnce.insert (h : OwnedOnce s) (hc : (s.held c).isSome) (ticket : Nat)
    (format : UInt8) (length : UInt16) (callback : Option IpcTxCallback) (m : IpcSubmission) :
    OwnedOnce ⟨ipcInsertMsg ticket c format length callback (s.ipc.submit m),
      Function.update s.held c none⟩ := by
  constructor
  · intro j hj
    by_cases heq : j = c
    · simp [heq, ipcInsertMsg]
    · simpa [heq, ipcInsertMsg, Ipc.submit] using h.accounted j hj
  · intro j hj hflight
    by_cases heq : j = c
    · subst heq
      exact ⟨h.held j hj hc, by simp⟩
    · simp only [ipcInsertMsg, Function.update_of_ne heq] at hflight ⊢
      exact h.flight j hj hflight
  · intro j hj hheld
    have hne : j ≠ c := by
      rintro rfl
      simp at hheld
    simp only [Function.update_of_ne hne] at hheld
    exact h.held j hj hheld

/-- The application calls the driver. -/
theorem OwnedOnce.use (h : OwnedOnce s) (hu : ipcUse s u = some s') : OwnedOnce s' := by
  cases u with
  | alloc length =>
      cases ipcStep_transition hu with
      | offer hoffer => cases hoffer
      | take hscan => exact h.take (ipcAllocScan_some hscan).2 _
      | full _ => exact h
  | insert chn format length callback =>
      cases ipcStep_transition hu with
      | offer hoffer => cases hoffer
      | insert hheld => exact h.insert (by simp [hheld]) _ _ _ _ _
  | free chn =>
      cases ipcStep_transition hu with
      | offer hoffer => cases hoffer
      | free hheld => exact h.give (by simp [hheld])

/-- `app_ipc_ready` and `app_ipc_rx` take a channel and put a message on it at once. -/
theorem OwnedOnce.notify (h : OwnedOnce s) {msg : IpcMsgType} {callback : Option IpcTxCallback}
    (hnotify : ipcNotifySys msg callback s = some s') : OwnedOnce s' := by
  obtain ⟨ipc, hipc, rfl⟩ := Option.map_eq_some_iff.mp hnotify
  obtain ⟨-, c, hc, hbit, heq⟩ | ⟨-, heq⟩ := ipcNotify_cases msg callback s.ipc
  · cases heq.symm.trans hipc
    have htaken := h.take hbit 0
    have hinsert := htaken.insert (c := c) (by simp) s.ipc.nextTicket msg.code 0 callback
      ⟨.direct, msg.code, 0, 0, [], callback⟩
    have hheld : Function.update (Function.update s.held c (some 0)) c none = s.held := by
      have hnone : s.held c = none := by
        by_contra hsome
        have := h.held c hc (Option.isSome_iff_ne_none.mpr hsome)
        rw [hbit] at this
        cases this
      rw [Function.update_idem, ← hnone, Function.update_eq_self]
    rw [hheld] at hinsert
    exact hinsert
  · cases heq.symm.trans hipc

/-- They find a channel or store outside of the arrays. -/
theorem ipcNotifySys_eq_none_iff (msg : IpcMsgType) (callback : Option IpcTxCallback)
    (s : IpcSys) : ipcNotifySys msg callback s = none ↔ ¬ s.ipc.SomeAvailable := by
  obtain ⟨hsome, c, -, -, heq⟩ | ⟨hnone, heq⟩ := ipcNotify_cases msg callback s.ipc
  · simp [ipcNotifySys, heq, hsome]
  · simp [ipcNotifySys, heq, hnone]

/-- The channel of a message that has been sent, in the hands of its callback. -/
theorem OwnedOnce.complete (h : OwnedOnce s) (hc : c < ipcChannels)
    (hflight : (s.ipc.log.flight c).isSome) :
    OwnedOnce ⟨s.ipc.complete c, Function.update s.held c (some 0)⟩ := by
  have hold := h.flight c hc hflight
  constructor
  · intro j hj
    by_cases heq : j = c
    · simp [heq]
    · simpa [heq, Ipc.complete] using h.accounted j hj
  · intro j hj hflight'
    have hne : j ≠ c := by
      rintro rfl
      simp [Ipc.complete] at hflight'
    simp only [Ipc.complete, Function.update_of_ne hne] at hflight' ⊢
    exact h.flight j hj hflight'
  · intro j hj hheld
    by_cases heq : j = c
    · rw [heq]
      exact hold.1
    · simp only [Function.update_of_ne heq] at hheld
      exact h.held j hj hheld

/-! ## a channel that a call leaves alone -/

/-- Channel `c` is unavailable before and after, and is held or in flight as before. -/
structure ChannelKept (c : Nat) (s s' : IpcSys) : Prop where
  unavailable : s'.ipc.availableBuffer.getLsbD c = false
  flight : s'.ipc.log.flight c = s.ipc.log.flight c
  held : s'.held c = s.held c

theorem ChannelKept.leaked (h : ChannelKept c s s') (hleak : Leaked c s) : Leaked c s' :=
  ⟨h.unavailable, h.flight.trans hleak.flight, h.held.trans hleak.held⟩

theorem ChannelKept.trans {s'' : IpcSys} (h : ChannelKept c s s') (h' : ChannelKept c s' s'') :
    ChannelKept c s s'' :=
  ⟨h'.unavailable, h'.flight.trans h.flight, h'.held.trans h.held⟩

/-- `ipc_alloc_channel` takes an available channel, the other functions concern the channel
that they are called for. -/
theorem ipcUse_kept (hc : c < ipcChannels) (hbit : s.ipc.availableBuffer.getLsbD c = false)
    (hrel : ¬ u.Releases c) (hu : ipcUse s u = some s') : ChannelKept c s s' := by
  cases u with
  | alloc length =>
      cases ipcStep_transition hu with
      | offer hoffer => cases hoffer
      | @take _ j hscan =>
          have hne : c ≠ j := by
            rintro rfl
            rw [(ipcAllocScan_some hscan).2] at hbit
            cases hbit
          exact ⟨by simp [getLsbD_take (lt_eight_of_lt hc), hbit], rfl,
            Function.update_of_ne hne _ _⟩
      | full _ => exact ⟨hbit, rfl, rfl⟩
  | insert chn format length callback =>
      have hne : c ≠ chn := fun h => hrel h.symm
      cases ipcStep_transition hu with
      | offer hoffer => cases hoffer
      | insert hheld =>
          exact ⟨hbit, Function.update_of_ne hne _ _, Function.update_of_ne hne _ _⟩
  | free chn =>
      have hne : c ≠ chn := fun h => hrel h.symm
      cases ipcStep_transition hu with
      | offer hoffer => cases hoffer
      | free hheld =>
          exact ⟨by simp [ipcFreeChannel, getLsbD_give (lt_eight_of_lt hc), hbit, hne], rfl,
            Function.update_of_ne hne _ _⟩

/-- Only who holds a channel can release it. -/
theorem Leaked.not_releases (hleak : Leaked c s) (hu : ipcUse s u = some s') : ¬ u.Releases c := by
  intro hrel
  cases u with
  | alloc length => exact hrel
  | insert chn format length callback =>
      obtain rfl : chn = c := hrel
      simp [ipcUse, IpcUse.op, ipcStep, hleak.held] at hu
  | free chn =>
      obtain rfl : chn = c := hrel
      simp [ipcUse, IpcUse.op, ipcStep, hleak.held] at hu

/-- A callback that does not release its channel ends with the channel as it was. -/
theorem run_ipcUse_kept (hc : c < ipcChannels) (hbit : s.ipc.availableBuffer.getLsbD c = false)
    (hbody : ¬ ReleasedBy c body) (hrun : run ipcUse s body = some s') : ChannelKept c s s' := by
  refine run_inv_of_forall (P := fun u => ¬ u.Releases c) ?_ ⟨hbit, rfl, rfl⟩ ?_ hrun
  · intro s1 u s2 hkept hrel hstep
    exact hkept.trans (ipcUse_kept hc hkept.unavailable hrel hstep)
  · intro u hu hrel
    exact hbody ⟨u, hu, hrel⟩

/-- Nobody brings a leaked channel back. -/
theorem Leaked.run_ipcUse (hc : c < ipcChannels) (hleak : Leaked c s)
    (hrun : run ipcUse s body = some s') : Leaked c s' := by
  refine run_inv ?_ hleak hrun
  intro s1 u s2 hleak hstep
  exact (ipcUse_kept hc hleak.unavailable (hleak.not_releases hstep) hstep).leaked hleak

theorem Leaked.notify (hc : c < ipcChannels) (hleak : Leaked c s) {msg : IpcMsgType}
    {callback : Option IpcTxCallback} (hnotify : ipcNotifySys msg callback s = some s') :
    Leaked c s' := by
  obtain ⟨ipc, hipc, rfl⟩ := Option.map_eq_some_iff.mp hnotify
  obtain ⟨-, j, -, hbit, heq⟩ | ⟨-, heq⟩ := ipcNotify_cases msg callback s.ipc
  · cases heq.symm.trans hipc
    have hne : c ≠ j := by
      rintro rfl
      rw [hleak.unavailable] at hbit
      cases hbit
    constructor
    · simp [ipcInsertMsg, Ipc.submit, getLsbD_take (lt_eight_of_lt hc), hleak.unavailable]
    · simp [ipcInsertMsg, Ipc.submit, Function.update_of_ne hne, hleak.flight]
    · exact hleak.held
  · cases heq.symm.trans hipc

/-! ## runs -/

/-- The callback of a message frees the channel or puts a message on it. -/
def IpcTxCallback.Releases (chn : Nat) (body : List IpcUse) : Option IpcTxCallback → Prop
  | none => False
  | some .ipcFreeChannel => True
  | some (.user _) => ReleasedBy chn body

instance (chn : Nat) (body : List IpcUse) : DecidablePred (IpcTxCallback.Releases chn body)
  | none => inferInstanceAs (Decidable False)
  | some .ipcFreeChannel => inferInstanceAs (Decidable True)
  | some (.user _) => inferInstanceAs (Decidable (ReleasedBy chn body))

/-- A message that is sent without a look at the channel finds one, and one that completes has
such a callback. -/
def KeepsChannels (s : IpcSys) : BasicIpcEvent → Prop
  | .ready => s.ipc.SomeAvailable
  | .loadCode => s.ipc.SomeAvailable
  | .use _ => True
  | .sent chn body => IpcTxCallback.Releases chn body (s.ipc.txCallback chn)

instance (s : IpcSys) : DecidablePred (KeepsChannels s)
  | .ready => inferInstanceAs (Decidable s.ipc.SomeAvailable)
  | .loadCode => inferInstanceAs (Decidable s.ipc.SomeAvailable)
  | .use _ => isTrue trivial
  | .sent chn body =>
      inferInstanceAs (Decidable (IpcTxCallback.Releases chn body (s.ipc.txCallback chn)))

/-- A completion whose callback releases the channel. -/
theorem OwnedOnce.isrMsgOut (h : OwnedOnce s) (hc : chn < ipcChannels)
    (hflight : (s.ipc.log.flight chn).isSome) (hrel : KeepsChannels s (.sent chn body))
    (hsent : basicIsrMsgOut chn body s = some s') : OwnedOnce s' := by
  have hdone := h.complete hc hflight
  simp only [KeepsChannels] at hrel
  simp only [basicIsrMsgOut] at hsent
  split at hsent
  · next hcb => simp [hcb, IpcTxCallback.Releases] at hrel
  · cases hsent
    have hnone : s.held chn = none := (h.flight chn hc hflight).2
    have hfreed := hdone.give (c := chn) (by simp)
    simp only [Function.update_idem] at hfreed
    rwa [← hnone, Function.update_eq_self] at hfreed
  · next hcb =>
    simp only [hcb, IpcTxCallback.Releases] at hrel
    simp only [ipcUserCallback, Option.map_eq_some_iff, if_pos hrel] at hsent
    obtain ⟨s1, hrun, rfl⟩ := hsent
    exact run_inv (fun _ _ _ hs hstep => hs.use hstep) hdone hrun

/-- A completion whose callback does not: the channel is lost. -/
theorem OwnedOnce.isrMsgOut_leaked (h : OwnedOnce s) (hc : chn < ipcChannels)
    (hflight : (s.ipc.log.flight chn).isSome) (hrel : ¬ KeepsChannels s (.sent chn body))
    (hsent : basicIsrMsgOut chn body s = some s') : Leaked chn s' := by
  have hold := h.flight chn hc hflight
  simp only [KeepsChannels] at hrel
  simp only [basicIsrMsgOut] at hsent
  split at hsent
  · cases hsent
    exact ⟨hold.1, Function.update_self .., hold.2⟩
  · next hcb => simp [hcb, IpcTxCallback.Releases] at hrel
  · next hcb =>
    simp only [hcb, IpcTxCallback.Releases] at hrel
    simp only [ipcUserCallback, Option.map_eq_some_iff, if_neg hrel] at hsent
    obtain ⟨s1, hrun, rfl⟩ := hsent
    have hkept : ChannelKept chn
        ⟨s.ipc.complete chn, Function.update s.held chn (some 0)⟩ s1 :=
      run_ipcUse_kept hc hold.1 hrel hrun
    exact ⟨hkept.unavailable, hkept.flight.trans (Function.update_self ..),
      Function.update_self ..⟩

/-- What happens to other channels does not bring a leaked one back. -/
theorem Leaked.isrMsgOut (hc : c < ipcChannels) (hleak : Leaked c s)
    (hflight : (s.ipc.log.flight chn).isSome) (hsent : basicIsrMsgOut chn body s = some s') :
    Leaked c s' := by
  have hne : c ≠ chn := by
    rintro rfl
    simp [hleak.flight] at hflight
  have hdone : (s.ipc.complete chn).log.flight c = none :=
    (Function.update_of_ne hne _ _).trans hleak.flight
  simp only [basicIsrMsgOut] at hsent
  split at hsent
  · cases hsent
    exact ⟨hleak.unavailable, hdone, hleak.held⟩
  · cases hsent
    refine ⟨?_, hdone, hleak.held⟩
    have hbit : (s.ipc.complete chn).availableBuffer.getLsbD c = false := hleak.unavailable
    simp [ipcFreeChannel, getLsbD_give (lt_eight_of_lt hc), hbit, hne]
  · simp only [ipcUserCallback, Option.map_eq_some_iff] at hsent
    obtain ⟨s1, hrun, rfl⟩ := hsent
    have hleak1 : Leaked c s1 := by
      refine Leaked.run_ipcUse hc ?_ hrun
      exact ⟨hleak.unavailable, hdone, (Function.update_of_ne hne _ _).trans hleak.held⟩
    split
    · exact hleak1
    · exact ⟨hleak1.unavailable, hleak1.flight, (Function.update_of_ne hne _ _).trans hleak1.held⟩

/-- Only a channel in flight completes. -/
theorem basicIpcStep_sent {d : Option IpcSys}
    (h : basicIpcStep (some s) (.sent chn body) = some d) :
    chn < ipcChannels ∧ (s.ipc.log.flight chn).isSome ∧
      ∃ s', basicIsrMsgOut chn body s = some s' ∧ d = some s' := by
  simp only [basicIpcStep] at h
  split at h
  · next hguard =>
      obtain ⟨s', hsent, rfl⟩ := Option.map_eq_some_iff.mp h
      exact ⟨hguard.1, hguard.2, s', hsent, rfl⟩
  · cases h

/-- The law: the driver is there, and a channel that is not available has a message in flight or
a holder. -/
def NoChannelLeak (d : Option IpcSys) : Prop := ∃ s, d = some s ∧ s.ipc.Accounted s.held

/-- It is broken for good: a channel is lost, or the memory. -/
def ChannelLost (d : Option IpcSys) : Prop := ∀ s, d = some s → ∃ c < ipcChannels, Leaked c s

theorem not_noChannelLeak_iff {d : Option IpcSys} : ¬ NoChannelLeak d ↔ ChannelLost d := by
  simp only [NoChannelLeak, ChannelLost, not_exists, not_and, not_accounted_iff]

/-- A step that finds its channel, and whose callback, if there is one to call, releases it. -/
theorem OwnedOnce.step {e : BasicIpcEvent} {d : Option IpcSys} (h : OwnedOnce s)
    (hkeeps : KeepsChannels s e) (hstep : basicIpcStep (some s) e = some d) :
    ∃ s', d = some s' ∧ OwnedOnce s' := by
  have hnotify : ∀ msg callback, s.ipc.SomeAvailable →
      ∃ s', ipcNotifySys msg callback s = some s' ∧ OwnedOnce s' := by
    intro msg callback hsome
    obtain ⟨s', heq⟩ := Option.ne_none_iff_exists'.mp
      fun hnone => (ipcNotifySys_eq_none_iff msg callback s).mp hnone hsome
    exact ⟨s', heq, h.notify heq⟩
  cases e with
  | ready =>
      cases hstep
      exact hnotify _ _ hkeeps
  | loadCode =>
      cases hstep
      exact hnotify _ _ hkeeps
  | use u =>
      obtain ⟨s', huse, rfl⟩ := Option.map_eq_some_iff.mp hstep
      exact ⟨s', rfl, h.use huse⟩
  | sent chn body =>
      obtain ⟨hc, hflight, s', hsent, rfl⟩ := basicIpcStep_sent hstep
      exact ⟨s', rfl, h.isrMsgOut hc hflight hkeeps hsent⟩

/-- A step that does not. -/
theorem OwnedOnce.step_lost {e : BasicIpcEvent} {d : Option IpcSys} (h : OwnedOnce s)
    (hkeeps : ¬ KeepsChannels s e) (hstep : basicIpcStep (some s) e = some d) :
    ChannelLost d := by
  cases e with
  | ready =>
      rw [← Option.some.inj hstep, (ipcNotifySys_eq_none_iff _ _ s).mpr hkeeps]
      exact fun s' hs' => absurd hs' (by simp)
  | loadCode =>
      rw [← Option.some.inj hstep, (ipcNotifySys_eq_none_iff _ _ s).mpr hkeeps]
      exact fun s' hs' => absurd hs' (by simp)
  | use u => exact absurd trivial hkeeps
  | sent chn body =>
      obtain ⟨hc, hflight, s', hsent, rfl⟩ := basicIpcStep_sent hstep
      intro s1 hs1
      cases hs1
      exact ⟨chn, hc, h.isrMsgOut_leaked hc hflight hkeeps hsent⟩

/-- A channel once lost stays lost. -/
theorem Leaked.step {e : BasicIpcEvent} (hc : c < ipcChannels) (hleak : Leaked c s)
    (hstep : basicIpcStep (some s) e = some (some s')) : Leaked c s' := by
  cases e with
  | ready => exact hleak.notify hc (Option.some.inj hstep)
  | loadCode => exact hleak.notify hc (Option.some.inj hstep)
  | use u =>
      obtain ⟨s1, huse, hs1⟩ := Option.map_eq_some_iff.mp hstep
      cases hs1
      exact (ipcUse_kept hc hleak.unavailable (hleak.not_releases huse) huse).leaked hleak
  | sent chn body =>
      obtain ⟨-, hflight, s1, hsent, hs1⟩ := basicIpcStep_sent hstep
      cases hs1
      exact hleak.isrMsgOut hc hflight hsent

/-- And so does the memory. -/
theorem ChannelLost.step {e : BasicIpcEvent} {d d' : Option IpcSys} (h : ChannelLost d)
    (hstep : basicIpcStep d e = some d') : ChannelLost d' := by
  rintro s' rfl
  cases d with
  | none => cases hstep
  | some s =>
      obtain ⟨c, hc, hleak⟩ := h s rfl
      exact ⟨c, hc, hleak.step hc hstep⟩

/-- After `ipc_init` every channel is available. -/
theorem ownedOnce_start (ram shm : Nat → UInt8) (msgIn : Nat → IpcMsg) :
    OwnedOnce (ipcStart ram shm msgIn) := by
  constructor
  · intro c hc
    left
    revert c
    show ∀ c < ipcChannels, BitVec.getLsbD (0x0f : BitVec 8) c = true
    decide
  · intro c _ hflight
    cases hflight
  · intro c _ hheld
    cases hheld

/-- The condition on a step of a run, as long as there is a driver. -/
def StepKeepsChannels (d : Option IpcSys) (e : BasicIpcEvent) : Prop :=
  ∀ s, d = some s → KeepsChannels s e

instance (d : Option IpcSys) (e : BasicIpcEvent) : Decidable (StepKeepsChannels d e) :=
  match d with
  | none => isTrue fun s hs => by cases hs
  | some s => decidable_of_iff (KeepsChannels s e)
      ⟨fun h s' hs' => Option.some.inj hs' ▸ h, fun h => h s rfl⟩

/-- **No channel leak**: a run loses no channel exactly when each message that completed in
it had a callback that frees the channel or reuses it, and each message that was sent without a
look at the channel found one. -/
theorem no_channel_leak_iff {ram shm : Nat → UInt8} {msgIn : Nat → IpcMsg}
    {es : List BasicIpcEvent} {d : Option IpcSys}
    (h : run basicIpcStep (some (ipcStart ram shm msgIn)) es = some d) :
    NoChannelLeak d ↔
      Along basicIpcStep StepKeepsChannels (some (ipcStart ram shm msgIn)) es := by
  have hrule := run_undamaged_iff_along (D := ChannelLost) (C := StepKeepsChannels)
    (I := fun d => ∃ s, d = some s ∧ OwnedOnce s) ?_ ?_ ?_ ?_
    ⟨_, rfl, ownedOnce_start ram shm msgIn⟩ h
  · rwa [← not_noChannelLeak_iff, not_not] at hrule
  · rintro _ e d' ⟨s, rfl, hs⟩ hkeeps hstep
    exact hs.step (hkeeps s rfl) hstep
  · rintro _ e d' ⟨s, rfl, hs⟩ hkeeps hstep
    refine hs.step_lost (fun hkeep => hkeeps fun s' hs' => ?_) hstep
    exact Option.some.inj hs' ▸ hkeep
  · exact fun d e d' hlost hstep => hlost.step hstep
  · rintro _ ⟨s, rfl, hs⟩
    exact fun hlost => not_noChannelLeak_iff.mpr hlost ⟨s, rfl, hs.accounted⟩

/-- The answer to `IPC_MSG_LOAD_CODE` frees its channel, and so does the callback of a message of
the application. -/
theorem no_channel_leak_iff_loadCode :
    ∃ d, run basicIpcStep (some (ipcStart (fun _ => 0) (fun _ => 0) fun _ => ⟨0, 0, 0, 0⟩))
        [.loadCode, .use (.alloc 16), .use (.insert 1 4 16 (some (.user 0))), .sent 3 [],
          .sent 1 [.free 1]] = some d ∧ NoChannelLeak d := by
  obtain ⟨d, hd⟩ := Option.isSome_iff_exists.mp (show (run basicIpcStep
    (some (ipcStart (fun _ => 0) (fun _ => 0) fun _ => ⟨0, 0, 0, 0⟩))
    [.loadCode, .use (.alloc 16), .use (.insert 1 4 16 (some (.user 0))), .sent 3 [],
      .sent 1 [.free 1]]).isSome = true by decide +kernel)
  exact ⟨d, hd, (no_channel_leak_iff hd).mpr (by decide +kernel)⟩

/-- The fifth answer that the MCU does not complete has no channel. -/
example : run basicIpcStep (some (ipcStart (fun _ => 0) (fun _ => 0) fun _ => ⟨0, 0, 0, 0⟩))
    (List.replicate 5 .loadCode) = some none := rfl

/-- The message of `app_ipc_ready` does not: when `IPC_MSG_DSP_READY` has been handled, its
channel is neither available nor held nor in flight. -/
theorem dsp_ready_leaks_channel :
    ∃ t, run basicIpcStep (some (ipcStart (fun _ => 0) (fun _ => 0) fun _ => ⟨0, 0, 0, 0⟩))
        [.ready, .sent 3 []] = some (some t) ∧ ¬ t.ipc.Accounted t.held ∧ Leaked 3 t := by
  have hleak : ((run basicIpcStep
      (some (ipcStart (fun _ => 0) (fun _ => 0) fun _ => ⟨0, 0, 0, 0⟩))
      [.ready, .sent 3 []]).bind id).map (fun t => (t.ipc.availableBuffer.getLsbD 3,
        t.ipc.log.flight 3, t.held 3)) = some (false, none, none) := by decide +kernel
  obtain ⟨t, ht, heq⟩ := Option.map_eq_some_iff.mp hleak
  obtain ⟨d, hd, rfl⟩ := Option.bind_eq_some_iff.mp ht
  simp only [Prod.mk.injEq] at heq
  have hleaked : Leaked 3 t := ⟨heq.1, heq.2.1, heq.2.2⟩
  exact ⟨t, hd, not_accounted_iff.mpr ⟨3, by decide, hleaked⟩, hleaked⟩

end Fr5080
