import Fr5080.Embedded.Run
import Fr5080.Kernel.Resuming

/-!
# Fr5080.Kernel.Run

The scheduler as a system: interrupts and calls come in any order, as long as the callers
keep to what the kernel expects (`KernelSys.Allowed`).  `KernelSys.Inv` holds from event to
event, and each event is possible (`KernelSys.Inv.step`).

`vTaskDelay` and the functions of `queue.c` suspend the scheduler, put the task that runs into its
lists, resume the scheduler and yield; these are events of their own here, so that interrupts may
come between them.  So are the two critical sections of `vTaskSuspend` and its end.
-/

namespace Fr5080

open Embedded

variable {τ ε : Type*} [DecidableEq τ] [DecidableEq ε]

/-! ## the system -/

/-- What happens: the tick interrupt, the handler that switches the context, and the calls of tasks
and of interrupts. -/
inductive KernelEvent (τ ε : Type*)
  | tick
  | switchContext
  | suspendAll
  | resumeAll
  | delay (xTicksToDelay : UInt32)
  | placeOnEventList (e : ε) (xTicksToWait : UInt32)
  | removeFromEventList (e : ε)
  | suspend (t : τ)
  | resetNextTaskUnblockTime
  | suspendYield
  | resume (t : τ)
  | resumeFromISR (t : τ)
  | abortDelay (t : τ)
  | create (t : τ) (uxPriority : Nat)
  | yield

namespace KernelSys

variable {s s' : KernelSys τ ε} {lo : Nat} {t : τ} {idle : τ} {Z : TaskList ε → Turns (TaskItem τ)}

/-- The kernel after a function, and whether the function asks for a context switch. -/
def next (s : KernelSys τ ε) (r : Kernel τ ε × Bool) : KernelSys τ ε :=
  { s with kernel := r.1, request := s.request || r.2 }

/-- One event. -/
def step (s : KernelSys τ ε) : KernelEvent τ ε → Option (KernelSys τ ε)
  | .tick => (xTaskIncrementTick s.kernel).map fun r =>
      { s with
        ticks := if s.kernel.uxSchedulerSuspended = 0 then s.ticks + 1 else s.ticks
        interrupts := s.interrupts + 1 }.next r
  | .switchContext => (vTaskSwitchContext s.kernel).map fun κ =>
      { s with
        kernel := κ
        since :=
          if s.kernel.uxSchedulerSuspended = 0 then s.selected κ.pxCurrentTCB else s.since
        request := false }
  | .suspendAll => some (s.on (vTaskSuspendAll s.kernel))
  | .resumeAll => (xTaskResumeAll s.kernel).map fun r =>
      { s with
        ticks :=
          if s.kernel.uxSchedulerSuspended = 1 then s.ticks + s.kernel.xPendedTicks.toNat
          else s.ticks }.next r
  | .delay xTicksToDelay =>
      (prvAddCurrentTaskToDelayedList xTicksToDelay false s.kernel).map
        (s.blocks s.kernel.pxCurrentTCB xTicksToDelay false).on
  | .placeOnEventList e xTicksToWait =>
      (vTaskPlaceOnEventList e xTicksToWait s.kernel).map
        ((s.blocks s.kernel.pxCurrentTCB xTicksToWait true).arrives s.kernel.pxCurrentTCB).on
  | .removeFromEventList e =>
      (listGetHeadEntry (.event e) s.kernel.lists).bind fun item =>
        (xTaskRemoveFromEventList e s.kernel).map (s.unwait item.pvOwner).next
  | .suspend t => (vTaskSuspend t s.kernel).map (s.rests t).on
  | .resetNextTaskUnblockTime => some (s.on (prvResetNextTaskUnblockTime s.kernel))
  | .suspendYield => (vTaskSuspendYield s.kernel).map s.next
  | .resume t => (vTaskResume t s.kernel).map s.next
  | .resumeFromISR t => (xTaskResumeFromISR t s.kernel).map s.next
  | .abortDelay t =>
      (taskAbortDelay t s.kernel).map (if taskIsBlocked t s.kernel then s.unwait t else s).on
  | .create t uxPriority =>
      some (s.next (prvAddNewTaskToReadyList t (prvInitialiseNewTask t uxPriority s.kernel)))
  | .yield => some { s with request := true }

/-- The task that runs may block. -/
def MayBlock (idle : τ) (s : KernelSys τ ε) : Prop :=
  s.stateList s.kernel.pxCurrentTCB =
      some (.ready (s.kernel.uxPriority s.kernel.pxCurrentTCB)) ∧ s.kernel.pxCurrentTCB ≠ idle

/-- What the callers of the kernel keep to: the task that runs has not blocked, and the idle task
never does; an event list has a task to release; a task that is suspended is there, and one that
suspends itself has not suspended the scheduler; a new task has a block of its own; and the
suspensions of the scheduler are not so many that their count wraps. -/
def Allowed (idle : τ) (s : KernelSys τ ε) : KernelEvent τ ε → Prop
  | .suspendAll => s.kernel.uxSchedulerSuspended + 1 < 2 ^ 32
  | .resumeAll => s.kernel.uxSchedulerSuspended ≠ 0
  | .delay xTicksToDelay => xTicksToDelay ≠ 0 ∧ s.MayBlock idle
  | .placeOnEventList _ xTicksToWait => xTicksToWait ≠ 0 ∧ s.MayBlock idle
  | .removeFromEventList e => listIsEmpty (.event e) s.kernel.lists = false
  | .suspend t => s.stateList t ≠ none ∧ t ≠ idle
  | .suspendYield => s.kernel.uxSchedulerSuspended = 0
  | .abortDelay _ => s.kernel.uxSchedulerSuspended ≠ 0
  | .create t _ => s.stateList t = none ∧ s.eventList t = none
  | _ => True

instance Allowed.decidable (idle : τ) (s : KernelSys τ ε) :
    ∀ e, Decidable (Allowed idle s e)
  | .resumeAll => inferInstanceAs (Decidable (_ ≠ _))
  | .delay _ => inferInstanceAs (Decidable (_ ≠ _ ∧ _ = _ ∧ _ ≠ _))
  | .placeOnEventList _ _ => inferInstanceAs (Decidable (_ ≠ _ ∧ _ = _ ∧ _ ≠ _))
  | .removeFromEventList _ => inferInstanceAs (Decidable (_ = _))
  | .suspendAll => inferInstanceAs (Decidable (_ < _))
  | .suspend _ => inferInstanceAs (Decidable (_ ≠ _ ∧ _ ≠ _))
  | .suspendYield => inferInstanceAs (Decidable (_ = _))
  | .abortDelay _ => inferInstanceAs (Decidable (_ ≠ _))
  | .create _ _ => inferInstanceAs (Decidable (_ = _ ∧ _ = _))
  | .tick | .switchContext | .resetNextTaskUnblockTime | .resume _ | .resumeFromISR _ | .yield =>
      isTrue trivial

/-! ## the invariant -/

/-- The running task is one of the highest priority, or a context switch has been asked for, or
will be when the scheduler is resumed. -/
def Asked (s : KernelSys τ ε) : Prop :=
  s.request = true ∨ s.kernel.xYieldPending = true ∧ s.kernel.uxSchedulerSuspended ≠ 0 ∨ s.Highest

/-- What holds in every run. -/
structure Inv (idle : τ) (s : KernelSys τ ε) : Prop where
  shape : ∃ Z, Shape idle idleHands (s.ticks + 1) s Z
  running : s.kernel.uxSchedulerSuspended = 0 → s.kernel.xPendedTicks = 0 ∧
    ∀ t, s.eventList t ≠ some .pendingReady
  counted : (s.ticks + s.kernel.xPendedTicks.toNat) % 2 ^ 32 = s.interrupts % 2 ^ 32
  asked : s.Asked

omit [DecidableEq τ] [DecidableEq ε] in
/-- A step that asks for a context switch where the running task may no longer be the right one. -/
theorem Asked.keep (h : s.Asked)
    (hsuspended : s'.kernel.uxSchedulerSuspended = s.kernel.uxSchedulerSuspended)
    (hpending : s.kernel.xYieldPending = true → s'.kernel.xYieldPending = true)
    (hrequest : s.request = true → s'.request = true)
    (hhighest : s'.request = false → s.Highest → s'.Highest) : s'.Asked := by
  obtain hasked | hpend | hhigh := h
  · exact Or.inl (hrequest hasked)
  · exact Or.inr (Or.inl ⟨hpending hpend.1, hsuspended ▸ hpend.2⟩)
  · by_cases hasked : s'.request = true
    · exact Or.inl hasked
    · exact Or.inr (Or.inr (hhighest (Bool.eq_false_iff.mpr hasked) hhigh))

omit [DecidableEq τ] [DecidableEq ε] in
/-- Fewer tasks are ready. -/
theorem Highest.mono (h : s.Highest) (hready : ∀ u, s'.Ready u → s.Ready u)
    (hpriority : s'.kernel.uxPriority = s.kernel.uxPriority)
    (hcurrent : s'.kernel.pxCurrentTCB = s.kernel.pxCurrentTCB) : s'.Highest := by
  intro u hu
  rw [hpriority, hcurrent]
  exact h u (hready u hu)

omit [DecidableEq ε] in
/-- Interrupts and requests are no part of the lists. -/
theorem Shape.asks (h : Shape idle idleHands lo s Z) (n : Nat) (b : Bool) :
    Shape idle idleHands lo { s with interrupts := n, request := b } Z := by
  refine ⟨h.lists, h.marks, h.names, h.sorted, h.events, h.items, fun t ht => ?_, h.next, h.ready,
    h.turns, h.idle, h.top, h.current, h.number, h.tick, h.overflows⟩
  exact (h.tasks t ht).congr rfl (fun _ => id) (fun _ _ => rfl) rfl rfl rfl rfl rfl id rfl le_rfl
    rfl

omit [DecidableEq τ] [DecidableEq ε] in
/-- No task is put off while the scheduler is not suspended. -/
theorem Keeps.not_pending {κ κ' : Kernel τ ε} (h : Keeps κ κ') (hrun : κ.uxSchedulerSuspended = 0)
    (hnone : ∀ t, κ.lists.pxContainer (.event t) ≠ some .pendingReady) (t : τ) :
    κ'.lists.pxContainer (.event t) ≠ some .pendingReady := by
  obtain heq | heq := h.events hrun t
  · rw [heq]
    exact hnone t
  · rw [heq]
    exact (Option.some_ne_none _).symm

omit [DecidableEq ε] in
/-- A function that neither counts ticks nor suspends the scheduler. -/
theorem Inv.keep (h : s.Inv idle) (hshape : ∃ Z, Shape idle idleHands (s'.ticks + 1) s' Z)
    (hkeeps : Keeps s.kernel s'.kernel) (hticks : s'.ticks = s.ticks)
    (hinterrupts : s'.interrupts = s.interrupts) (hasked : s'.Asked) : s'.Inv idle := by
  refine ⟨hshape, fun hrun => ?_, ?_, hasked⟩
  · have hrun' : s.kernel.uxSchedulerSuspended = 0 := hkeeps.suspended ▸ hrun
    obtain ⟨hpended, hnone⟩ := h.running hrun'
    exact ⟨hkeeps.pended.trans hpended, hkeeps.not_pending hrun' hnone⟩
  · rw [hkeeps.pended, hticks, hinterrupts]
    exact h.counted

omit [DecidableEq τ] [DecidableEq ε] in
/-- A function that never asks for a context switch. -/
theorem on_eq_next {s : KernelSys τ ε} {κ : Kernel τ ε} : s.on κ = s.next (κ, false) := by
  rw [next, Bool.or_false]
  rfl

omit [DecidableEq τ] [DecidableEq ε] in
/-- A context switch that has been asked for is not forgotten. -/
theorem request_next {r : Kernel τ ε × Bool} (h : s.request = true) : (s.next r).request = true :=
  Bool.or_eq_true_iff.mpr (Or.inl h)

omit [DecidableEq τ] [DecidableEq ε] in
/-- Where no switch has been asked for, the function has not asked for one. -/
theorem of_request_next {r : Kernel τ ε × Bool} (h : (s.next r).request = false) : r.2 = false :=
  (Bool.or_eq_false_iff.mp h).2

omit [DecidableEq ε] in
/-- The function returns, and what it leaves is a scheduler. -/
theorem Inv.goes (h : s.Inv idle) {κ : Kernel τ ε} {s₁ : KernelSys τ ε}
    (hshape : Shape idle idleHands (s.ticks + 1) (s₁.on κ) Z) (hkeeps : Keeps s.kernel κ)
    (hticks : s₁.ticks = s.ticks) (hinterrupts : s₁.interrupts = s.interrupts)
    (hrequest : s₁.request = s.request)
    (hpending : s.kernel.xYieldPending = true → κ.xYieldPending = true) {b : Bool}
    (hhighest : b = false → s.Highest → (s₁.on κ).Highest) : (s₁.next (κ, b)).Inv idle := by
  refine h.keep ⟨Z, ?_⟩ hkeeps hticks hinterrupts ?_
  · change Shape idle idleHands (s₁.ticks + 1) _ Z
    rw [hticks]
    exact hshape.asks s₁.interrupts (s₁.request || b)
  · exact h.asked.keep hkeeps.suspended hpending
      (fun hasked => request_next (hrequest.trans hasked))
      fun hnot => hhighest (of_request_next hnot)

/-- The tick interrupt: with the scheduler suspended it is only counted. -/
theorem Inv.tick (h : s.Inv idle) :
    ∃ s', step s .tick = some s' ∧ s'.Inv idle := by
  obtain ⟨Z, hshape⟩ := h.shape
  by_cases hrun : s.kernel.uxSchedulerSuspended = 0
  · obtain ⟨κ, b, Z', htick, hshape', hkeeps, hpending, hhighest, -⟩ := hshape.incrementTick hrun
    obtain ⟨hpended, hnone⟩ := h.running hrun
    refine ⟨{ s with ticks := s.ticks + 1, interrupts := s.interrupts + 1 }.next (κ, b),
      by simp only [step, htick, Option.map_some, if_pos hrun], ?_⟩
    refine ⟨⟨Z', hshape'.asks (s.interrupts + 1) (s.request || b)⟩,
      fun _ => ⟨hkeeps.pended.trans hpended, hkeeps.not_pending hrun hnone⟩, ?_, ?_⟩
    · have hcounted := h.counted
      change (s.ticks + 1 + κ.xPendedTicks.toNat) % 2 ^ 32 = (s.interrupts + 1) % 2 ^ 32
      rw [hkeeps.pended]
      omega
    · exact h.asked.keep hkeeps.suspended (fun hy => hpending.trans hy) request_next
        fun hnot => hhighest (of_request_next hnot)
  · have htick : xTaskIncrementTick s.kernel =
        some ({ s.kernel with xPendedTicks := s.kernel.xPendedTicks + 1 }, false) := by
      rw [xTaskIncrementTick, if_neg hrun]
    refine ⟨{ s with interrupts := s.interrupts + 1 }.next
      ({ s.kernel with xPendedTicks := s.kernel.xPendedTicks + 1 }, false),
      by simp only [step, htick, Option.map_some, if_neg hrun], ?_⟩
    refine ⟨⟨Z, ?_⟩, fun hrun' => absurd hrun' hrun, ?_, ?_⟩
    · have hvars := hshape.vars (κ := { s.kernel with xPendedTicks := s.kernel.xPendedTicks + 1 })
        rfl rfl rfl rfl rfl rfl rfl rfl (hshape.next · ·) le_rfl hshape.top
      exact hvars.asks (s.interrupts + 1) (s.request || false)
    · have hcounted := h.counted
      change (s.ticks + (s.kernel.xPendedTicks + 1).toNat) % 2 ^ 32 = (s.interrupts + 1) % 2 ^ 32
      rw [UInt32.toNat_add]
      change (s.ticks + (s.kernel.xPendedTicks.toNat + 1) % 2 ^ 32) % 2 ^ 32 = _
      omega
    · exact h.asked.keep rfl id request_next fun _ => id

/-- The switch of the context selects a ready task of the highest priority. -/
theorem Inv.selects (h : s.Inv idle) (hrun : s.kernel.uxSchedulerSuspended = 0) :
    ∃ s', step s .switchContext = some s' ∧ s'.Inv idle ∧ s'.Ready s'.kernel.pxCurrentTCB ∧
      s'.Highest ∧ ∀ u, s'.Ready u ↔ s.Ready u := by
  obtain ⟨Z, hshape⟩ := h.shape
  have hvars := hshape.vars (κ := { s.kernel with xYieldPending := false }) rfl rfl rfl rfl rfl
    rfl rfl rfl (hshape.next · ·) le_rfl hshape.top
  obtain ⟨t, m, Z', hselect, hcontainer, hready, hhighest, hshape'⟩ := hvars.select
  obtain ⟨hpended, hnone⟩ := h.running hrun
  have hswitch : vTaskSwitchContext s.kernel = some { s.kernel with
      pxCurrentTCB := t, lists := m, xYieldPending := false,
      uxTopReadyPriority := s.kernel.uxPriority t } := by
    rw [vTaskSwitchContext, if_neg (not_not.mpr hrun)]
    exact hselect
  obtain ⟨s', hs'⟩ : ∃ s' : KernelSys τ ε, s' = { s with
      kernel := { s.kernel with
        pxCurrentTCB := t, lists := m, xYieldPending := false,
        uxTopReadyPriority := s.kernel.uxPriority t }
      since := s.selected t, request := false } := ⟨_, rfl⟩
  have hsame : ∀ u, s'.Ready u ↔ s.Ready u := by
    intro u
    rw [hs', Ready, stateList, hcontainer]
    rfl
  have hhigh : s'.Highest := by
    intro u hu
    rw [hs']
    exact hhighest u ((hsame u).mp hu)
  refine ⟨s', by simp only [step, hswitch, Option.map_some, if_pos hrun, hs'], ?_, ?_, hhigh, hsame⟩
  · refine ⟨⟨Z', ?_⟩, fun _ => ?_, ?_, Or.inr (Or.inr hhigh)⟩
    · rw [hs']
      exact hshape'.asks s.interrupts false
    · rw [hs']
      exact ⟨hpended, fun u hu => hnone u ((congrFun hcontainer _).symm.trans hu)⟩
    · rw [hs']
      exact h.counted
  · rw [hsame, hs']
    exact hready

/-- The context switch; with the scheduler suspended it is put off. -/
theorem Inv.switchContext (h : s.Inv idle) :
    ∃ s', step s .switchContext = some s' ∧ s'.Inv idle := by
  by_cases hrun : s.kernel.uxSchedulerSuspended = 0
  · obtain ⟨s', hstep, hinv, -⟩ := h.selects hrun
    exact ⟨s', hstep, hinv⟩
  · obtain ⟨Z, hshape⟩ := h.shape
    have hswitch : vTaskSwitchContext s.kernel = some { s.kernel with xYieldPending := true } := by
      rw [vTaskSwitchContext, if_pos hrun]
    refine ⟨{ s with kernel := { s.kernel with xYieldPending := true }, request := false },
      by simp only [step, hswitch, Option.map_some, if_neg hrun], ?_⟩
    refine ⟨⟨Z, ?_⟩, fun hrun' => absurd hrun' hrun, h.counted, Or.inr (Or.inl ⟨rfl, hrun⟩)⟩
    have hvars := hshape.vars (κ := { s.kernel with xYieldPending := true }) rfl rfl rfl rfl rfl
      rfl rfl rfl (hshape.next · ·) le_rfl hshape.top
    exact hvars.asks s.interrupts false

/-- `vTaskSuspendAll` changes the counter only. -/
theorem Inv.suspendAll (h : s.Inv idle) :
    ∃ s', step s .suspendAll = some s' ∧ s'.Inv idle := by
  obtain ⟨Z, hshape⟩ := h.shape
  refine ⟨_, rfl, ⟨Z, ?_⟩, fun hrun => absurd hrun (Nat.succ_ne_zero _), h.counted, ?_⟩
  · exact hshape.vars rfl rfl rfl rfl rfl rfl rfl rfl (hshape.next · ·) le_rfl hshape.top
  · obtain hasked | hpend | hhigh := h.asked
    · exact Or.inl hasked
    · exact Or.inr (Or.inl ⟨hpend.1, Nat.succ_ne_zero _⟩)
    · exact Or.inr (Or.inr hhigh)

/-- `xTaskResumeAll`: the last call makes up for the ticks and the tasks that were put off. -/
theorem Inv.resumeAll (h : s.Inv idle) (hsuspended : s.kernel.uxSchedulerSuspended ≠ 0) :
    ∃ s', step s .resumeAll = some s' ∧ s'.Inv idle := by
  obtain ⟨Z, hshape⟩ := h.shape
  by_cases hlast : s.kernel.uxSchedulerSuspended = 1
  · obtain ⟨κ, Z', hresume, hshape', hrun, hpended, hpriority, hcurrent, hnone, hhighest⟩ :=
      hshape.resumeAll hlast
    refine ⟨{ s with ticks := s.ticks + s.kernel.xPendedTicks.toNat }.next (κ, κ.xYieldPending),
      by simp only [step, hresume, Option.map_some, if_pos hlast], ?_⟩
    refine ⟨⟨Z', hshape'.asks s.interrupts (s.request || κ.xYieldPending)⟩,
      fun _ => ⟨hpended, hnone⟩, ?_, ?_⟩
    · change (s.ticks + s.kernel.xPendedTicks.toNat + κ.xPendedTicks.toNat) % 2 ^ 32 = _
      rw [hpended]
      exact h.counted
    · by_cases hyield : κ.xYieldPending = true
      · refine Or.inl ?_
        change (s.request || κ.xYieldPending) = true
        rw [hyield, Bool.or_true]
      · obtain ⟨hnot, hhigh⟩ := hhighest (Bool.eq_false_iff.mpr hyield)
        obtain hasked | hpend | hhigh' := h.asked
        · exact Or.inl (request_next hasked)
        · rw [hnot] at hpend
          cases hpend.1
        · exact Or.inr (Or.inr (hhigh hhigh'))
  · obtain ⟨hresume, hshape'⟩ := hshape.resumeAll_nested (by omega)
    refine ⟨s.next ({ s.kernel with
        uxSchedulerSuspended := s.kernel.uxSchedulerSuspended - 1 }, false),
      by simp only [step, hresume, Option.map_some, if_neg hlast], ?_⟩
    refine ⟨⟨Z, hshape'.asks s.interrupts (s.request || false)⟩, fun hrun => ?_, h.counted, ?_⟩
    · change s.kernel.uxSchedulerSuspended - 1 = 0 at hrun
      omega
    · obtain hasked | hpend | hhigh := h.asked
      · exact Or.inl (request_next hasked)
      · refine Or.inr (Or.inl ⟨hpend.1, ?_⟩)
        change s.kernel.uxSchedulerSuspended - 1 ≠ 0
        omega
      · exact Or.inr (Or.inr hhigh)

/-- `vTaskDelay` makes no task ready. -/
theorem Inv.delay (h : s.Inv idle) {n : UInt32} (hn : n ≠ 0) (hblock : s.MayBlock idle) :
    ∃ s', step s (.delay n) = some s' ∧ s'.Inv idle := by
  obtain ⟨Z, hshape⟩ := h.shape
  obtain ⟨κ, Z', hdelay, hshape', hkeeps, hpending, hready⟩ :=
    hshape.delay hn hblock.1 hblock.2
  refine ⟨_, by rw [step, hdelay, Option.map_some], ?_⟩
  rw [on_eq_next]
  refine h.goes hshape' hkeeps rfl rfl rfl (fun hy => hpending.trans hy) fun _ hhigh => ?_
  exact hhigh.mono hready hkeeps.priority hkeeps.current

/-- A task that waits for an event is in an event list and not ready. -/
theorem Inv.placeOnEventList (h : s.Inv idle) (e : ε) {n : UInt32} (hn : n ≠ 0)
    (hblock : s.MayBlock idle) :
    ∃ s', step s (.placeOnEventList e n) = some s' ∧ s'.Inv idle := by
  obtain ⟨Z, hshape⟩ := h.shape
  obtain ⟨κ, Z', hplace, hshape', hpriority, hcurrent, hsuspended, hpended, hpending, hevents,
    hready⟩ := hshape.placeOnEventList e hn hblock.1 hblock.2
  refine ⟨_, by rw [step, hplace, Option.map_some], ⟨Z', hshape'⟩, fun hrun => ?_, ?_, ?_⟩
  · obtain ⟨hpended', hnone⟩ := h.running (hsuspended.symm.trans hrun)
    refine ⟨hpended.trans hpended', fun u hu => ?_⟩
    -- A task that comes into an event list does not come into that of pending tasks.
    obtain heq | heq := hevents u
    · exact hnone u (heq.symm.trans hu)
    · cases heq.symm.trans hu
  · change (s.ticks + κ.xPendedTicks.toNat) % 2 ^ 32 = _
    rw [hpended]
    exact h.counted
  · refine h.asked.keep hsuspended (fun hy => hpending.trans hy) id fun _ hhigh => ?_
    exact hhigh.mono hready hpriority hcurrent

/-- An event makes the first waiting task ready, and asks for a switch where that has the higher
priority. -/
theorem Inv.removeFromEventList (h : s.Inv idle) {e : ε}
    (he : listIsEmpty (.event e) s.kernel.lists = false) :
    ∃ s', step s (.removeFromEventList e) = some s' ∧ s'.Inv idle := by
  obtain ⟨Z, hshape⟩ := h.shape
  obtain ⟨t, κ, Z', hhead, -, -, hremove, hshape', hkeeps, hpending, -, hready⟩ :=
    hshape.removeFromEventList he
  refine ⟨_, by rw [step, hhead, Option.bind_some, hremove, Option.map_some], ?_⟩
  refine h.goes hshape' hkeeps rfl rfl rfl hpending fun hlow hhigh => ?_
  refine Highest.of_ready (t := t) hhigh hkeeps.priority hkeeps.current (fun u hu => ?_)
    (Nat.le_of_not_lt (of_decide_eq_false hlow))
  obtain hu | ⟨rfl, -⟩ := hready u hu
  · exact Or.inr hu
  · exact Or.inl rfl

/-- The first critical section of `vTaskSuspend`. -/
theorem Inv.suspend (h : s.Inv idle) (hsome : s.stateList t ≠ none) (hidle : t ≠ idle) :
    ∃ s', step s (.suspend t) = some s' ∧ s'.Inv idle := by
  obtain ⟨Z, hshape⟩ := h.shape
  obtain ⟨κ, Z', hsuspend, hshape', hkeeps, hpending, hready⟩ := hshape.suspend hsome hidle
  refine ⟨_, by rw [step, hsuspend, Option.map_some], ?_⟩
  rw [on_eq_next]
  refine h.goes hshape' hkeeps rfl rfl rfl (fun hy => hpending.trans hy) fun _ hhigh => ?_
  exact hhigh.mono hready hkeeps.priority hkeeps.current

/-- `prvResetNextTaskUnblockTime`, in the second critical section of `vTaskSuspend`. -/
theorem Inv.resetNext (h : s.Inv idle) :
    ∃ s', step s .resetNextTaskUnblockTime = some s' ∧ s'.Inv idle := by
  obtain ⟨Z, hshape⟩ := h.shape
  have hshape' := hshape.resetNext
  refine ⟨_, rfl, ?_⟩
  rw [prvResetNextTaskUnblockTime_eq] at hshape' ⊢
  rw [on_eq_next]
  exact h.goes hshape' ⟨rfl, rfl, rfl, rfl, fun _ _ => Or.inl rfl⟩ rfl rfl rfl id fun _ => id

/-- The end of `vTaskSuspend`, where the task has suspended itself. -/
theorem Inv.suspendYield (h : s.Inv idle) (hrun : s.kernel.uxSchedulerSuspended = 0) :
    ∃ s', step s .suspendYield = some s' ∧ s'.Inv idle := by
  obtain ⟨Z, hshape⟩ := h.shape
  have hyield : vTaskSuspendYield s.kernel = some (s.kernel, true) := if_pos hrun
  refine ⟨s.next (s.kernel, true), by rw [step, hyield, Option.map_some], ?_⟩
  exact h.goes hshape ⟨rfl, rfl, rfl, rfl, fun _ _ => Or.inl rfl⟩ rfl rfl rfl id
    fun _ => id

/-- `vTaskResume`. -/
theorem Inv.resume (h : s.Inv idle) (t : τ) :
    ∃ s', step s (.resume t) = some s' ∧ s'.Inv idle := by
  obtain ⟨Z, hshape⟩ := h.shape
  obtain ⟨κ, b, Z', hresume, hshape', hkeeps, hpending, hhighest⟩ := hshape.resume t
  refine ⟨_, by rw [step, hresume, Option.map_some], ?_⟩
  exact h.goes hshape' hkeeps rfl rfl rfl (fun hy => hpending.trans hy) hhighest

/-- `xTaskResumeFromISR`. -/
theorem Inv.resumeFromISR (h : s.Inv idle) (t : τ) :
    ∃ s', step s (.resumeFromISR t) = some s' ∧ s'.Inv idle := by
  obtain ⟨Z, hshape⟩ := h.shape
  obtain ⟨κ, b, Z', hresume, hshape', hkeeps, hpending, hhighest⟩ := hshape.resumeFromISR t
  refine ⟨_, by rw [step, hresume, Option.map_some], ?_⟩
  exact h.goes hshape' hkeeps rfl rfl rfl hpending hhighest

/-- `xTaskAbortDelay`; the switch it may need is pending until the scheduler is resumed. -/
theorem Inv.abortDelay (h : s.Inv idle) (hsuspended : s.kernel.uxSchedulerSuspended ≠ 0) (t : τ) :
    ∃ s', step s (.abortDelay t) = some s' ∧ s'.Inv idle := by
  obtain ⟨Z, hshape⟩ := h.shape
  obtain ⟨κ, Z', habort, hshape', hkeeps, hpending, hhighest⟩ := hshape.abortDelay t
  obtain ⟨s₁, hs₁⟩ : ∃ s₁, s₁ = if taskIsBlocked t s.kernel then s.unwait t else s := ⟨_, rfl⟩
  have hsame : s₁.ticks = s.ticks ∧ s₁.interrupts = s.interrupts ∧ s₁.request = s.request := by
    rw [hs₁]
    split <;> exact ⟨rfl, rfl, rfl⟩
  refine ⟨_, by rw [step, habort, Option.map_some], ?_⟩
  rw [← hs₁] at hshape' ⊢
  refine h.keep ⟨Z', ?_⟩ hkeeps hsame.1 hsame.2.1 ?_
  · change Shape idle idleHands (s₁.ticks + 1) _ Z'
    rw [hsame.1]
    exact hshape'
  · -- Where a task of a higher priority is ready now, the yield is pending.
    by_cases hyield : κ.xYieldPending = true
    · exact Or.inr (Or.inl ⟨hyield, fun hrun => hsuspended (hkeeps.suspended.symm.trans hrun)⟩)
    · refine h.asked.keep hkeeps.suspended hpending (fun hasked => hsame.2.2.trans hasked)
        fun _ hhigh => ?_
      exact hhighest (Bool.eq_false_iff.mpr hyield) hhigh

/-- A new task, in no list before. -/
theorem Inv.create (h : s.Inv idle) (hstate : s.stateList t = none) (hevent : s.eventList t = none)
    (p : Nat) : ∃ s', step s (.create t p) = some s' ∧ s'.Inv idle := by
  obtain ⟨Z, hshape⟩ := h.shape
  obtain ⟨κ, b, Z', hcreate, hshape', hcurrent, hsuspended, hpended, hpending, hevents, hhighest⟩ :=
    hshape.create hstate hevent p
  refine ⟨s.next (κ, b), by rw [step, hcreate],
    ⟨Z', hshape'.asks s.interrupts (s.request || b)⟩, fun hrun => ?_, ?_, ?_⟩
  · obtain ⟨hpended', hnone⟩ := h.running (hsuspended.symm.trans hrun)
    exact ⟨hpended.trans hpended', fun u hu => hnone u ((hevents u).symm.trans hu)⟩
  · change (s.ticks + κ.xPendedTicks.toNat) % 2 ^ 32 = _
    rw [hpended]
    exact h.counted
  · exact h.asked.keep hsuspended (fun hy => hpending.trans hy) request_next
      fun hnot => hhighest (of_request_next hnot)

/-- Every event that is allowed is possible, and keeps the invariant. -/
theorem Inv.step (h : s.Inv idle) {e : KernelEvent τ ε} (hallowed : Allowed idle s e) :
    ∃ s', step s e = some s' ∧ s'.Inv idle := by
  cases e with
  | tick => exact h.tick
  | switchContext => exact h.switchContext
  | suspendAll => exact h.suspendAll
  | resumeAll => exact h.resumeAll hallowed
  | delay n => exact h.delay hallowed.1 hallowed.2
  | placeOnEventList e n => exact h.placeOnEventList e hallowed.1 hallowed.2
  | removeFromEventList e => exact h.removeFromEventList hallowed
  | suspend t => exact h.suspend hallowed.1 hallowed.2
  | resetNextTaskUnblockTime => exact h.resetNext
  | suspendYield => exact h.suspendYield hallowed
  | resume t => exact h.resume t
  | resumeFromISR t => exact h.resumeFromISR t
  | abortDelay t => exact h.abortDelay hallowed t
  | create t p => exact h.create hallowed.1 hallowed.2 p
  | yield =>
      obtain ⟨Z, hshape⟩ := h.shape
      exact ⟨_, rfl, ⟨Z, hshape.asks s.interrupts true⟩, h.running, h.counted, Or.inl rfl⟩

end KernelSys

end Fr5080
