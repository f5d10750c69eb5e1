import Fr5080.Kernel.Run

/-!
# Fr5080.Kernel.Scheduling

What the scheduler does for the tasks, in every run from the start on, whatever interrupts and calls
come and in whatever order:

* `scheduler_run_safe` — no assertion fails, and no list is damaged;
* `scheduler_highest` — the running task is one of the highest priority, or a context switch is on
  its way;
* `scheduler_overtaking` — the tasks of one priority take turns;
* `scheduler_delays` — a task that delays itself wakes up at its tick, neither earlier nor later;
* `scheduler_ticks` — no tick is lost;
* `scheduler_releases` — an event releases the task that has waited longest of those of the
  highest priority.
-/

namespace Fr5080

open Embedded

/-! ## the start -/

/-- All lists and all items initialised. -/
def ListMem.initialised {κ ι : Type*} (m : ListMem κ ι) : ListMem κ ι where
  pxNext
    | .head k => .head k
    | .item x => m.pxNext (.item x)
  pxPrevious
    | .head k => .head k
    | .item x => m.pxPrevious (.item x)
  xItemValue := m.xItemValue
  pxContainer _ := none
  pxIndex := .head
  uxNumberOfItems _ := 0

/-- There is nothing left for `vListInitialise` to do. -/
theorem vListInitialise_initialised {κ ι : Type*} [DecidableEq κ] [DecidableEq ι]
    (m : ListMem κ ι) (k : κ) : vListInitialise k m.initialised = m.initialised := by
  simp only [vListInitialise, ListMem.initialised, ListMem.mk.injEq, Function.update_eq_self_iff,
    and_self]

/-- After `prvInitialiseTaskLists` all lists are empty. -/
theorem lists_initialised {κ ι : Type*} (m : ListMem κ ι) :
    Lists m.initialised fun _ => ⟨[], []⟩ := by
  refine ⟨⟨⟨fun _ => List.nodup_nil, fun hx => (List.not_mem_nil hx).elim⟩, ?_, ?_⟩, fun _ => rfl,
    fun x k => ⟨fun h => (Option.some_ne_none k h.symm).elim, fun hx => (List.not_mem_nil hx).elim⟩,
    fun _ => rfl⟩
  · intro k l₁ l₂ hL
    obtain ⟨rfl, rfl⟩ := List.append_eq_nil_iff.mp hL.symm
    rfl
  · intro k l₁ l₂ hL
    obtain ⟨rfl, rfl⟩ := List.append_eq_nil_iff.mp hL.symm
    rfl

variable {τ ε : Type*} [DecidableEq τ] [DecidableEq ε]

/-- `vTaskStartScheduler`, when no other task has been created before: the idle task is there, and
runs.  The timer task is created by an event of its own. -/
def vTaskStartScheduler (idle : τ) (m : ListMem (TaskList ε) (TaskItem τ)) : Kernel τ ε :=
  prvAddTaskToReadyList idle (prvInitialiseNewTask idle 0
    { lists := m.initialised
      uxPriority := fun _ => 0
      ucDelayAborted := fun _ => false
      pxCurrentTCB := idle
      pxDelayedTaskList := .delayed1
      pxOverflowDelayedTaskList := .delayed2
      uxCurrentNumberOfTasks := 1
      xTickCount := 0
      uxTopReadyPriority := 0
      xPendedTicks := 0
      xYieldPending := false
      xNumOfOverflows := 0
      xNextTaskUnblockTime := portMaxDelay
      uxSchedulerSuspended := 0 })

/-- A tick interrupt. -/
def KernelEvent.isTick : KernelEvent τ ε → Bool
  | .tick => true
  | _ => false

namespace KernelSys

variable {s s' t : KernelSys τ ε} {u : τ} {idle : τ} {e : KernelEvent τ ε}
  {es : List (KernelEvent τ ε)} {m : ListMem (TaskList ε) (TaskItem τ)}

/-- The system at its start. -/
def start (idle : τ) (m : ListMem (TaskList ε) (TaskItem τ)) : KernelSys τ ε where
  kernel := vTaskStartScheduler idle m
  ticks := 0
  interrupts := 0
  wake _ := 0
  waiting _ := false
  arrived _ := 0
  clock := 0
  since _ := []
  request := false

/-- Only the idle task is in a list. -/
theorem stateList_start :
    (start idle m).stateList u = if u = idle then some (.ready 0) else none := by
  by_cases hu : u = idle
  · subst hu
    simp [stateList, start, vTaskStartScheduler, pxContainer_prvAddTaskToReadyList,
      prvInitialiseNewTask]
  · simp [stateList, start, vTaskStartScheduler, pxContainer_prvAddTaskToReadyList,
      prvInitialiseNewTask, hu, vListInitialiseItem, listSetItemValue, ListMem.initialised]

/-- No task waits for an event. -/
theorem eventList_start : (start idle m).eventList u = none := by
  simp [eventList, start, vTaskStartScheduler, pxContainer_prvAddTaskToReadyList,
    prvInitialiseNewTask, vListInitialiseItem, listSetItemValue, ListMem.initialised]

/-- The idle task has the lowest priority. -/
theorem uxPriority_start : (start idle m).kernel.uxPriority u = 0 := by
  simp [start, vTaskStartScheduler, prvAddTaskToReadyList, prvInitialiseNewTask]

/-- The list of the idle task. -/
def startLists (idle : τ) : TaskList ε → Turns (TaskItem τ) :=
  Function.update (fun _ => ⟨[], []⟩) (.ready 0) ⟨[], [.state idle]⟩

omit [DecidableEq τ] in
/-- The idle task is ready and in no other list. -/
theorem mem_startLists {k : TaskList ε} {x : TaskItem τ} (hx : x ∈ (startLists idle k).items) :
    k = .ready 0 ∧ x = .state idle := by
  by_cases hk : k = .ready 0
  · subst hk
    rw [startLists, Function.update_self] at hx
    exact ⟨rfl, List.mem_singleton.mp hx⟩
  · rw [startLists, Function.update_of_ne hk] at hx
    exact (List.not_mem_nil hx).elim

omit [DecidableEq τ] in
/-- One item is in order. -/
theorem pairwise_startLists {R : TaskItem τ → TaskItem τ → Prop} {k : TaskList ε} :
    (startLists idle k).items.Pairwise R := by
  by_cases hk : k = .ready 0
  · subst hk
    rw [startLists, Function.update_self]
    exact List.pairwise_singleton R _
  · rw [startLists, Function.update_of_ne hk]
    exact List.Pairwise.nil

/-- The lists at the start: that of priority 0 has the idle task. -/
theorem lists_start : Lists (start idle m).kernel.lists (startLists idle) := by
  obtain ⟨m', hm'⟩ : ∃ m', m' = listSetItemValue (.event idle)
      (UInt32.ofNat (configMaxPriorities - 0)) (vListInitialiseItem (.event idle)
        (vListInitialiseItem (.state idle) m.initialised)) := ⟨_, rfl⟩
  have hstart : (start idle m).kernel.lists = vListInsertEnd (.ready 0) (.state idle) m' := by
    simp [start, vTaskStartScheduler, prvAddTaskToReadyList, prvInitialiseNewTask, hm']
  have hcontainer : m'.pxContainer = m.initialised.pxContainer := by
    simp [hm', listSetItemValue, vListInitialiseItem, ListMem.initialised]
  rw [hstart]
  refine ((lists_initialised m).congr (hm' ▸ rfl) (hm' ▸ rfl) (hm' ▸ rfl) hcontainer
    (hm' ▸ rfl)).insertEnd ?_ (.ready 0)
  rw [hcontainer]
  rfl

/-- The invariant at the start. -/
theorem start_inv (idle : τ) (m : ListMem (TaskList ε) (TaskItem τ)) : (start idle m).Inv idle := by
  have hready : ∀ {u}, (start idle m).Ready u ↔ u = idle := by
    intro u
    rw [Ready, stateList_start, uxPriority_start]
    by_cases hu : u = idle <;> simp [hu]
  have hdelayed : ∀ u k, (start idle m).stateList u = some k → k = .ready 0 := by
    intro u k hk
    rw [stateList_start] at hk
    by_cases hu : u = idle
    · rw [if_pos hu] at hk
      exact (Option.some.inj hk).symm
    · rw [if_neg hu] at hk
      cases hk
  refine ⟨⟨startLists idle, lists_start, fun k hk => ?_, Or.inl ⟨rfl, rfl⟩,
    fun _ _ => pairwise_startLists, fun _ => pairwise_startLists, fun k x hx => ?_, fun u _ => ?_,
    fun u _ hu => ?_, fun u _ hu => ?_, fun u _ hu => ?_, ?_, ?_, Or.inr ?_, ?_, rfl, ?_⟩,
    fun _ => ⟨rfl, fun u => ?_⟩, rfl, Or.inr (Or.inr fun u _ => ?_)⟩
  · rw [startLists, Function.update_of_ne (hk 0)]
  · obtain ⟨rfl, rfl⟩ := mem_startLists hx
    simp [HoldsEvents]
  · refine ⟨fun k hk => ?_, fun k hk => ?_, fun e he => ?_, fun hsome => ?_, fun hu => ?_,
      fun hu => ?_, fun hw => (Bool.false_ne_true hw).elim, fun _ => rfl, fun _ => rfl⟩
    · rw [hdelayed u k hk, uxPriority_start]
      exact Or.inl rfl
    · rw [eventList_start] at hk
      cases hk
    · rw [eventList_start] at he
      cases he
    · rw [uxPriority_start]
      refine ⟨by decide, ?_⟩
      have hu : u = idle := by
        by_contra hne
        exact hsome (by rw [stateList_start, if_neg hne])
      subst hu
      exact Function.update_self _ _ _
    · cases hdelayed u _ hu
    · cases hdelayed u _ hu
  · cases hdelayed u _ hu
  · rw [uxPriority_start]
    exact Nat.zero_le _
  · obtain rfl := hready.mp hu
    rw [uxPriority_start, startLists, Function.update_self]
    exact TurnRun.Waiting.start (List.nodup_singleton _) (List.mem_singleton_self _)
  · exact ⟨by rw [stateList_start, if_pos rfl], uxPriority_start⟩
  · change (if _ then _ else _) < configMaxPriorities
    simp [prvInitialiseNewTask, configMaxPriorities]
  · change (start idle m).stateList idle ≠ none
    rw [stateList_start, if_pos rfl]
    exact Option.some_ne_none _
  · exact Nat.one_pos
  · change (0 : UInt32).toNat = 0 / 2 ^ 32 % 2 ^ 32
    decide
  · rw [eventList_start]
    exact (Option.some_ne_none _).symm
  · rw [uxPriority_start]
    exact Nat.zero_le _

/-! ## runs -/

/-- The runs of callers that keep to the rules are possible. -/
theorem inv_of_allowed (hallowed : Along step (Allowed idle) (start idle m) es) :
    ∃ t, run step (start idle m) es = some t ∧ t.Inv idle :=
  run_total_of_along (fun _ _ hs hC => hs.step hC) (start_inv idle m) hallowed

/-- The invariant holds after a run. -/
theorem inv_of_run (hallowed : Along step (Allowed idle) (start idle m) es)
    (hrun : run step (start idle m) es = some t) : t.Inv idle := by
  obtain ⟨t', hrun', hinv⟩ := inv_of_allowed hallowed
  cases hrun.symm.trans hrun'
  exact hinv

/-- The first events of an allowed run are one. -/
theorem allowed_take (hallowed : Along step (Allowed idle) (start idle m) es) (n : Nat) :
    Along step (Allowed idle) (start idle m) (es.take n) := by
  rw [← List.take_append_drop n es] at hallowed
  exact (along_append.mp hallowed).1

/-- What can be computed of the state after an allowed run. -/
theorem view_of_allowed (hallowed : Along step (Allowed idle) (start idle m) es)
    {P : KernelSys τ ε → Prop} [DecidablePred P]
    (hall : (run step (start idle m) es).all (P ·) = true) :
    ∃ t, run step (start idle m) es = some t ∧ P t := by
  obtain ⟨t, hrun, -⟩ := inv_of_allowed hallowed
  rw [hrun] at hall
  exact ⟨t, hrun, of_decide_eq_true hall⟩

/-- The lists are rings that hold what their tasks and their numbers say, each task is where its
state belongs, the idle task is ready, and nothing is put off where the scheduler is not
suspended. -/
structure Sound (idle : τ) (s : KernelSys τ ε) : Prop where
  lists : ∃ Z, Lists s.kernel.lists Z
  state : ∀ u k, s.stateList u = some k → k = .ready (s.kernel.uxPriority u) ∨ k = .delayed1 ∨
    k = .delayed2 ∨ k = .suspended
  event : ∀ u k, s.eventList u = some k → HoldsEvents k ∧ ¬ s.Ready u ∧ s.stateList u ≠ none
  idle : s.Ready idle
  current : s.stateList s.kernel.pxCurrentTCB ≠ none
  settled : s.kernel.uxSchedulerSuspended = 0 → s.kernel.xPendedTicks = 0 ∧
    ∀ u, s.eventList u ≠ some .pendingReady

omit [DecidableEq ε] in
/-- The invariant is enough for soundness. -/
theorem Inv.sound (h : s.Inv idle) : s.Sound idle := by
  obtain ⟨Z, hshape⟩ := h.shape
  refine ⟨⟨Z, hshape.lists⟩, fun u k hk => ?_, fun u k hk => (hshape.tasks u id).event k hk, ?_,
    hshape.current.resolve_left id, h.running⟩
  · have hstate := (hshape.tasks u id).state k hk
    obtain ⟨hd, ho⟩ | ⟨hd, ho⟩ := hshape.names
    · rwa [hd, ho] at hstate
    · rw [hd, ho] at hstate
      exact hstate.imp_right fun h => or_left_comm.mp h
  · rw [Ready, hshape.idle.2]
    exact hshape.idle.1

/-! ## the history -/

/-- Only the tick interrupt is counted. -/
theorem interrupts_step (h : step s e = some s') :
    s'.interrupts = s.interrupts + if e.isTick then 1 else 0 := by
  cases e with
  | abortDelay t =>
      obtain ⟨κ, -, rfl⟩ := Option.map_eq_some_iff.mp h
      by_cases hblocked : taskIsBlocked t s.kernel <;>
        simp [on, hblocked, unwait, KernelEvent.isTick]
  | removeFromEventList e =>
      obtain ⟨x, -, h⟩ := Option.bind_eq_some_iff.mp h
      obtain ⟨r, -, rfl⟩ := Option.map_eq_some_iff.mp h
      rfl
  | suspendAll | resetNextTaskUnblockTime | create t p | yield => cases h; rfl
  | _ =>
      obtain ⟨r, -, rfl⟩ := Option.map_eq_some_iff.mp h
      rfl

/-- The tick interrupts are counted. -/
theorem interrupts_of_run (h : run step s es = some t) :
    t.interrupts = s.interrupts + es.countP KernelEvent.isTick := by
  induction es generalizing s with
  | nil =>
      cases h
      rfl
  | cons e es ih =>
      obtain ⟨s', hstep, hrun⟩ := run_cons_eq_some.mp h
      rw [ih hrun, interrupts_step hstep, List.countP_cons]
      omega

/-- The event does not end the wait of a task, or begin another. -/
def Leaves (u : τ) (s : KernelSys τ ε) : KernelEvent τ ε → Prop
  | .delay _ | .placeOnEventList _ _ => s.kernel.pxCurrentTCB ≠ u
  | .removeFromEventList e => listGetHeadEntry (.event e) s.kernel.lists ≠ some (.event u)
  | .suspend t | .abortDelay t => t ≠ u
  | _ => True

/-- A wait goes on until an event ends it. -/
theorem waiting_step (hinv : s.Inv idle) (hallowed : Allowed idle s e) (hleft : Leaves u s e)
    (h : step s e = some s') : s'.waiting u = s.waiting u ∧ s'.wake u = s.wake u := by
  cases e with
  | delay n =>
      obtain ⟨κ, -, rfl⟩ := Option.map_eq_some_iff.mp h
      exact ⟨Function.update_of_ne (Ne.symm hleft) _ _, Function.update_of_ne (Ne.symm hleft) _ _⟩
  | placeOnEventList e n =>
      obtain ⟨κ, -, rfl⟩ := Option.map_eq_some_iff.mp h
      exact ⟨Function.update_of_ne (Ne.symm hleft) _ _, Function.update_of_ne (Ne.symm hleft) _ _⟩
  | removeFromEventList e =>
      obtain ⟨Z, hshape⟩ := hinv.shape
      obtain ⟨t, κ, Z', hhead, -⟩ := hshape.removeFromEventList hallowed
      obtain ⟨x, hx, h⟩ := Option.bind_eq_some_iff.mp h
      obtain ⟨r, -, rfl⟩ := Option.map_eq_some_iff.mp h
      cases hhead.symm.trans hx
      have hne : u ≠ t := by
        rintro rfl
        exact hleft hhead
      exact ⟨Function.update_of_ne hne _ _, rfl⟩
  | suspend t =>
      obtain ⟨r, -, rfl⟩ := Option.map_eq_some_iff.mp h
      exact ⟨Function.update_of_ne (Ne.symm hleft) _ _, rfl⟩
  | abortDelay t =>
      obtain ⟨κ, -, rfl⟩ := Option.map_eq_some_iff.mp h
      by_cases hblocked : taskIsBlocked t s.kernel = true
      · rw [if_pos hblocked]
        exact ⟨Function.update_of_ne (Ne.symm hleft) _ _, rfl⟩
      · rw [if_neg hblocked]
        exact ⟨rfl, rfl⟩
  | suspendAll | resetNextTaskUnblockTime | create t p | yield =>
      cases h
      exact ⟨rfl, rfl⟩
  | _ =>
      obtain ⟨r, -, rfl⟩ := Option.map_eq_some_iff.mp h
      exact ⟨rfl, rfl⟩

instance Leaves.decidable (u : τ) (s : KernelSys τ ε) : ∀ e, Decidable (Leaves u s e)
  | .delay _ | .placeOnEventList _ _ => inferInstanceAs (Decidable (s.kernel.pxCurrentTCB ≠ u))
  | .removeFromEventList _ => inferInstanceAs (Decidable (_ ≠ some (TaskItem.event u)))
  | .suspend t | .abortDelay t => inferInstanceAs (Decidable (t ≠ u))
  | .tick | .switchContext | .suspendAll | .resumeAll | .resetNextTaskUnblockTime |
    .suspendYield | .resume _ | .resumeFromISR _ | .create _ _ | .yield => isTrue trivial

/-- The wait of a task goes on. -/
theorem waiting_of_run (hinv : s.Inv idle) (hallowed : Along step (Allowed idle) s es)
    (hleft : Along step (Leaves u) s es) (h : run step s es = some t) :
    t.waiting u = s.waiting u ∧ t.wake u = s.wake u := by
  induction es generalizing s with
  | nil =>
      cases h
      exact ⟨rfl, rfl⟩
  | cons e es ih =>
      obtain ⟨s', hstep, hrun⟩ := run_cons_eq_some.mp h
      obtain ⟨s'', hstep', hinv'⟩ := hinv.step hallowed.1
      cases hstep.symm.trans hstep'
      obtain ⟨hwaiting, hwake⟩ := waiting_step hinv hallowed.1 hleft.1 hstep
      obtain ⟨hwaiting', hwake'⟩ := ih hinv' (hallowed.2 s' hstep) (hleft.2 s' hstep) hrun
      exact ⟨hwaiting'.trans hwaiting, hwake'.trans hwake⟩

/-- The task waits for its tick. -/
def Delayed (s : KernelSys τ ε) (u : τ) : Prop :=
  s.stateList u = some s.kernel.pxDelayedTaskList ∨
    s.stateList u = some s.kernel.pxOverflowDelayedTaskList

omit [DecidableEq ε] in
/-- A task that waits is delayed before its tick, and ready from its tick on. -/
theorem Inv.wakes (h : s.Inv idle) (hwaiting : s.waiting u = true) :
    (s.Delayed u ↔ s.ticks < s.wake u) ∧ (s.Ready u ↔ s.wake u ≤ s.ticks) := by
  obtain ⟨Z, hshape⟩ := h.shape
  have hok := hshape.tasks u id
  have hnames := hshape.delayed_ne.1 (s.kernel.uxPriority u)
  have hnot : s.Delayed u → ¬ s.Ready u := by
    rintro (hd | ho) hready
    · exact hnames.1 (Option.some.inj (hd.symm.trans hready))
    · exact hnames.2 (Option.some.inj (ho.symm.trans hready))
  have hlate : s.Delayed u → s.ticks < s.wake u := by
    rintro (hd | ho)
    · exact (hok.delayed hd).1
    · have hturn := (hok.overflow ho).1
      omega
  have hcases : s.Delayed u ∨ s.Ready u ∧ s.wake u ≤ s.ticks :=
    or_assoc.mpr (hok.waits hwaiting)
  constructor
  · refine ⟨hlate, fun hlt => hcases.resolve_right fun hready => ?_⟩
    exact absurd hready.2 (Nat.not_le.mpr hlt)
  · refine ⟨fun hready => ?_, fun hle => (hcases.resolve_left fun hd => ?_).1⟩
    · exact (hcases.resolve_left fun hd => hnot hd hready).2
    · exact absurd (hlate hd) (Nat.not_lt.mpr hle)

omit [DecidableEq ε] in
/-- The order of an event list is one of priorities. -/
theorem Shape.priority_of_before {lo : Nat} {Z : TaskList ε → Turns (TaskItem τ)} {v : τ}
    {k : TaskList ε} (h : Shape idle idleHands lo s Z) (hu : s.eventList u = some k)
    (hv : s.eventList v = some k)
    (hbefore : s.Before (.event u) (.event v)) :
    s.kernel.uxPriority v < s.kernel.uxPriority u ∨
      s.kernel.uxPriority v = s.kernel.uxPriority u ∧ s.arrived u < s.arrived v := by
  obtain ⟨hlow, hvalue⟩ := (h.tasks u id).priority ((h.tasks u id).event k hu).2.2
  obtain ⟨hlow', hvalue'⟩ := (h.tasks v id).priority ((h.tasks v id).event k hv).2.2
  have hnat : ∀ p, (UInt32.ofNat (configMaxPriorities - p)).toNat = configMaxPriorities - p := by
    intro p
    rw [UInt32.toNat_ofNat']
    exact Nat.mod_eq_of_lt (by rw [configMaxPriorities]; omega)
  rw [Before, hvalue, hvalue', UInt32.lt_iff_toNat_lt, ← UInt32.toNat_inj, hnat, hnat] at hbefore
  obtain hlt | ⟨heq, harrived⟩ := hbefore
  · exact Or.inl (by omega)
  · exact Or.inr ⟨by omega, harrived⟩

end KernelSys

open KernelSys

variable {s s' t : KernelSys τ ε} {u : τ} {idle : τ} {es es' : List (KernelEvent τ ε)}
  {m : ListMem (TaskList ε) (TaskItem τ)}

/-- **Safety**: whatever comes in whatever order, no `configASSERT` fails, no walk through a list
goes astray, and the lists stay in order. -/
theorem scheduler_run_safe (hallowed : Along step (Allowed idle) (start idle m) es) :
    ∃ t, run step (start idle m) es = some t ∧ t.Sound idle := by
  obtain ⟨t, hrun, hinv⟩ := inv_of_allowed hallowed
  exact ⟨t, hrun, hinv.sound⟩

/-- Memory before the start. -/
def schedulerMem : ListMem (TaskList Unit) (TaskItem (Fin 5)) :=
  ⟨fun _ => .head .suspended, fun _ => .head .suspended, fun _ => 0, fun _ => none,
    fun _ => .head .suspended, fun _ => 3⟩

/-- Three tasks of priority 2 take turns, and the second one delays itself for a tick, which costs
the first one a turn.  Then a task of priority 4 delays itself for three ticks, with the scheduler
suspended; it wakes up, suspends itself, and is resumed. -/
def schedulerExample : List (KernelEvent (Fin 5) Unit) :=
  [.create 1 2, .create 2 2, .create 3 2, .switchContext, .switchContext, .delay 1, .tick,
    .switchContext, .switchContext,
    .create 4 4, .switchContext, .suspendAll, .delay 3, .tick, .resumeAll, .switchContext, .tick,
    .tick, .switchContext,
    .suspend 4, .resetNextTaskUnblockTime, .suspendYield, .switchContext, .resume 4]

/-- Its callers keep the rules. -/
theorem schedulerExample_allowed (n : Nat) :
    Along step (Allowed 0) (start 0 schedulerMem) (schedulerExample.take n) :=
  allowed_take (by decide +kernel) n

/-- The whole run. -/
theorem schedulerExample_safe :
    ∃ t, run step (start 0 schedulerMem) (schedulerExample.take 24) = some t ∧ t.Sound 0 :=
  scheduler_run_safe (schedulerExample_allowed 24)

/-- **Priorities**: no ready task has a higher priority than the one that runs, or a context
switch has been asked for, or a yield is pending until the scheduler is resumed; and the switch
selects a ready task than which none has a higher priority. -/
theorem scheduler_highest (hallowed : Along step (Allowed idle) (start idle m) es)
    (hrun : run step (start idle m) es = some t) :
    (t.request = true ∨
      t.kernel.xYieldPending = true ∧ t.kernel.uxSchedulerSuspended ≠ 0 ∨ t.Highest) ∧
    (t.kernel.uxSchedulerSuspended = 0 → ∃ t', t.step .switchContext = some t' ∧
      t'.Ready t'.kernel.pxCurrentTCB ∧ t'.Highest ∧ ∀ u, t'.Ready u ↔ t.Ready u) := by
  have hinv := inv_of_run hallowed hrun
  refine ⟨hinv.asked, fun hrunning => ?_⟩
  obtain ⟨t', hstep, -, hselects⟩ := hinv.selects hrunning
  exact ⟨t', hstep, hselects⟩

/-- The task of priority 4 is there, but has not been selected: the context switch has been asked
for, and selects it. -/
theorem schedulerExample_highest :
    ∃ t, run step (start 0 schedulerMem) (schedulerExample.take 10) = some t ∧ ¬ t.Highest ∧
      t.request = true ∧ ∃ t', t.step .switchContext = some t' ∧ t'.Highest := by
  obtain ⟨t, hrun, hready, hpriority, hrunning⟩ := view_of_allowed (schedulerExample_allowed 10)
    (P := fun t => t.stateList 4 = some (.ready (t.kernel.uxPriority 4)) ∧
      t.kernel.uxPriority t.kernel.pxCurrentTCB < t.kernel.uxPriority 4 ∧
      t.kernel.uxSchedulerSuspended = 0) (by decide +kernel)
  have hlow : ¬ t.Highest := fun hhigh => Nat.not_lt.mpr (hhigh 4 hready) hpriority
  obtain ⟨hasked, hselects⟩ := scheduler_highest (schedulerExample_allowed 10) hrun
  obtain ⟨t', hswitch, -, hhigh, -⟩ := hselects hrunning
  refine ⟨t, hrun, hlow, ?_, t', hswitch, hhigh⟩
  obtain hasked | hpend | hhigh := hasked
  · exact hasked
  · exact absurd hrunning hpend.2
  · exact absurd hhigh hlow

/-- **Turns**: while a ready task waits for its turn, no other task of its priority is selected
more than twice, whatever tasks block and become ready meanwhile. -/
theorem scheduler_overtaking (hallowed : Along step (Allowed idle) (start idle m) es)
    (hrun : run step (start idle m) es = some t) (hready : t.Ready u) (x : TaskItem τ) :
    (t.since u).count x ≤ 2 := by
  obtain ⟨Z, hshape⟩ := (inv_of_run hallowed hrun).shape
  exact (hshape.turns u id hready).count_le x

/-- Twice it can be. -/
theorem schedulerExample_overtaking :
    ∃ t, run step (start 0 schedulerMem) (schedulerExample.take 9) = some t ∧
      t.since 1 = [.state 2, .state 3, .state 2] ∧ ∀ x, (t.since 1).count x ≤ 2 := by
  obtain ⟨t, hrun, hready, hsince⟩ := view_of_allowed (schedulerExample_allowed 9)
    (P := fun t => t.stateList 1 = some (.ready (t.kernel.uxPriority 1)) ∧
      t.since 1 = [.state 2, .state 3, .state 2]) (by decide +kernel)
  exact ⟨t, hrun, hsince, scheduler_overtaking (schedulerExample_allowed 9) hrun hready⟩

/-- **Ticks**: each tick interrupt has been counted, or will be when the scheduler is resumed. -/
theorem scheduler_ticks (hallowed : Along step (Allowed idle) (start idle m) es)
    (hrun : run step (start idle m) es = some t) :
    t.kernel.xTickCount + t.kernel.xPendedTicks = UInt32.ofNat (es.countP KernelEvent.isTick) := by
  have hinv := inv_of_run hallowed hrun
  obtain ⟨Z, hshape⟩ := hinv.shape
  have hcounted := hinv.counted
  have htick := hshape.tick
  have hinterrupts : t.interrupts = 0 + es.countP KernelEvent.isTick := interrupts_of_run hrun
  rw [Nat.zero_add] at hinterrupts
  apply UInt32.toNat_inj.mp
  rw [UInt32.toNat_add, UInt32.toNat_ofNat', ← hinterrupts]
  omega

/-- Two ticks, the second one while the scheduler is suspended. -/
theorem schedulerExample_ticks :
    ∃ t, run step (start 0 schedulerMem) (schedulerExample.take 14) = some t ∧
      t.kernel.xPendedTicks = 1 ∧ t.kernel.xTickCount + t.kernel.xPendedTicks = 2 := by
  obtain ⟨t, hrun, hpended⟩ := view_of_allowed (schedulerExample_allowed 14)
    (P := fun t => t.kernel.xPendedTicks = 1) (by decide +kernel)
  exact ⟨t, hrun, hpended, scheduler_ticks (schedulerExample_allowed 14) hrun⟩

/-- **Delays**: a task that delays itself for `n` ticks, and which nobody takes out of its delay, is
delayed until `n` ticks have been counted, and is ready from then on until it blocks again. -/
theorem scheduler_delays {n : UInt32}
    (hallowed : Along step (Allowed idle) (start idle m) (es ++ .delay n :: es'))
    (hrun : run step (start idle m) es = some s) (hdelay : s.step (.delay n) = some s')
    (hleft : Along step (Leaves s.kernel.pxCurrentTCB) s' es') (hrun' : run step s' es' = some t) :
    (t.Delayed s.kernel.pxCurrentTCB ↔ t.ticks < s.ticks + n.toNat) ∧
      (t.Ready s.kernel.pxCurrentTCB ↔ s.ticks + n.toNat ≤ t.ticks) := by
  have hinv : t.Inv idle := inv_of_run hallowed
    (run_append_eq_some.mpr ⟨s, hrun, run_cons_eq_some.mpr ⟨s', hdelay, hrun'⟩⟩)
  obtain ⟨hfirst, hrest⟩ := along_append.mp hallowed
  obtain ⟨hmay, hrest⟩ := hrest s hrun
  have hinv' : s'.Inv idle := by
    obtain ⟨s'', hdelay', hinv'⟩ := (inv_of_run hfirst hrun).step hmay
    cases hdelay.symm.trans hdelay'
    exact hinv'
  obtain ⟨hwaiting, hwake⟩ := waiting_of_run hinv' (hrest s' hdelay) hleft hrun'
  -- The task waits from the delay on.
  obtain ⟨κ, -, rfl⟩ := Option.map_eq_some_iff.mp hdelay
  have hwait : t.waiting s.kernel.pxCurrentTCB = true := by
    rw [hwaiting]
    simp [on, blocks]
  have htick : t.wake s.kernel.pxCurrentTCB = s.ticks + n.toNat :=
    hwake.trans (Function.update_self _ _ _)
  rw [← htick]
  exact hinv.wakes hwait

/-- The task of priority 4 is delayed at tick 3, and ready at tick 4. -/
theorem schedulerExample_delays :
    ∃ s s' t t', run step (start 0 schedulerMem) (schedulerExample.take 12) = some s ∧
      s.kernel.pxCurrentTCB = 4 ∧ s.step (.delay 3) = some s' ∧
      run step s' [.tick, .resumeAll, .switchContext, .tick] = some t ∧ t.Delayed 4 ∧
      run step s' [.tick, .resumeAll, .switchContext, .tick, .tick] = some t' ∧ t'.Ready 4 := by
  obtain ⟨s, hrun, hcurrent, hticks, hrest⟩ := view_of_allowed (schedulerExample_allowed 12)
    (P := fun s => s.kernel.pxCurrentTCB = 4 ∧ s.ticks = 1 ∧ (s.step (.delay 3)).any fun s' =>
      Along step (Leaves 4) s' [.tick, .resumeAll, .switchContext, .tick] ∧
      Along step (Leaves 4) s' [.tick, .resumeAll, .switchContext, .tick, .tick] ∧
      (run step s' [.tick, .resumeAll, .switchContext, .tick]).any (fun t => t.ticks = 3) ∧
      (run step s' [.tick, .resumeAll, .switchContext, .tick, .tick]).any (fun t => t.ticks = 4))
    (by decide +kernel)
  obtain ⟨s', hdelay, hrest⟩ := (Option.any_eq_true _ _).mp hrest
  obtain ⟨hleft, hleft', ht, ht'⟩ := of_decide_eq_true hrest
  obtain ⟨t, ht, hlate⟩ := (Option.any_eq_true _ _).mp ht
  obtain ⟨t', ht', hdue⟩ := (Option.any_eq_true _ _).mp ht'
  have hfour : s.ticks + (3 : UInt32).toNat = 4 := by rw [hticks]; rfl
  have hbefore := scheduler_delays (schedulerExample_allowed 17) hrun hdelay (hcurrent ▸ hleft) ht
  have hbehind := scheduler_delays (schedulerExample_allowed 18) hrun hdelay (hcurrent ▸ hleft') ht'
  rw [hcurrent, hfour, of_decide_eq_true hlate] at hbefore
  rw [hcurrent, hfour, of_decide_eq_true hdue] at hbehind
  exact ⟨s, s', t, t', hrun, hcurrent, hdelay, ht, hbefore.1.mpr (by decide), ht',
    hbehind.2.mpr le_rfl⟩

/-- **Events**: the task that an event releases has waited longest of those of the highest
priority.  It leaves the list, and is ready at once where the scheduler is not suspended; the
others wait as before, with their priorities and in their order. -/
theorem scheduler_releases (hallowed : Along step (Allowed idle) (start idle m) es)
    (hrun : run step (start idle m) es = some t) {e : ε}
    (hsome : listIsEmpty (.event e) t.kernel.lists = false) :
    ∃ u t', t.step (.removeFromEventList e) = some t' ∧ t.eventList u = some (.event e) ∧
      (∀ v, t.eventList v = some (.event e) → v = u ∨
        t.kernel.uxPriority v < t.kernel.uxPriority u ∨
        t.kernel.uxPriority v = t.kernel.uxPriority u ∧ t.arrived u < t.arrived v) ∧
      Released u t t' ∧
      ∀ v, t'.kernel.uxPriority v = t.kernel.uxPriority v ∧ t'.arrived v = t.arrived v := by
  obtain ⟨Z, hshape⟩ := (inv_of_run hallowed hrun).shape
  obtain ⟨u, κ, Z', hhead, hevent, hfirst, hremove, -, hkeeps, -, hreleased, -⟩ :=
    hshape.removeFromEventList hsome
  have hstep : t.step (.removeFromEventList e) = some ((t.unwait u).next
      (κ, decide (t.kernel.uxPriority u > t.kernel.uxPriority t.kernel.pxCurrentTCB))) := by
    rw [step, hhead, Option.bind_some, hremove, Option.map_some, TaskItem.pvOwner]
  refine ⟨u, _, hstep, hevent, fun v hv => (hfirst v hv).imp_right fun hbefore => ?_,
    ⟨hreleased.now, hreleased.later, hreleased.others⟩,
    fun v => ⟨congrFun hkeeps.priority v, rfl⟩⟩
  exact hshape.priority_of_before hevent hv hbefore

/-- Two tasks of priority 2 wait for an event, and then one of priority 3.  When it has been
released the scheduler is suspended. -/
def schedulerWaiters : List (KernelEvent (Fin 5) Unit) :=
  [.create 1 2, .switchContext, .placeOnEventList () 9, .create 2 2, .switchContext,
    .placeOnEventList () 9, .create 3 3, .switchContext, .placeOnEventList () 9, .switchContext,
    .removeFromEventList (), .suspendAll]

/-- Its callers keep the rules, too. -/
theorem schedulerWaiters_allowed (n : Nat) :
    Along step (Allowed 0) (start 0 schedulerMem) (schedulerWaiters.take n) :=
  allowed_take (by decide +kernel) n

/-- The task of priority 3 came last and is released first, and ready at once.  Of the others the
one that came first is released next, and is pending as the scheduler is suspended. -/
theorem schedulerWaiters_releases :
    (∃ t t', run step (start 0 schedulerMem) (schedulerWaiters.take 10) = some t ∧
      t.step (.removeFromEventList ()) = some t' ∧ t'.Ready 3 ∧ t'.eventList 3 = none ∧
      t'.eventList 1 = some (.event ()) ∧ t'.eventList 2 = some (.event ())) ∧
    ∃ t t', run step (start 0 schedulerMem) (schedulerWaiters.take 12) = some t ∧
      t.step (.removeFromEventList ()) = some t' ∧ t'.eventList 1 = some .pendingReady ∧
      t'.eventList 2 = some (.event ()) := by
  constructor
  · obtain ⟨t, hrun, hrunning, hsome, hone, htwo, hthree, hlow⟩ :=
      view_of_allowed (schedulerWaiters_allowed 10) (P := fun t =>
        t.kernel.uxSchedulerSuspended = 0 ∧ listIsEmpty (.event ()) t.kernel.lists = false ∧
        t.eventList 1 = some (.event ()) ∧ t.eventList 2 = some (.event ()) ∧
        t.eventList 3 = some (.event ()) ∧ ∀ u, t.eventList u = some (.event ()) → u ≠ 3 →
          t.kernel.uxPriority u < t.kernel.uxPriority 3) (by decide +kernel)
    obtain ⟨u, t', hstep, hevent, hfirst, hreleased, -⟩ :=
      scheduler_releases (schedulerWaiters_allowed 10) hrun hsome
    obtain rfl : u = 3 := by
      by_contra hne
      have hless := hlow u hevent hne
      obtain heq | hgt | ⟨heq, -⟩ := hfirst 3 hthree
      · exact hne heq.symm
      · omega
      · omega
    obtain ⟨hready, hnone⟩ := hreleased.now hrunning
    exact ⟨t, t', hrun, hstep, hready, hnone, (hreleased.others 1 (by decide)).trans hone,
      (hreleased.others 2 (by decide)).trans htwo⟩
  · obtain ⟨t, hrun, hsuspended, hsome, hone, htwo, hlast⟩ :=
      view_of_allowed (schedulerWaiters_allowed 12) (P := fun t =>
        t.kernel.uxSchedulerSuspended ≠ 0 ∧ listIsEmpty (.event ()) t.kernel.lists = false ∧
        t.eventList 1 = some (.event ()) ∧ t.eventList 2 = some (.event ()) ∧
        ∀ u, t.eventList u = some (.event ()) → u ≠ 1 →
          t.kernel.uxPriority u = t.kernel.uxPriority 1 ∧ t.arrived 1 < t.arrived u)
        (by decide +kernel)
    obtain ⟨u, t', hstep, hevent, hfirst, hreleased, -⟩ :=
      scheduler_releases (schedulerWaiters_allowed 12) hrun hsome
    obtain rfl : u = 1 := by
      by_contra hne
      have hlate := hlast u hevent hne
      obtain heq | hlt | ⟨-, hlt⟩ := hfirst 1 hone
      · exact hne heq.symm
      · omega
      · omega
    exact ⟨t, t', hrun, hstep, hreleased.later hsuspended,
      (hreleased.others 2 (by decide)).trans htwo⟩

end Fr5080
