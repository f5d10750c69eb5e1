import Mathlib.Algebra.Ring.Nat
import Fr5080.Kernel.Tasks

/-!
# Fr5080.Kernel.Invariant

What holds of the scheduler.  `KernelSys` is the kernel with a history: the ticks that
have been counted, without the wrap of `xTickCount`, the tick at which each task wants
to wake up, who was selected while a task waited for its turn, and whether a context
switch has been asked for.

`TaskOk` says what holds of one task, and `Shape` that the lists `Z` in memory are those
of a scheduler.  While a function moves a task from list to list, the task is `busy` and
nothing is said of it, so its items may go (`Shape.remove`) and come (`Shape.insertEnd`,
`Shape.insertDelayed`, `Shape.insertEvent`); when the task has arrived, `Shape.settle` needs
what holds of that task only.
-/

namespace Fr5080

open Embedded

/-- The kernel and its history: the ticks counted; the tick interrupts; the tick at which a task
wants to wake up, and whether it still waits for that tick; when a task came into an event list,
by a clock that counts these events; the items of the tasks selected from the ready list of a task
since that task was selected or became ready; and whether a context switch has been asked for. -/
structure KernelSys (τ ε : Type*) where
  kernel : Kernel τ ε
  ticks : Nat
  interrupts : Nat
  wake : τ → Nat
  waiting : τ → Bool
  arrived : τ → Nat
  clock : Nat
  since : τ → List (TaskItem τ)
  request : Bool

variable {τ ε : Type*}

namespace KernelSys

/-- Another kernel with the same history. -/
def on (s : KernelSys τ ε) (kernel : Kernel τ ε) : KernelSys τ ε := { s with kernel := kernel }

/-- The list of the state of a task. -/
def stateList (s : KernelSys τ ε) (t : τ) : Option (TaskList ε) :=
  s.kernel.lists.pxContainer (.state t)

/-- The list of what a task waits for. -/
def eventList (s : KernelSys τ ε) (t : τ) : Option (TaskList ε) :=
  s.kernel.lists.pxContainer (.event t)

@[simp] theorem kernel_on {s : KernelSys τ ε} {κ : Kernel τ ε} : (s.on κ).kernel = κ := rfl

theorem stateList_on {s : KernelSys τ ε} {κ : Kernel τ ε} {t : τ} :
    (s.on κ).stateList t = κ.lists.pxContainer (.state t) := rfl

theorem eventList_on {s : KernelSys τ ε} {κ : Kernel τ ε} {t : τ} :
    (s.on κ).eventList t = κ.lists.pxContainer (.event t) := rfl

/-- The task is ready. -/
def Ready (s : KernelSys τ ε) (t : τ) : Prop :=
  s.stateList t = some (.ready (s.kernel.uxPriority t))

/-- What holds of a task; a delayed task does not want to wake up before tick `lo`. -/
structure TaskOk (lo : Nat) (s : KernelSys τ ε) (t : τ) : Prop where
  state : ∀ k, s.stateList t = some k → k = .ready (s.kernel.uxPriority t) ∨
    k = s.kernel.pxDelayedTaskList ∨ k = s.kernel.pxOverflowDelayedTaskList ∨ k = .suspended
  event : ∀ k, s.eventList t = some k →
    (k = .pendingReady ∨ ∃ e, k = .event e) ∧ ¬ s.Ready t ∧ s.stateList t ≠ none
  arrived : ∀ e, s.eventList t = some (.event e) → s.arrived t < s.clock
  priority : s.stateList t ≠ none → s.kernel.uxPriority t < configMaxPriorities ∧
    s.kernel.lists.xItemValue (.event t) =
      UInt32.ofNat (configMaxPriorities - s.kernel.uxPriority t)
  delayed : s.stateList t = some s.kernel.pxDelayedTaskList →
    lo ≤ s.wake t ∧ s.wake t / 2 ^ 32 = s.ticks / 2 ^ 32 ∧
      (s.kernel.lists.xItemValue (.state t)).toNat = s.wake t % 2 ^ 32
  overflow : s.stateList t = some s.kernel.pxOverflowDelayedTaskList →
    s.wake t / 2 ^ 32 = s.ticks / 2 ^ 32 + 1 ∧
      (s.kernel.lists.xItemValue (.state t)).toNat = s.wake t % 2 ^ 32
  waits : s.waiting t → s.stateList t = some s.kernel.pxDelayedTaskList ∨
    s.stateList t = some s.kernel.pxOverflowDelayedTaskList ∨ s.Ready t ∧ s.wake t ≤ s.ticks
  pending : s.eventList t = some .pendingReady → s.waiting t = false
  since : ¬ s.Ready t → s.since t = []

/-- The order of an event list: the higher priority first, and in the order of their arrival those
of one priority. -/
def Before (s : KernelSys τ ε) (x y : TaskItem τ) : Prop :=
  s.kernel.lists.xItemValue x < s.kernel.lists.xItemValue y ∨
    s.kernel.lists.xItemValue x = s.kernel.lists.xItemValue y ∧
      s.arrived x.pvOwner < s.arrived y.pvOwner

/-- A list holds items of events, or of states. -/
def HoldsEvents (k : TaskList ε) : Prop := k = .pendingReady ∨ ∃ e, k = .event e

/-- The lists are those of a scheduler; nothing is said of the tasks that are `busy`. -/
structure Shape [DecidableEq τ] (idle : τ) (busy : τ → Prop) (lo : Nat) (s : KernelSys τ ε)
    (Z : TaskList ε → Turns (TaskItem τ)) : Prop where
  lists : Lists s.kernel.lists Z
  marks : ∀ k, (∀ p, k ≠ .ready p) → (Z k).passed = []
  names : s.kernel.pxDelayedTaskList = .delayed1 ∧ s.kernel.pxOverflowDelayedTaskList = .delayed2 ∨
    s.kernel.pxDelayedTaskList = .delayed2 ∧ s.kernel.pxOverflowDelayedTaskList = .delayed1
  sorted : ∀ k, k = .delayed1 ∨ k = .delayed2 → (Z k).items.Pairwise fun x y =>
    s.kernel.lists.xItemValue x ≤ s.kernel.lists.xItemValue y
  events : ∀ e, (Z (.event e)).items.Pairwise s.Before
  items : ∀ k x, x ∈ (Z k).items → ((∃ t, x = .event t) ↔ HoldsEvents k)
  tasks : ∀ t, ¬ busy t → s.TaskOk lo t
  next : ∀ t, ¬ busy t → s.stateList t = some s.kernel.pxDelayedTaskList →
    s.kernel.xNextTaskUnblockTime ≤ s.kernel.lists.xItemValue (.state t)
  ready : ∀ t, ¬ busy t → s.Ready t → s.kernel.uxPriority t ≤ s.kernel.uxTopReadyPriority
  turns : ∀ t, ¬ busy t → s.Ready t →
    TurnRun.Waiting (.state t) ⟨Z (.ready (s.kernel.uxPriority t)), s.since t⟩
  idle : s.stateList idle = some (.ready 0) ∧ s.kernel.uxPriority idle = 0
  top : s.kernel.uxTopReadyPriority < configMaxPriorities
  current : busy s.kernel.pxCurrentTCB ∨ s.stateList s.kernel.pxCurrentTCB ≠ none
  number : 0 < s.kernel.uxCurrentNumberOfTasks
  tick : s.kernel.xTickCount.toNat = s.ticks % 2 ^ 32
  overflows : s.kernel.xNumOfOverflows.toNat = s.ticks / 2 ^ 32 % 2 ^ 32

/-- Nothing is busy. -/
def idleHands (_ : τ) : Prop := False

variable {s s' : KernelSys τ ε} {lo lo' : Nat} {t u : τ} {x : TaskItem τ} {k : TaskList ε}

/-! ## one task -/

/-- Nothing that matters to the task is different, but that it may wait no more. -/
theorem TaskOk.congr (h : s.TaskOk lo t) (hstate : s'.stateList t = s.stateList t)
    (hevent : ∀ k, s'.eventList t = some k → s.eventList t = some k)
    (hvalue : ∀ x : TaskItem τ, x.pvOwner = t →
      s'.kernel.lists.xItemValue x = s.kernel.lists.xItemValue x)
    (hpriority : s'.kernel.uxPriority t = s.kernel.uxPriority t)
    (hdelayed : s'.kernel.pxDelayedTaskList = s.kernel.pxDelayedTaskList)
    (hoverflow : s'.kernel.pxOverflowDelayedTaskList = s.kernel.pxOverflowDelayedTaskList)
    (hticks : s'.ticks = s.ticks) (hwake : s'.wake t = s.wake t)
    (hwaiting : s'.waiting t = true → s.waiting t = true) (harrived : s'.arrived t = s.arrived t)
    (hclock : s.clock ≤ s'.clock) (hsince : s'.since t = s.since t) : s'.TaskOk lo t := by
  have hready : s'.Ready t ↔ s.Ready t := by rw [Ready, Ready, hstate, hpriority]
  refine ⟨?_, ?_, ?_, ?_, ?_, ?_, ?_, ?_, ?_⟩
  · rw [hstate, hpriority, hdelayed, hoverflow]
    exact h.state
  · rw [hready, hstate]
    exact fun k hk => h.event k (hevent k hk)
  · rw [harrived]
    exact fun e he => Nat.lt_of_lt_of_le (h.arrived e (hevent _ he)) hclock
  · rw [hstate, hpriority, hvalue (.event t) rfl]
    exact h.priority
  · rw [hstate, hdelayed, hwake, hticks, hvalue (.state t) rfl]
    exact h.delayed
  · rw [hstate, hoverflow, hwake, hticks, hvalue (.state t) rfl]
    exact h.overflow
  · rw [hstate, hdelayed, hoverflow, hready, hwake, hticks]
    exact fun hw => h.waits (hwaiting hw)
  · exact fun hp => Bool.eq_false_iff.mpr fun hw =>
      Bool.eq_false_iff.mp (h.pending (hevent _ hp)) (hwaiting hw)
  · rw [hready, hsince]
    exact h.since

variable [DecidableEq τ] {idle : τ} {busy : τ → Prop} {Z : TaskList ε → Turns (TaskItem τ)}

/-! ## changes of a list -/

section

variable [DecidableEq ε]

/-- One item of a busy task comes or goes. -/
theorem Shape.change (h : Shape idle busy lo s Z) {m : ListMem (TaskList ε) (TaskItem τ)}
    {c : Option (TaskList ε)} {T : Turns (TaskItem τ)} (hlists : Lists m (Function.update Z k T))
    (hvalue : m.xItemValue = s.kernel.lists.xItemValue)
    (hcontainer : m.pxContainer = Function.update s.kernel.lists.pxContainer x c)
    (hbusy : busy x.pvOwner) (hidle : x ≠ .state idle)
    (hmarks : (∀ p, k ≠ .ready p) → T.passed = [])
    (hsorted : k = .delayed1 ∨ k = .delayed2 → T.items.Pairwise fun x y =>
      s.kernel.lists.xItemValue x ≤ s.kernel.lists.xItemValue y)
    (hevents : ∀ e, k = .event e → T.items.Pairwise s.Before)
    (hitems : ∀ y ∈ T.items, (∃ t, y = .event t) ↔ HoldsEvents k)
    (hturns : ∀ p t l, k = .ready p → ¬ busy t → TurnRun.Waiting (.state t) ⟨Z k, l⟩ →
      TurnRun.Waiting (.state t) ⟨T, l⟩) :
    Shape idle busy lo (s.on { s.kernel with lists := m }) (Function.update Z k T) := by
  have hstate : ∀ t, ¬ busy t →
      (s.on { s.kernel with lists := m }).stateList t = s.stateList t := by
    intro t ht
    change m.pxContainer (.state t) = _
    rw [hcontainer, Function.update_of_ne]
    · rfl
    · rintro rfl
      exact ht hbusy
  have hevent : ∀ t, ¬ busy t →
      (s.on { s.kernel with lists := m }).eventList t = s.eventList t := by
    intro t ht
    change m.pxContainer (.event t) = _
    rw [hcontainer, Function.update_of_ne]
    · rfl
    · rintro rfl
      exact ht hbusy
  have hready : ∀ t, ¬ busy t → ((s.on { s.kernel with lists := m }).Ready t ↔ s.Ready t) :=
    fun t ht => by
      change _ = some _ ↔ _ = some _
      rw [hstate t ht]
      rfl
  have hkey : ∀ (P : TaskList ε → Turns (TaskItem τ) → Prop) k', P k' (Z k') → (k' = k → P k T) →
      P k' (Function.update Z k T k') := by
    intro P k' hZ hT
    by_cases hk : k' = k
    · subst hk
      rw [Function.update_self]
      exact hT rfl
    · rw [Function.update_of_ne hk]
      exact hZ
  refine ⟨hlists, fun k' hk' => ?_, h.names, fun k' hk' => ?_, fun e => ?_, fun k' y => ?_,
    fun t ht => ?_, fun t ht => ?_, fun t ht => ?_, fun t ht hr => ?_, ⟨?_, h.idle.2⟩, h.top, ?_,
    h.number, h.tick, h.overflows⟩
  · exact hkey (fun k' T => (∀ p, k' ≠ .ready p) → T.passed = []) k' (h.marks k')
      (fun _ => hmarks) hk'
  · change List.Pairwise (fun x y => m.xItemValue x ≤ m.xItemValue y) _
    rw [hvalue]
    exact hkey (fun k' T => k' = .delayed1 ∨ k' = .delayed2 → T.items.Pairwise fun x y =>
      s.kernel.lists.xItemValue x ≤ s.kernel.lists.xItemValue y) k' (h.sorted k')
      (fun _ => hsorted) hk'
  · have hbefore : (s.on { s.kernel with lists := m }).Before = s.Before := by
      funext x y
      change (m.xItemValue x < m.xItemValue y ∨ m.xItemValue x = m.xItemValue y ∧ _) = _
      rw [hvalue]
      rfl
    rw [hbefore]
    exact hkey (fun _ T => T.items.Pairwise s.Before) (.event e) (h.events e)
      fun he => hevents e he.symm
  · exact hkey (fun k' T => y ∈ T.items → ((∃ t, y = .event t) ↔ HoldsEvents k')) k'
      (h.items k' y) fun _ => hitems y
  · exact (h.tasks t ht).congr (hstate t ht) (fun _ hk => (hevent t ht).symm.trans hk)
      (fun x _ => congrFun hvalue x) rfl rfl rfl rfl rfl id rfl le_rfl rfl
  · rw [hstate t ht]
    change _ → _ ≤ m.xItemValue _
    rw [hvalue]
    exact h.next t ht
  · rw [hready t ht]
    exact h.ready t ht
  · have hwait := h.turns t ht ((hready t ht).mp hr)
    exact hkey (fun _ T => TurnRun.Waiting (.state t) ⟨T, s.since t⟩) _ hwait
      fun hk => hturns _ t _ hk.symm ht (by rwa [hk] at hwait)
  · change m.pxContainer _ = _
    rw [hcontainer, Function.update_of_ne hidle.symm]
    exact h.idle.1
  · by_cases hcurrent : busy s.kernel.pxCurrentTCB
    · exact Or.inl hcurrent
    · exact Or.inr fun hnone =>
        (h.current.resolve_left hcurrent) ((hstate _ hcurrent).symm.trans hnone)

/-- An item of a busy task is taken out of its list. -/
theorem Shape.remove (h : Shape idle busy lo s Z) (hx : s.kernel.lists.pxContainer x = some k)
    (hbusy : busy x.pvOwner) (hidle : x ≠ .state idle) :
    ∃ m, taskListRemove x s.kernel = some { s.kernel with lists := m } ∧
      m.xItemValue = s.kernel.lists.xItemValue ∧
      m.pxContainer = Function.update s.kernel.lists.pxContainer x none ∧
      Shape idle busy lo (s.on { s.kernel with lists := m })
        (Function.update Z k ((Z k).drop x)) := by
  have hmem : x ∈ (Z k).items := (h.lists.container x k).mp hx
  obtain ⟨m, hremove, hlists, hvalue, hcontainer⟩ := h.lists.listRemove hmem
  have hitems : ((Z k).drop x).items.Sublist (Z k).items := by
    rw [Turns.items_drop (h.lists.nodup k)]
    exact List.erase_sublist
  refine ⟨m, by rw [taskListRemove, hremove]; rfl, hvalue, hcontainer,
    h.change hlists hvalue hcontainer hbusy hidle (fun hk => ?_) (fun hk => ?_) (fun e hk => ?_)
      (fun y hy => h.items k y (hitems.subset hy)) fun p t l _ ht hwait => hwait.drop ?_⟩
  · change (Z k).passed.erase x = []
    rw [h.marks k hk, List.erase_nil]
  · exact (h.sorted k hk).sublist hitems
  · subst hk
    exact (h.events e).sublist hitems
  · rintro rfl
    exact ht hbusy

/-- An item of a busy task comes into a ready list, or into one without order. -/
theorem Shape.insertEnd (h : Shape idle busy lo s Z) (hx : s.kernel.lists.pxContainer x = none)
    (hbusy : busy x.pvOwner) (hidle : x ≠ .state idle)
    (hk : k ≠ .delayed1 ∧ k ≠ .delayed2 ∧ ∀ e, k ≠ .event e)
    (hitem : (∃ t, x = .event t) ↔ HoldsEvents k) :
    Shape idle busy lo (s.on { s.kernel with lists := vListInsertEnd k x s.kernel.lists })
      (Function.update Z k ((Z k).add x)) := by
  refine h.change (h.lists.insertEnd hx k) rfl rfl hbusy hidle (fun hk => ?_) (fun hk' => ?_)
    (fun e he => absurd he (hk.2.2 e)) (fun y hy => ?_)
    fun p t l _ _ hwait => hwait.add (h.lists.not_mem hx k)
  · rw [Turns.add, h.marks k hk]
    rfl
  · exact absurd hk' (not_or.mpr ⟨hk.1, hk.2.1⟩)
  · obtain rfl | hy := Turns.mem_items_add.mp hy
    · exact hitem
    · exact h.items k y hy

/-- An item of a busy task comes into a delayed list, in the order of the values. -/
theorem Shape.insertDelayed (h : Shape idle busy lo s Z)
    (hx : s.kernel.lists.pxContainer (.state t) = none) (hbusy : busy t) (hidle : t ≠ idle)
    (hk : k = .delayed1 ∨ k = .delayed2) :
    ∃ m T, vListInsert k (.state t) s.kernel.lists = some m ∧
      m.xItemValue = s.kernel.lists.xItemValue ∧
      m.pxContainer = Function.update s.kernel.lists.pxContainer (.state t) (some k) ∧
      Shape idle busy lo (s.on { s.kernel with lists := m }) (Function.update Z k T) := by
  have hready : ∀ p, k ≠ .ready p := by rintro p rfl; simp at hk
  obtain ⟨m, hinsert, hlists, hvalue, hcontainer⟩ := h.lists.insertValue hx k (h.marks k hready)
  refine ⟨m, _, hinsert, hvalue, hcontainer, h.change hlists hvalue hcontainer hbusy
    (fun heq => hidle (TaskItem.state.inj heq)) (fun _ => rfl) (fun _ => ?_)
    (fun e he => ?_) (fun y hy => ?_) fun p _ _ hp => absurd hp (hready p)⟩
  · exact pairwise_insertSorted (fun _ _ => id) (h.sorted k hk) (fun _ _ => id)
      fun y _ => UInt32.le_of_lt
  · subst he
    simp at hk
  · obtain rfl | hy := List.mem_cons.mp (insertSorted_perm.mem_iff.mp hy)
    · refine iff_of_false (by simp) ?_
      rcases hk with rfl | rfl <;> simp [HoldsEvents]
    · exact h.items k y hy

/-- The event item of a busy task comes into an event list; all others came before it. -/
theorem Shape.insertEvent (h : Shape idle busy lo s Z)
    (hx : s.kernel.lists.pxContainer (.event t) = none) (hbusy : busy t) (e : ε)
    (harrived : ∀ u, u ≠ t → s.eventList u = some (.event e) → s.arrived u < s.arrived t) :
    ∃ m T, vListInsert (.event e) (.event t) s.kernel.lists = some m ∧
      m.xItemValue = s.kernel.lists.xItemValue ∧
      m.pxContainer = Function.update s.kernel.lists.pxContainer (.event t) (some (.event e)) ∧
      Shape idle busy lo (s.on { s.kernel with lists := m }) (Function.update Z (.event e) T) := by
  obtain ⟨m, hinsert, hlists, hvalue, hcontainer⟩ :=
    h.lists.insertValue hx (.event e) (h.marks _ (by simp))
  refine ⟨m, _, hinsert, hvalue, hcontainer, h.change hlists hvalue hcontainer hbusy (by simp)
    (fun _ => rfl) (fun hk => by simp at hk) (fun _ _ => ?_) (fun y hy => ?_)
    fun p _ _ hp => by simp at hp⟩
  · refine pairwise_insertSorted (fun y z hyz => ?_) (h.events e) (fun y hy hle => ?_)
      fun y _ hlt => Or.inl hlt
    · obtain hlt | ⟨heq, -⟩ := hyz
      · exact UInt32.le_of_lt hlt
      · exact UInt32.le_of_eq heq
    · obtain hlt | heq := UInt32.lt_or_eq_of_le hle
      · exact Or.inl hlt
      · refine Or.inr ⟨heq, ?_⟩
        obtain ⟨u, rfl⟩ := (h.items (.event e) y hy).mpr (Or.inr ⟨e, rfl⟩)
        refine harrived u ?_ ((h.lists.container _ _).mpr hy)
        rintro rfl
        exact h.lists.not_mem hx _ hy
  · obtain rfl | hy := List.mem_cons.mp (insertSorted_perm.mem_iff.mp hy)
    · exact iff_of_true ⟨t, rfl⟩ (Or.inr ⟨e, rfl⟩)
    · exact h.items _ y hy

end

/-! ## changes of a task in hand -/

/-- The value of an item that is in no list. -/
theorem Shape.setValue [DecidableEq ε] (h : Shape idle busy lo s Z)
    (hx : s.kernel.lists.pxContainer x = none) (hbusy : busy x.pvOwner) (value : UInt32) :
    Shape idle busy lo (s.on { s.kernel with lists := listSetItemValue x value s.kernel.lists })
      Z := by
  have hvalue : ∀ k, ∀ y ∈ (Z k).items,
      (listSetItemValue x value s.kernel.lists).xItemValue y = s.kernel.lists.xItemValue y := by
    intro k y hy
    refine Function.update_of_ne ?_ _ _
    rintro rfl
    exact h.lists.not_mem hx k hy
  have hother : ∀ y : TaskItem τ, ¬ busy y.pvOwner →
      (listSetItemValue x value s.kernel.lists).xItemValue y = s.kernel.lists.xItemValue y := by
    intro y hy
    refine Function.update_of_ne ?_ _ _
    rintro rfl
    exact hy hbusy
  refine ⟨h.lists.congr rfl rfl rfl rfl rfl, h.marks, h.names, fun k hk => ?_, fun e => ?_, h.items,
    fun t ht => ?_, fun t ht hd => ?_, h.ready, h.turns, h.idle, h.top, h.current, h.number, h.tick,
    h.overflows⟩
  · refine (h.sorted k hk).imp_of_mem fun {y z} hy hz hyz => ?_
    change (listSetItemValue x value s.kernel.lists).xItemValue y ≤
      (listSetItemValue x value s.kernel.lists).xItemValue z
    rwa [hvalue k y hy, hvalue k z hz]
  · refine (h.events e).imp_of_mem fun {y z} hy hz hyz => ?_
    rw [Before, kernel_on]
    dsimp only
    rw [hvalue _ y hy, hvalue _ z hz]
    exact hyz
  · refine (h.tasks t ht).congr rfl (fun _ => id) (fun y hy => hother y ?_) rfl rfl rfl rfl rfl id
      rfl le_rfl rfl
    rwa [hy]
  · change _ ≤ (listSetItemValue x value s.kernel.lists).xItemValue (.state t)
    rw [hother (.state t) ht]
    exact h.next t ht hd

/-- The priority of a task. -/
theorem Shape.setPriority (h : Shape idle busy lo s Z) (hbusy : busy t) (hidle : t ≠ idle)
    (p : Nat) : Shape idle busy lo
      (s.on { s.kernel with uxPriority := Function.update s.kernel.uxPriority t p }) Z := by
  have hother : ∀ u, ¬ busy u →
      Function.update s.kernel.uxPriority t p u = s.kernel.uxPriority u := by
    intro u hu
    refine Function.update_of_ne ?_ _ _
    rintro rfl
    exact hu hbusy
  have hready : ∀ u, ¬ busy u →
      ((s.on { s.kernel with uxPriority := Function.update s.kernel.uxPriority t p }).Ready u ↔
        s.Ready u) := by
    intro u hu
    rw [Ready, kernel_on]
    dsimp only
    rw [hother u hu]
    rfl
  refine ⟨h.lists, h.marks, h.names, h.sorted, h.events, h.items, fun u hu => ?_, h.next,
    fun u hu hr => ?_, fun u hu hr => ?_, ⟨h.idle.1, ?_⟩, h.top, h.current, h.number, h.tick,
    h.overflows⟩
  · exact (h.tasks u hu).congr rfl (fun _ => id) (fun _ _ => rfl) (hother u hu) rfl rfl rfl rfl id
      rfl le_rfl rfl
  · change Function.update s.kernel.uxPriority t p u ≤ s.kernel.uxTopReadyPriority
    rw [hother u hu]
    exact h.ready u hu ((hready u hu).mp hr)
  · change TurnRun.Waiting _ ⟨Z (.ready (Function.update s.kernel.uxPriority t p u)), _⟩
    rw [hother u hu]
    exact h.turns u hu ((hready u hu).mp hr)
  · exact (Function.update_of_ne hidle.symm _ _).trans h.idle.2

/-! ## arrival -/

/-- The task in hand is put down. -/
theorem Shape.settle (h : Shape idle (· = t) lo s Z) (htask : s.TaskOk lo t)
    (hnext : s.stateList t = some s.kernel.pxDelayedTaskList →
      s.kernel.xNextTaskUnblockTime ≤ s.kernel.lists.xItemValue (.state t))
    (hready : s.Ready t → s.kernel.uxPriority t ≤ s.kernel.uxTopReadyPriority)
    (hturns : s.Ready t →
      TurnRun.Waiting (.state t) ⟨Z (.ready (s.kernel.uxPriority t)), s.since t⟩)
    (hcurrent : s.stateList t ≠ none) : Shape idle idleHands lo s Z := by
  refine { h with tasks := fun u _ => ?_, next := fun u _ => ?_, ready := fun u _ => ?_,
                  turns := fun u _ => ?_, current := ?_ }
  · by_cases hu : u = t
    · rwa [hu]
    · exact h.tasks u hu
  · by_cases hu : u = t
    · rwa [hu]
    · exact h.next u hu
  · by_cases hu : u = t
    · rwa [hu]
    · exact h.ready u hu
  · by_cases hu : u = t
    · rwa [hu]
    · exact h.turns u hu
  · obtain hc | hc := h.current
    · rw [hc]
      exact Or.inr hcurrent
    · exact Or.inr hc

/-- A task is taken in hand. -/
theorem Shape.hold (h : Shape idle idleHands lo s Z) (t : τ) : Shape idle (· = t) lo s Z :=
  { h with
    tasks := fun u _ => h.tasks u id
    next := fun u _ => h.next u id
    ready := fun u _ => h.ready u id
    turns := fun u _ => h.turns u id
    current := Or.inr (h.current.resolve_left id) }

/-- Only the history of the task in hand is different. -/
theorem Shape.history (h : Shape idle (· = t) lo s Z) (hkernel : s'.kernel = s.kernel)
    (hticks : s'.ticks = s.ticks) (hclock : s.clock ≤ s'.clock)
    (hother : ∀ u, u ≠ t → s'.wake u = s.wake u ∧ s'.waiting u = s.waiting u ∧
      s'.arrived u = s.arrived u ∧ s'.since u = s.since u)
    (harrived : s'.arrived t = s.arrived t ∨ s.eventList t = none) :
    Shape idle (· = t) lo s' Z := by
  have hstate : s'.stateList = s.stateList := by
    funext u
    rw [stateList, hkernel, stateList]
  have hevent : s'.eventList = s.eventList := by
    funext u
    rw [eventList, hkernel, eventList]
  have hready : s'.Ready = s.Ready := by
    funext u
    rw [Ready, hstate, hkernel, Ready]
  refine ⟨hkernel ▸ h.lists, h.marks, hkernel ▸ h.names, hkernel ▸ h.sorted, fun e => ?_, h.items,
    fun u hu => ?_, ?_, ?_, fun u hu => ?_, ?_, hkernel ▸ h.top, ?_, hkernel ▸ h.number, ?_, ?_⟩
  · refine (h.events e).imp_of_mem fun {x y} hx hy hxy => ?_
    have hsame : ∀ x ∈ (Z (.event e)).items, s'.arrived x.pvOwner = s.arrived x.pvOwner := by
      intro x hx
      obtain ⟨u, rfl⟩ := (h.items (.event e) x hx).mpr (Or.inr ⟨e, rfl⟩)
      by_cases hu : u = t
      · subst hu
        refine harrived.resolve_right fun hnone => ?_
        have hin : s.eventList u = some (.event e) := (h.lists.container _ _).mpr hx
        rw [hnone] at hin
        cases hin
      · exact (hother u hu).2.2.1
    rw [Before, hkernel, hsame x hx, hsame y hy]
    exact hxy
  · obtain ⟨hwake, hwaiting, harrived, hsince⟩ := hother u hu
    exact (h.tasks u hu).congr (congrFun hstate u)
      (fun _ hk => (congrFun hevent u).symm.trans hk) (fun x _ => by rw [hkernel]) (by rw [hkernel])
      (by rw [hkernel]) (by rw [hkernel]) hticks hwake hwaiting.symm.trans harrived hclock hsince
  · rw [hstate, hkernel]
    exact h.next
  · rw [hready, hkernel]
    exact h.ready
  · rw [hready, hkernel, (hother u hu).2.2.2]
    exact h.turns u hu
  · rw [hstate, hkernel]
    exact h.idle
  · rw [hstate, hkernel]
    exact h.current
  · rw [hkernel, hticks]
    exact h.tick
  · rw [hkernel, hticks]
    exact h.overflows

/-- Variables that are not of the lists. -/
theorem Shape.vars (h : Shape idle busy lo s Z) {κ : Kernel τ ε}
    (hlists : κ.lists = s.kernel.lists) (hpriority : κ.uxPriority = s.kernel.uxPriority)
    (hcurrent : κ.pxCurrentTCB = s.kernel.pxCurrentTCB)
    (hdelayed : κ.pxDelayedTaskList = s.kernel.pxDelayedTaskList)
    (hoverflow : κ.pxOverflowDelayedTaskList = s.kernel.pxOverflowDelayedTaskList)
    (hnumber : κ.uxCurrentNumberOfTasks = s.kernel.uxCurrentNumberOfTasks)
    (htick : κ.xTickCount = s.kernel.xTickCount)
    (hoverflows : κ.xNumOfOverflows = s.kernel.xNumOfOverflows)
    (hnext : ∀ t, ¬ busy t → s.stateList t = some s.kernel.pxDelayedTaskList →
      κ.xNextTaskUnblockTime ≤ s.kernel.lists.xItemValue (.state t))
    (htop : s.kernel.uxTopReadyPriority ≤ κ.uxTopReadyPriority)
    (hmax : κ.uxTopReadyPriority < configMaxPriorities) : Shape idle busy lo (s.on κ) Z := by
  have hstate : (s.on κ).stateList = s.stateList := by
    funext u
    change κ.lists.pxContainer _ = _
    rw [hlists]
    rfl
  have hevent : (s.on κ).eventList = s.eventList := by
    funext u
    change κ.lists.pxContainer _ = _
    rw [hlists]
    rfl
  have hready : (s.on κ).Ready = s.Ready := by
    funext u
    change (_ = some (TaskList.ready (κ.uxPriority u))) = _
    rw [hstate, hpriority]
    rfl
  refine ⟨?_, h.marks, ?_, ?_, ?_, h.items, fun u hu => ?_, ?_, ?_, ?_, ?_, hmax, ?_, ?_, ?_,
    ?_⟩
  · change Lists κ.lists Z
    rw [hlists]
    exact h.lists
  · change κ.pxDelayedTaskList = _ ∧ κ.pxOverflowDelayedTaskList = _ ∨ κ.pxDelayedTaskList = _ ∧
      κ.pxOverflowDelayedTaskList = _
    rw [hdelayed, hoverflow]
    exact h.names
  · change ∀ k, _ → List.Pairwise (fun x y => κ.lists.xItemValue x ≤ κ.lists.xItemValue y) _
    rw [hlists]
    exact h.sorted
  · have hbefore : (s.on κ).Before = s.Before := by
      funext x y
      change (κ.lists.xItemValue x < κ.lists.xItemValue y ∨
        κ.lists.xItemValue x = κ.lists.xItemValue y ∧ _) = _
      rw [hlists]
      rfl
    rw [hbefore]
    exact h.events
  · exact (h.tasks u hu).congr (congrFun hstate u) (fun _ hk => (congrFun hevent u).symm.trans hk)
      (fun x _ => congrFun (congrArg ListMem.xItemValue hlists) x) (congrFun hpriority u) hdelayed
      hoverflow rfl rfl id rfl le_rfl rfl
  · rw [hstate]
    change ∀ t, ¬ busy t → _ = some κ.pxDelayedTaskList → _ ≤ κ.lists.xItemValue _
    rw [hdelayed, hlists]
    exact hnext
  · rw [hready]
    change ∀ t, ¬ busy t → _ → κ.uxPriority t ≤ _
    rw [hpriority]
    exact fun t ht hr => Nat.le_trans (h.ready t ht hr) htop
  · rw [hready]
    change ∀ t, ¬ busy t → _ → TurnRun.Waiting _ ⟨Z (.ready (κ.uxPriority t)), _⟩
    rw [hpriority]
    exact h.turns
  · rw [hstate]
    change _ ∧ κ.uxPriority idle = 0
    rw [hpriority]
    exact h.idle
  · rw [hstate]
    change busy κ.pxCurrentTCB ∨ s.stateList κ.pxCurrentTCB ≠ none
    rw [hcurrent]
    exact h.current
  · change 0 < κ.uxCurrentNumberOfTasks
    rw [hnumber]
    exact h.number
  · change κ.xTickCount.toNat = _
    rw [htick]
    exact h.tick
  · change κ.xNumOfOverflows.toNat = _
    rw [hoverflows]
    exact h.overflows

/-- The names of the delayed lists are no others. -/
theorem Shape.delayed_ne (h : Shape idle busy lo s Z) :
    (∀ p, s.kernel.pxDelayedTaskList ≠ .ready p ∧ s.kernel.pxOverflowDelayedTaskList ≠ .ready p) ∧
      s.kernel.pxDelayedTaskList ≠ .suspended ∧ s.kernel.pxOverflowDelayedTaskList ≠ .suspended ∧
      s.kernel.pxDelayedTaskList ≠ s.kernel.pxOverflowDelayedTaskList := by
  obtain ⟨hd, ho⟩ | ⟨hd, ho⟩ := h.names <;> simp [hd, ho]

omit [DecidableEq τ] in
/-- A task whose state is in no delayed list. -/
theorem TaskOk.of_not_delayed (hstate : s.Ready t ∨ s.stateList t = some .suspended)
    (hnames : s.stateList t ≠ some s.kernel.pxDelayedTaskList ∧
      s.stateList t ≠ some s.kernel.pxOverflowDelayedTaskList)
    (hevent : ∀ k, s.eventList t = some k → HoldsEvents k ∧ ¬ s.Ready t)
    (harrived : ∀ e, s.eventList t = some (.event e) → s.arrived t < s.clock)
    (hpriority : s.kernel.uxPriority t < configMaxPriorities ∧
      s.kernel.lists.xItemValue (.event t) =
        UInt32.ofNat (configMaxPriorities - s.kernel.uxPriority t))
    (hwaits : s.waiting t → s.Ready t ∧ s.wake t ≤ s.ticks) (hsince : s.since t = []) :
    s.TaskOk lo t := by
  refine ⟨fun k hk => ?_, fun k hk => ?_, harrived, fun _ => hpriority,
    fun hd => absurd hd hnames.1, fun ho => absurd ho hnames.2,
    fun hw => Or.inr (Or.inr (hwaits hw)), fun hp => ?_, fun _ => hsince⟩
  · obtain hr | hsus := hstate
    · rw [Ready, hk, Option.some_inj] at hr
      exact Or.inl hr
    · rw [hk, Option.some_inj] at hsus
      exact Or.inr (Or.inr (Or.inr hsus))
  · refine ⟨(hevent k hk).1, (hevent k hk).2, ?_⟩
    obtain hr | hsus := hstate
    · rw [Ready] at hr
      simp [hr]
    · simp [hsus]
  · by_contra hw
    exact (hevent _ hp).2 (hwaits (by simpa using hw)).1

/-- A task that has been put down in the list of those that wait without end. -/
theorem Shape.settleSuspended (h : Shape idle (· = t) lo s Z)
    (hstate : s.stateList t = some .suspended)
    (hevent : ∀ k, s.eventList t = some k → HoldsEvents k)
    (harrived : ∀ e, s.eventList t = some (.event e) → s.arrived t < s.clock)
    (hpriority : s.kernel.uxPriority t < configMaxPriorities ∧
      s.kernel.lists.xItemValue (.event t) =
        UInt32.ofNat (configMaxPriorities - s.kernel.uxPriority t))
    (hwaiting : s.waiting t = false) (hsince : s.since t = []) : Shape idle idleHands lo s Z := by
  have hnot : ¬ s.Ready t := by
    rw [Ready, hstate]
    simp
  have hd : s.stateList t ≠ some s.kernel.pxDelayedTaskList := by
    rw [hstate]
    exact fun heq => h.delayed_ne.2.1 (Option.some.inj heq).symm
  have ho : s.stateList t ≠ some s.kernel.pxOverflowDelayedTaskList := by
    rw [hstate]
    exact fun heq => h.delayed_ne.2.2.1 (Option.some.inj heq).symm
  exact h.settle (TaskOk.of_not_delayed (Or.inr hstate) ⟨hd, ho⟩
    (fun k hk => ⟨hevent k hk, hnot⟩) harrived hpriority (fun hw => by simp [hwaiting] at hw)
    hsince) (fun hd' => absurd hd' hd) (fun hr => absurd hr hnot) (fun hr => absurd hr hnot)
    (by simp [hstate])

/-- A task that has been put down in one of the delayed lists. -/
theorem Shape.settleDelayed (h : Shape idle (· = t) lo s Z)
    (hstate : s.stateList t = some s.kernel.pxDelayedTaskList ∧ lo ≤ s.wake t ∧
        s.wake t / 2 ^ 32 = s.ticks / 2 ^ 32 ∧
        s.kernel.xNextTaskUnblockTime ≤ s.kernel.lists.xItemValue (.state t) ∨
      s.stateList t = some s.kernel.pxOverflowDelayedTaskList ∧
        s.wake t / 2 ^ 32 = s.ticks / 2 ^ 32 + 1)
    (hvalue : (s.kernel.lists.xItemValue (.state t)).toNat = s.wake t % 2 ^ 32)
    (hevent : ∀ k, s.eventList t = some k → ∃ e, k = .event e)
    (harrived : ∀ e, s.eventList t = some (.event e) → s.arrived t < s.clock)
    (hpriority : s.kernel.uxPriority t < configMaxPriorities ∧
      s.kernel.lists.xItemValue (.event t) =
        UInt32.ofNat (configMaxPriorities - s.kernel.uxPriority t))
    (hsince : s.since t = []) : Shape idle idleHands lo s Z := by
  have hnot : ¬ s.Ready t ∧ s.stateList t ≠ none := by
    rw [Ready]
    obtain ⟨hd, -⟩ | ⟨ho, -⟩ := hstate
    · rw [hd]
      exact ⟨fun heq => (h.delayed_ne.1 _).1 (Option.some.inj heq), by simp⟩
    · rw [ho]
      exact ⟨fun heq => (h.delayed_ne.1 _).2 (Option.some.inj heq), by simp⟩
  refine h.settle ⟨fun k hk => ?_, fun k hk => ⟨Or.inr (hevent k hk), hnot⟩, harrived,
    fun _ => hpriority, fun hd => ?_, fun ho => ?_, fun _ => ?_,
    fun hp => by simpa using hevent _ hp, fun _ => hsince⟩ (fun hd => ?_)
    (fun hr => absurd hr hnot.1) (fun hr => absurd hr hnot.1) hnot.2
  · obtain ⟨hd, -⟩ | ⟨ho, -⟩ := hstate
    · exact Or.inr (Or.inl (Option.some.inj (hk.symm.trans hd)))
    · exact Or.inr (Or.inr (Or.inl (Option.some.inj (hk.symm.trans ho))))
  · obtain ⟨-, hlo, hturn, -⟩ | ⟨ho, -⟩ := hstate
    · exact ⟨hlo, hturn, hvalue⟩
    · exact absurd (Option.some.inj (hd.symm.trans ho)) h.delayed_ne.2.2.2
  · obtain ⟨hd, -⟩ | ⟨-, hturn⟩ := hstate
    · exact absurd (Option.some.inj (hd.symm.trans ho)) h.delayed_ne.2.2.2
    · exact ⟨hturn, hvalue⟩
  · obtain ⟨hd, -⟩ | ⟨ho, -⟩ := hstate
    · exact Or.inl hd
    · exact Or.inr (Or.inl ho)
  · obtain ⟨-, -, -, hnext⟩ | ⟨ho, -⟩ := hstate
    · exact hnext
    · exact absurd (Option.some.inj (hd.symm.trans ho)) h.delayed_ne.2.2.2

section

variable [DecidableEq ε]

theorem pxContainer_prvAddTaskToReadyList {κ : Kernel τ ε} :
    (prvAddTaskToReadyList t κ).lists.pxContainer =
      Function.update κ.lists.pxContainer (.state t) (some (.ready (κ.uxPriority t))) := rfl

/-- **`prvAddTaskToReadyList`**: the task in hand has been taken out of its lists, and becomes
ready. -/
theorem Shape.addReady (h : Shape idle (· = t) lo s Z) (hidle : t ≠ idle)
    (hstate : s.stateList t = none) (hevent : s.eventList t = none)
    (hpriority : s.kernel.uxPriority t < configMaxPriorities ∧
      s.kernel.lists.xItemValue (.event t) =
        UInt32.ofNat (configMaxPriorities - s.kernel.uxPriority t))
    (hwaits : s.waiting t → s.wake t ≤ s.ticks) (hsince : s.since t = []) :
    Shape idle idleHands lo (s.on (prvAddTaskToReadyList t s.kernel))
      (Function.update Z (.ready (s.kernel.uxPriority t))
        ((Z (.ready (s.kernel.uxPriority t))).add (.state t))) := by
  have hinsert := h.insertEnd (k := .ready (s.kernel.uxPriority t)) hstate (rfl : t = t)
    (fun heq => hidle (TaskItem.state.inj heq)) (by simp) (by simp [HoldsEvents])
  have htop : s.kernel.uxTopReadyPriority ≤ (prvAddTaskToReadyList t s.kernel).uxTopReadyPriority ∧
      s.kernel.uxPriority t ≤ (prvAddTaskToReadyList t s.kernel).uxTopReadyPriority ∧
      (prvAddTaskToReadyList t s.kernel).uxTopReadyPriority < configMaxPriorities := by
    have htop := h.top
    simp only [prvAddTaskToReadyList]
    split <;> omega
  have hadd : Shape idle (· = t) lo (s.on (prvAddTaskToReadyList t s.kernel)) _ :=
    hinsert.vars rfl rfl rfl rfl rfl rfl rfl rfl (fun u hu => hinsert.next u hu) htop.1 htop.2.2
  have hready : (s.on (prvAddTaskToReadyList t s.kernel)).stateList t =
      some (.ready (s.kernel.uxPriority t)) := by
    rw [stateList_on, pxContainer_prvAddTaskToReadyList, Function.update_self]
  have hnone : (s.on (prvAddTaskToReadyList t s.kernel)).eventList t = none := by
    rw [eventList_on, pxContainer_prvAddTaskToReadyList, Function.update_of_ne (by simp)]
    exact hevent
  refine hadd.settle (TaskOk.of_not_delayed (Or.inl hready) ?_ ?_ ?_ hpriority
    (fun hw => ⟨hready, hwaits hw⟩) hsince) ?_ (fun _ => ?_) (fun _ => ?_) ?_
  · rw [hready]
    exact ⟨fun heq => (hadd.delayed_ne.1 _).1 (Option.some.inj heq).symm,
      fun heq => (hadd.delayed_ne.1 _).2 (Option.some.inj heq).symm⟩
  · rw [hnone]
    simp
  · rw [hnone]
    simp
  · rw [hready]
    exact fun heq => absurd (Option.some.inj heq).symm (hadd.delayed_ne.1 _).1
  · exact htop.2.1
  · have hmem := (hadd.lists.container _ _).mp hready
    change TurnRun.Waiting _ ⟨_, s.since t⟩
    rw [hsince]
    exact TurnRun.Waiting.start (hadd.lists.nodup _) hmem
  · rw [hready]
    simp

/-- **The event item** of the task in hand is taken out of its list, if it is in one. -/
theorem Shape.eventRemove (h : Shape idle (· = t) lo s Z) :
    ∃ m Z', taskEventRemove t s.kernel = some { s.kernel with lists := m } ∧
      m.xItemValue = s.kernel.lists.xItemValue ∧
      m.pxContainer = Function.update s.kernel.lists.pxContainer (.event t) none ∧
      (∀ k, ¬ HoldsEvents k → Z' k = Z k) ∧
      Shape idle (· = t) lo (s.on { s.kernel with lists := m }) Z' := by
  cases hx : s.kernel.lists.pxContainer (.event t) with
  | none => exact ⟨s.kernel.lists, Z, by rw [taskEventRemove, if_pos hx], rfl,
      by rw [← hx, Function.update_eq_self], fun _ _ => rfl, h⟩
  | some k =>
      obtain ⟨m, hremove, hvalue, hcontainer, hshape⟩ := h.remove hx rfl (by simp)
      refine ⟨m, _, by rw [taskEventRemove, if_neg (by simp [hx]), hremove], hvalue, hcontainer,
        fun k' hk' => Function.update_of_ne ?_ _ _, hshape⟩
      rintro rfl
      exact hk' ((h.items k' _ ((h.lists.container _ _).mp hx)).mp ⟨t, rfl⟩)

end

/-! ## the next time to unblock a task -/

omit [DecidableEq τ] in
/-- `prvResetNextTaskUnblockTime` changes one variable. -/
theorem prvResetNextTaskUnblockTime_eq (κ : Kernel τ ε) : prvResetNextTaskUnblockTime κ =
    { κ with xNextTaskUnblockTime := (prvResetNextTaskUnblockTime κ).xNextTaskUnblockTime } := by
  rw [prvResetNextTaskUnblockTime]
  split <;> rfl

omit [DecidableEq τ] in
/-- It is not after the time of any delayed task. -/
theorem prvResetNextTaskUnblockTime_le {κ : Kernel τ ε} (hlists : Lists κ.lists Z)
    (hsorted : (Z κ.pxDelayedTaskList).items.Pairwise fun x y =>
      κ.lists.xItemValue x ≤ κ.lists.xItemValue y) (hx : x ∈ (Z κ.pxDelayedTaskList).items) :
    (prvResetNextTaskUnblockTime κ).xNextTaskUnblockTime ≤ κ.lists.xItemValue x := by
  have hnext := hlists.rings.next_eq (k := κ.pxDelayedTaskList) (List.nil_append _).symm
  rw [RingNode.before_nil] at hnext
  rw [prvResetNextTaskUnblockTime, if_neg]
  · dsimp only
    rw [hnext]
    cases hitems : (Z κ.pxDelayedTaskList).items with
    | nil => simp [hitems] at hx
    | cons y l =>
        rw [hitems] at hx hsorted
        rw [RingNode.behind_cons, valueAt_item]
        obtain rfl | hx := List.mem_cons.mp hx
        · exact UInt32.le_refl _
        · exact (List.pairwise_cons.mp hsorted).1 x hx
  · rw [hlists.isEmpty]
    exact List.ne_nil_of_mem hx

/-- The list of the delayed tasks is in order. -/
theorem Shape.delayed_sorted (h : Shape idle busy lo s Z) :
    (Z s.kernel.pxDelayedTaskList).items.Pairwise fun x y =>
      s.kernel.lists.xItemValue x ≤ s.kernel.lists.xItemValue y :=
  h.sorted _ (by obtain ⟨hd, -⟩ | ⟨hd, -⟩ := h.names <;> simp [hd])

/-- **`prvResetNextTaskUnblockTime`**. -/
theorem Shape.resetNext (h : Shape idle busy lo s Z) :
    Shape idle busy lo (s.on (prvResetNextTaskUnblockTime s.kernel)) Z := by
  rw [prvResetNextTaskUnblockTime_eq]
  exact h.vars rfl rfl rfl rfl rfl rfl rfl rfl (fun u _ hu => prvResetNextTaskUnblockTime_le h.lists
    h.delayed_sorted ((h.lists.container _ _).mp hu)) le_rfl h.top

/-- The delayed tasks want to wake up after this tick. -/
theorem Shape.raise (h : Shape idle idleHands lo s Z)
    (hlate : ∀ t, s.stateList t = some s.kernel.pxDelayedTaskList →
      s.kernel.xTickCount < s.kernel.lists.xItemValue (.state t)) :
    Shape idle idleHands (s.ticks + 1) s Z := by
  refine { h with tasks := fun t ht => { h.tasks t ht with delayed := fun hd => ?_ } }
  obtain ⟨-, hturn, hvalue⟩ := (h.tasks t ht).delayed hd
  refine ⟨?_, hturn, hvalue⟩
  have hlt := UInt32.lt_iff_toNat_lt.mp (hlate t hd)
  rw [hvalue, h.tick] at hlt
  have hwake := Nat.div_add_mod (s.wake t) (2 ^ 32)
  have hticks := Nat.div_add_mod s.ticks (2 ^ 32)
  rw [hturn] at hwake
  omega

end KernelSys

end Fr5080
