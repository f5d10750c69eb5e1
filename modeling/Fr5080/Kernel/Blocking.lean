import Fr5080.Kernel.Ticks

/-!
# Fr5080.Kernel.Blocking

How the running task blocks: for some ticks, or until an event.
-/

namespace Fr5080

open Embedded

variable {τ ε : Type*} [DecidableEq τ] [DecidableEq ε]

namespace KernelSys

variable {s s' : KernelSys τ ε} {lo : Nat} {t u : τ} {k : TaskList ε} {idle : τ}
  {Z : TaskList ε → Turns (TaskItem τ)}

/-! ## blocking -/

omit [DecidableEq τ] [DecidableEq ε] in
/-- When a task wants to wake up after `n` ticks: in the same turn of `xTickCount`, or in the next
one, which the comparison with `xTickCount` tells. -/
theorem timeToWake {ticks : Nat} {xTickCount n : UInt32}
    (htick : xTickCount.toNat = ticks % 2 ^ 32) :
    (xTickCount + n).toNat = (ticks + n.toNat) % 2 ^ 32 ∧
      (xTickCount + n < xTickCount → (ticks + n.toNat) / 2 ^ 32 = ticks / 2 ^ 32 + 1) ∧
      (¬ xTickCount + n < xTickCount → (ticks + n.toNat) / 2 ^ 32 = ticks / 2 ^ 32) := by
  have hn := n.toNat_lt
  have hsum : (xTickCount + n).toNat = (ticks % 2 ^ 32 + n.toNat) % 2 ^ 32 := by
    rw [UInt32.toNat_add, htick]
  rw [UInt32.lt_iff_toNat_lt, hsum, htick]
  omega

/-- `prvAddCurrentTaskToDelayedList` with a name for the current task. -/
theorem prvAddCurrentTaskToDelayedList_eq {κ : Kernel τ ε} {n : UInt32} {forever : Bool}
    (hcurrent : t = κ.pxCurrentTCB) : prvAddCurrentTaskToDelayedList n forever κ =
      (taskListRemove (.state t)
        { κ with ucDelayAborted := Function.update κ.ucDelayAborted t false }).bind fun κ =>
          if n = portMaxDelay ∧ forever = true then
            some { κ with lists := vListInsertEnd .suspended (.state t) κ.lists }
          else if κ.xTickCount + n < κ.xTickCount then
            (vListInsert κ.pxOverflowDelayedTaskList (.state t)
              (listSetItemValue (.state t) (κ.xTickCount + n) κ.lists)).map fun m =>
                { κ with lists := m }
          else
            (vListInsert κ.pxDelayedTaskList (.state t)
              (listSetItemValue (.state t) (κ.xTickCount + n) κ.lists)).map fun m =>
                { κ with
                  lists := m
                  xNextTaskUnblockTime :=
                    if κ.xTickCount + n < κ.xNextTaskUnblockTime then κ.xTickCount + n
                    else κ.xNextTaskUnblockTime } := by
  subst hcurrent
  rfl

/-- The task in hand goes into the list of those that wake up after `xTickCount` has wrapped. -/
theorem Shape.joinOverflow (h : Shape idle (· = t) lo s Z) (hidle : t ≠ idle)
    (hstate : s.stateList t = none) (hturn : s.wake t / 2 ^ 32 = s.ticks / 2 ^ 32 + 1)
    (hvalue : (s.kernel.lists.xItemValue (.state t)).toNat = s.wake t % 2 ^ 32)
    (hevent : ∀ k, s.eventList t = some k → ∃ e, k = .event e)
    (harrived : ∀ e, s.eventList t = some (.event e) → s.arrived t < s.clock)
    (hpriority : s.kernel.uxPriority t < configMaxPriorities ∧
      s.kernel.lists.xItemValue (.event t) =
        UInt32.ofNat (configMaxPriorities - s.kernel.uxPriority t))
    (hsince : s.since t = []) :
    ∃ m Z', vListInsert s.kernel.pxOverflowDelayedTaskList (.state t) s.kernel.lists = some m ∧
      Shape idle idleHands lo (s.on { s.kernel with lists := m }) Z' ∧
      m.pxContainer = Function.update s.kernel.lists.pxContainer (.state t)
        (some s.kernel.pxOverflowDelayedTaskList) := by
  have hk : s.kernel.pxOverflowDelayedTaskList = .delayed1 ∨
      s.kernel.pxOverflowDelayedTaskList = .delayed2 := by
    obtain ⟨-, ho⟩ | ⟨-, ho⟩ := h.names <;> simp [ho]
  obtain ⟨m, T, hinsert, hvalues, hcontainer, hshape⟩ := h.insertDelayed hstate rfl hidle hk
  have hevent' : (s.on { s.kernel with lists := m }).eventList t = s.eventList t := by
    rw [eventList_on]
    dsimp only
    rw [hcontainer, Function.update_of_ne (by simp)]
    rfl
  refine ⟨m, _, hinsert, Shape.settleDelayed hshape (Or.inr ⟨?_, hturn⟩) ?_
    (fun k hk => hevent k (hevent'.symm.trans hk))
    (fun e he => harrived e (hevent'.symm.trans he)) ?_ hsince, hcontainer⟩
  · rw [stateList_on]
    dsimp only
    rw [hcontainer, Function.update_self]
    rfl
  · rw [kernel_on]
    dsimp only
    rw [hvalues]
    exact hvalue
  · rw [kernel_on]
    dsimp only
    rw [hvalues]
    exact hpriority

/-- Or into the list of those that wake up before; the next task that wakes up may be this one. -/
theorem Shape.joinDelayed (h : Shape idle (· = t) lo s Z) (hidle : t ≠ idle)
    (hstate : s.stateList t = none) (hlo : lo ≤ s.wake t)
    (hturn : s.wake t / 2 ^ 32 = s.ticks / 2 ^ 32)
    (hvalue : (s.kernel.lists.xItemValue (.state t)).toNat = s.wake t % 2 ^ 32) {next : UInt32}
    (hnext : next ≤ s.kernel.xNextTaskUnblockTime ∧ next ≤ s.kernel.lists.xItemValue (.state t))
    (hevent : ∀ k, s.eventList t = some k → ∃ e, k = .event e)
    (harrived : ∀ e, s.eventList t = some (.event e) → s.arrived t < s.clock)
    (hpriority : s.kernel.uxPriority t < configMaxPriorities ∧
      s.kernel.lists.xItemValue (.event t) =
        UInt32.ofNat (configMaxPriorities - s.kernel.uxPriority t))
    (hsince : s.since t = []) :
    ∃ m Z', vListInsert s.kernel.pxDelayedTaskList (.state t) s.kernel.lists = some m ∧
      Shape idle idleHands lo
        (s.on { s.kernel with lists := m, xNextTaskUnblockTime := next }) Z' ∧
      m.pxContainer = Function.update s.kernel.lists.pxContainer (.state t)
        (some s.kernel.pxDelayedTaskList) := by
  have hk : s.kernel.pxDelayedTaskList = .delayed1 ∨ s.kernel.pxDelayedTaskList = .delayed2 := by
    obtain ⟨hd, -⟩ | ⟨hd, -⟩ := h.names <;> simp [hd]
  obtain ⟨m, T, hinsert, hvalues, hcontainer, hshape⟩ := h.insertDelayed hstate rfl hidle hk
  have hshape' : Shape idle (· = t) lo (s.on { s.kernel with
      lists := m, xNextTaskUnblockTime := next }) _ := hshape.vars rfl rfl rfl rfl rfl rfl rfl rfl
    (fun u hu hd => UInt32.le_trans hnext.1 (hshape.next u hu hd)) le_rfl h.top
  have hevent' : (s.on { s.kernel with
      lists := m, xNextTaskUnblockTime := next }).eventList t = s.eventList t := by
    rw [eventList_on]
    dsimp only
    rw [hcontainer, Function.update_of_ne (by simp)]
    rfl
  refine ⟨m, _, hinsert, Shape.settleDelayed hshape' (Or.inl ⟨?_, hlo, hturn, ?_⟩) ?_
    (fun k hk => hevent k (hevent'.symm.trans hk))
    (fun e he => harrived e (hevent'.symm.trans he)) ?_ hsince, hcontainer⟩
  · rw [stateList_on]
    dsimp only
    rw [hcontainer, Function.update_self]
    rfl
  · rw [kernel_on]
    dsimp only
    rw [hvalues]
    exact hnext.2
  · rw [kernel_on]
    dsimp only
    rw [hvalues]
    exact hvalue
  · rw [kernel_on]
    dsimp only
    rw [hvalues]
    exact hpriority

/-- **`prvAddCurrentTaskToDelayedList`**: the current task is in hand, and its history tells already
when it wants to wake up. -/
theorem Shape.addToDelayed (h : Shape idle (· = t) (s.ticks + 1) s Z) {n : UInt32} {b : Bool}
    (hcurrent : t = s.kernel.pxCurrentTCB) (hidle : t ≠ idle) (hstate : s.stateList t = some k)
    (hn : n ≠ 0) (hevent : ∀ k, s.eventList t = some k → ∃ e, k = .event e)
    (harrived : ∀ e, s.eventList t = some (.event e) → s.arrived t < s.clock)
    (hpriority : s.kernel.uxPriority t < configMaxPriorities ∧
      s.kernel.lists.xItemValue (.event t) =
        UInt32.ofNat (configMaxPriorities - s.kernel.uxPriority t))
    (hsince : s.since t = [])
    (hforever : n = portMaxDelay ∧ b = true → s.waiting t = false)
    (hwake : ¬ (n = portMaxDelay ∧ b = true) → s.wake t = s.ticks + n.toNat) :
    ∃ m next Z' k', prvAddCurrentTaskToDelayedList n b s.kernel = some { s.kernel with
        ucDelayAborted := Function.update s.kernel.ucDelayAborted t false, lists := m,
        xNextTaskUnblockTime := next } ∧
      Shape idle idleHands (s.ticks + 1) (s.on { s.kernel with
        ucDelayAborted := Function.update s.kernel.ucDelayAborted t false, lists := m,
        xNextTaskUnblockTime := next }) Z' ∧
      (∀ p, k' ≠ .ready p) ∧
      m.pxContainer = Function.update s.kernel.lists.pxContainer (.state t) (some k') := by
  have hne : TaskItem.state t ≠ .state idle := fun heq => hidle (TaskItem.state.inj heq)
  have h₀ : Shape idle (· = t) (s.ticks + 1) (s.on { s.kernel with
      ucDelayAborted := Function.update s.kernel.ucDelayAborted t false }) Z :=
    h.vars rfl rfl rfl rfl rfl rfl rfl rfl (fun u hu => h.next u hu) le_rfl h.top
  obtain ⟨m₁, hremove, hvalue₁, hcontainer₁, h₁⟩ := h₀.remove (x := .state t) hstate rfl hne
  simp only [kernel_on] at hremove hvalue₁ hcontainer₁ h₁
  have hnone : m₁.pxContainer (.state t) = none := by rw [hcontainer₁, Function.update_self]
  have hevents : m₁.pxContainer (.event t) = s.eventList t := by
    rw [hcontainer₁, Function.update_of_ne (by simp)]
    rfl
  -- where the task goes, its items are where they have to be
  have hplaced : ∀ (m : ListMem (TaskList ε) (TaskItem τ)) k', m.pxContainer =
      Function.update m₁.pxContainer (.state t) (some k') → m.pxContainer =
        Function.update s.kernel.lists.pxContainer (.state t) (some k') := by
    intro m k' hm
    rw [hm, hcontainer₁, Function.update_idem]
  rw [prvAddCurrentTaskToDelayedList_eq hcurrent, hremove, Option.bind_some]
  dsimp only
  by_cases hblock : n = portMaxDelay ∧ b = true
  · -- without end
    rw [if_pos hblock]
    have h₂ := h₁.insertEnd (k := .suspended) hnone (rfl : t = t) hne (by simp)
      (by simp [HoldsEvents])
    have hlist := hplaced (vListInsertEnd .suspended (.state t) m₁) .suspended
      pxContainer_vListInsertEnd
    have hevent₂ : (vListInsertEnd .suspended (.state t) m₁).pxContainer (.event t) =
        s.eventList t := by
      rw [hlist, Function.update_of_ne (by simp)]
      rfl
    exact ⟨_, s.kernel.xNextTaskUnblockTime, _, _, rfl, h₂.settleSuspended
      ((congrFun hlist _).trans (Function.update_self _ _ _))
      (fun k hk => Or.inr (hevent k (hevent₂.symm.trans hk)))
      (fun e he => harrived e (hevent₂.symm.trans he))
      (by simpa only [kernel_on, xItemValue_vListInsertEnd, hvalue₁] using hpriority)
      (hforever hblock) hsince, by simp, hlist⟩
  · -- until the time to wake
    rw [if_neg hblock]
    have hwake := hwake hblock
    obtain ⟨hvalue, hover, hsame⟩ := timeToWake (n := n) h.tick
    have hpos : 0 < n.toNat := Nat.pos_of_ne_zero fun hzero => hn (UInt32.toNat_inj.mp hzero)
    have h₂ := h₁.setValue (x := .state t) hnone (rfl : t = t) (s.kernel.xTickCount + n)
    have hself : (listSetItemValue (.state t) (s.kernel.xTickCount + n) m₁).xItemValue (.state t) =
        s.kernel.xTickCount + n := Function.update_self _ _ _
    have hself' : (s.kernel.xTickCount + n).toNat = s.wake t % 2 ^ 32 := by
      rw [hvalue, hwake]
    have hother : (listSetItemValue (.state t) (s.kernel.xTickCount + n) m₁).xItemValue (.event t) =
        s.kernel.lists.xItemValue (.event t) := by
      have hevent : TaskItem.event t ≠ .state t := by simp
      rw [← hvalue₁]
      exact Function.update_of_ne hevent (s.kernel.xTickCount + n) m₁.xItemValue
    split
    · next hlt =>
      have hturn : s.wake t / 2 ^ 32 = s.ticks / 2 ^ 32 + 1 := by
        rw [hwake]
        exact hover hlt
      obtain ⟨m, Z', hinsert, h₃, hcontainer₃⟩ := h₂.joinOverflow hidle hnone hturn
        ((congrArg UInt32.toNat hself).trans hself') (fun k hk => hevent k (hevents.symm.trans hk))
        (fun e he => harrived e (hevents.symm.trans he)) ⟨hpriority.1, hother.trans hpriority.2⟩
        hsince
      simp only [kernel_on] at hinsert
      rw [hinsert]
      exact ⟨m, s.kernel.xNextTaskUnblockTime, Z', _, rfl, h₃, fun p => (h.delayed_ne.1 p).2,
        hplaced m _ hcontainer₃⟩
    · next hlt =>
      have hturn : s.wake t / 2 ^ 32 = s.ticks / 2 ^ 32 := by
        rw [hwake]
        exact hsame hlt
      generalize hnext : (if s.kernel.xTickCount + n < s.kernel.xNextTaskUnblockTime then
        s.kernel.xTickCount + n else s.kernel.xNextTaskUnblockTime) = next
      have hnext₁ : next ≤ s.kernel.xNextTaskUnblockTime ∧ next ≤ s.kernel.xTickCount + n := by
        rw [← hnext]
        split
        · next hlt' => exact ⟨UInt32.le_of_lt hlt', UInt32.le_refl _⟩
        · next hlt' => exact ⟨UInt32.le_refl _, UInt32.not_lt.mp hlt'⟩
      obtain ⟨m, Z', hinsert, h₃, hcontainer₃⟩ := h₂.joinDelayed hidle hnone
        (hwake.symm ▸ Nat.add_le_add_left hpos s.ticks) hturn
        ((congrArg UInt32.toNat hself).trans hself')
        ⟨hnext₁.1, UInt32.le_trans hnext₁.2 (UInt32.le_of_eq hself.symm)⟩
        (fun k hk => hevent k (hevents.symm.trans hk))
        (fun e he => harrived e (hevents.symm.trans he)) ⟨hpriority.1, hother.trans hpriority.2⟩
        hsince
      simp only [kernel_on] at hinsert
      rw [hinsert]
      exact ⟨m, next, Z', _, rfl, h₃, fun p => (h.delayed_ne.1 p).1, hplaced m _ hcontainer₃⟩

/-- The history of a task that blocks for `n` ticks, or without end. -/
def blocks (t : τ) (n : UInt32) (forever : Bool) (s : KernelSys τ ε) : KernelSys τ ε :=
  { s with
    wake := Function.update s.wake t (s.ticks + n.toNat)
    waiting := Function.update s.waiting t (!(n == portMaxDelay && forever))
    since := Function.update s.since t [] }

/-- The history of a task that comes into an event list. -/
def arrives (t : τ) (s : KernelSys τ ε) : KernelSys τ ε :=
  { s with arrived := Function.update s.arrived t s.clock, clock := s.clock + 1 }

omit [DecidableEq ε] in
/-- The running task is in no event list. -/
theorem Shape.eventList_of_ready (h : Shape idle idleHands lo s Z) (hready : s.Ready t) :
    s.eventList t = none := by
  by_contra hne
  obtain ⟨k, hk⟩ := Option.ne_none_iff_exists'.mp hne
  exact ((h.tasks t id).event k hk).2.1 hready

omit [DecidableEq ε] in
/-- A task that blocks is taken in hand. -/
theorem Shape.blocks (h : Shape idle idleHands lo s Z) (t : τ) (n : UInt32) (forever : Bool) :
    Shape idle (· = t) lo (s.blocks t n forever) Z := by
  refine (h.hold t).history rfl rfl le_rfl (fun u hu => ⟨?_, ?_, rfl, ?_⟩) (Or.inl rfl)
  all_goals exact Function.update_of_ne hu _ _

omit [DecidableEq ε] in
/-- So is one that comes into an event list. -/
theorem Shape.arrives (h : Shape idle (· = t) lo s Z) (hevent : s.eventList t = none) :
    Shape idle (· = t) lo (s.arrives t) Z :=
  h.history rfl rfl (Nat.le_succ _)
    (fun _ hu => ⟨rfl, rfl, Function.update_of_ne hu _ _, rfl⟩) (Or.inr hevent)

/-- **`prvAddCurrentTaskToDelayedList`** of `vTaskDelay`. -/
theorem Shape.delay (h : Shape idle idleHands (s.ticks + 1) s Z) {n : UInt32} (hn : n ≠ 0)
    (hready : s.Ready s.kernel.pxCurrentTCB) (hidle : s.kernel.pxCurrentTCB ≠ idle) :
    ∃ κ Z', prvAddCurrentTaskToDelayedList n false s.kernel = some κ ∧
      Shape idle idleHands (s.ticks + 1) ((s.blocks s.kernel.pxCurrentTCB n false).on κ) Z' ∧
      Keeps s.kernel κ ∧ κ.xYieldPending = s.kernel.xYieldPending ∧
      ∀ u, ((s.blocks s.kernel.pxCurrentTCB n false).on κ).Ready u → s.Ready u := by
  generalize ht : s.kernel.pxCurrentTCB = t at hready hidle ⊢
  have hevent := h.eventList_of_ready hready
  obtain ⟨m, next, Z', k', hadd, hshape, hk', hcontainer⟩ :=
    Shape.addToDelayed (s := s.blocks t n false) (b := false) (h.blocks t n false) ht.symm hidle
      hready hn
      (fun k hk => absurd (hevent.symm.trans hk) (by simp))
      (fun e he => absurd (hevent.symm.trans he) (by simp))
      ((h.tasks t id).priority (by rw [hready]; simp)) (Function.update_self ..) (by simp)
      (fun _ => Function.update_self ..)
  refine ⟨_, Z', hadd, hshape, ⟨rfl, rfl, rfl, rfl, fun _ u => Or.inl ?_⟩, rfl, fun u hu => ?_⟩
  · exact (congrFun hcontainer (.event u)).trans (Function.update_of_ne (by simp) _ _)
  · rw [Ready, stateList_on, hcontainer] at hu
    by_cases hut : u = t
    · rwa [hut]
    · rw [Function.update_of_ne (by simpa using hut)] at hu
      exact hu

/-- **`vTaskPlaceOnEventList`**. -/
theorem Shape.placeOnEventList (h : Shape idle idleHands (s.ticks + 1) s Z) (e : ε) {n : UInt32}
    (hn : n ≠ 0) (hready : s.Ready s.kernel.pxCurrentTCB) (hidle : s.kernel.pxCurrentTCB ≠ idle) :
    ∃ κ Z', vTaskPlaceOnEventList e n s.kernel = some κ ∧
      Shape idle idleHands (s.ticks + 1)
        (((s.blocks s.kernel.pxCurrentTCB n true).arrives s.kernel.pxCurrentTCB).on κ) Z' ∧
      κ.uxPriority = s.kernel.uxPriority ∧ κ.pxCurrentTCB = s.kernel.pxCurrentTCB ∧
      κ.uxSchedulerSuspended = s.kernel.uxSchedulerSuspended ∧
      κ.xPendedTicks = s.kernel.xPendedTicks ∧ κ.xYieldPending = s.kernel.xYieldPending ∧
      (∀ u, κ.lists.pxContainer (.event u) = s.eventList u ∨
        κ.lists.pxContainer (.event u) = some (.event e)) ∧
      ∀ u, (((s.blocks s.kernel.pxCurrentTCB n true).arrives s.kernel.pxCurrentTCB).on κ).Ready u →
        s.Ready u := by
  generalize ht : s.kernel.pxCurrentTCB = t at hready hidle ⊢
  have hevent := h.eventList_of_ready hready
  have h₁ := (h.blocks t n true).arrives hevent
  obtain ⟨m₁, T, hinsert, hvalue₁, hcontainer₁, h₂⟩ := h₁.insertEvent hevent rfl e
    fun u hu he => by
      change Function.update s.arrived t s.clock u < Function.update s.arrived t s.clock t
      rw [Function.update_self, Function.update_of_ne hu]
      exact (h.tasks u id).arrived e he
  have hpriority := (h.tasks t id).priority (by rw [hready]; simp)
  have hstate₂ : m₁.pxContainer (.state t) = some (.ready (s.kernel.uxPriority t)) := by
    rw [hcontainer₁, Function.update_of_ne (by simp)]
    exact hready
  have hevent₂ : m₁.pxContainer (.event t) = some (.event e) := by
    rw [hcontainer₁, Function.update_self]
  obtain ⟨m, next, Z', k', hadd, hshape, hk', hcontainer⟩ :=
    Shape.addToDelayed (s := ((s.blocks t n true).arrives t).on _) (b := true) h₂ ht.symm hidle
      hstate₂ hn
      (fun k hk => ⟨e, Option.some.inj (hk.symm.trans hevent₂)⟩)
      (fun _ _ => by
        change Function.update s.arrived t s.clock t < s.clock + 1
        rw [Function.update_self]
        exact Nat.lt_succ_self _)
      (by rw [kernel_on]; dsimp only; rw [hvalue₁]; exact hpriority) (Function.update_self ..)
      (fun hmax => by
        refine (Function.update_self ..).trans ?_
        simp [hmax.1])
      (fun _ => Function.update_self ..)
  have hcontainer : m.pxContainer = Function.update (Function.update s.kernel.lists.pxContainer
      (.event t) (some (.event e))) (.state t) (some k') := hcontainer.trans (by
    rw [kernel_on]
    dsimp only
    rw [hcontainer₁]
    rfl)
  refine ⟨_, Z', ?_, hshape, rfl, ht.symm ▸ rfl, rfl, rfl, rfl, fun u => ?_, fun u hu => ?_⟩
  · have hinsert :
        vListInsert (.event e) (.event s.kernel.pxCurrentTCB) s.kernel.lists = some m₁ := by
      rw [ht]
      exact hinsert
    rw [vTaskPlaceOnEventList, hinsert, Option.bind_some]
    exact hadd
  · dsimp only
    rw [hcontainer, Function.update_of_ne (by simp)]
    by_cases hut : u = t
    · subst hut
      exact Or.inr (Function.update_self ..)
    · exact Or.inl (Function.update_of_ne (by simpa using hut) _ _)
  · rw [Ready, stateList_on] at hu
    dsimp only at hu
    rw [hcontainer] at hu
    by_cases hut : u = t
    · rwa [hut]
    · rw [Function.update_of_ne (by simpa using hut), Function.update_of_ne (by simp)] at hu
      exact hu

end KernelSys

end Fr5080
