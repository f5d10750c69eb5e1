import Fr5080.Kernel.Invariant

/-!
# Fr5080.Kernel.Ticks

A tick, and the selection of the task that runs next: neither fails, and both keep the shape
of the lists.

* `Shape.incrementTick` — all tasks whose time has come become ready, whether `xTickCount`
  wraps or not;
* `Shape.select` — a ready task is selected, and none has a higher priority.
-/

namespace Fr5080

open Embedded

variable {τ ε : Type*} [DecidableEq τ] [DecidableEq ε]

namespace KernelSys

variable {s s' : KernelSys τ ε} {lo : Nat} {t u : τ} {k : TaskList ε} {idle : τ}
  {Z : TaskList ε → Turns (TaskItem τ)}

/-- No task that is ready has a higher priority than the one that is running. -/
def Highest (s : KernelSys τ ε) : Prop :=
  ∀ t, s.Ready t → s.kernel.uxPriority t ≤ s.kernel.uxPriority s.kernel.pxCurrentTCB

/-- What the functions that unblock tasks leave as it is. -/
structure Keeps (κ κ' : Kernel τ ε) : Prop where
  priority : κ'.uxPriority = κ.uxPriority
  current : κ'.pxCurrentTCB = κ.pxCurrentTCB
  suspended : κ'.uxSchedulerSuspended = κ.uxSchedulerSuspended
  pended : κ'.xPendedTicks = κ.xPendedTicks
  events : κ.uxSchedulerSuspended = 0 → ∀ t,
    κ'.lists.pxContainer (.event t) = κ.lists.pxContainer (.event t) ∨
      κ'.lists.pxContainer (.event t) = none

/-! ## ticks -/

omit [DecidableEq ε] in
/-- A task that is not ready is not the idle task, and nobody has been selected in its place. -/
theorem Shape.of_not_ready (h : Shape idle idleHands lo s Z) (hnot : ¬ s.Ready t)
    (hstate : s.stateList t ≠ none) : t ≠ idle ∧ s.since t = [] ∧
      s.kernel.uxPriority t < configMaxPriorities ∧ s.kernel.lists.xItemValue (.event t) =
        UInt32.ofNat (configMaxPriorities - s.kernel.uxPriority t) := by
  refine ⟨?_, (h.tasks t id).since hnot, (h.tasks t id).priority hstate⟩
  rintro rfl
  exact hnot (by rw [Ready, h.idle.2, h.idle.1])

/-- **One round of `xTaskIncrementTick`**: a delayed task whose time has come becomes ready. -/
theorem Shape.wakeUp (h : Shape idle idleHands lo s Z)
    (hstate : s.stateList t = some s.kernel.pxDelayedTaskList)
    (hdue : s.kernel.lists.xItemValue (.state t) ≤ s.kernel.xTickCount) :
    ∃ m₁ m₂ Z', taskListRemove (.state t) s.kernel = some { s.kernel with lists := m₁ } ∧
      taskEventRemove t { s.kernel with lists := m₁ } = some { s.kernel with lists := m₂ } ∧
      m₂.pxContainer = Function.update (Function.update s.kernel.lists.pxContainer (.state t) none)
        (.event t) none ∧
      (Z' s.kernel.pxDelayedTaskList).items =
        (Z s.kernel.pxDelayedTaskList).items.erase (.state t) ∧
      Shape idle idleHands lo
        (s.on (prvAddTaskToReadyList t { s.kernel with lists := m₂ })) Z' := by
  have hnot : ¬ s.Ready t := by
    rw [Ready, hstate, Option.some_inj]
    exact (h.delayed_ne.1 _).1
  obtain ⟨hidle, hsince, hpriority⟩ := h.of_not_ready hnot (by simp [hstate])
  have hwake : s.wake t ≤ s.ticks := by
    obtain ⟨-, hturn, hvalue⟩ := (h.tasks t id).delayed hstate
    have hle := UInt32.le_iff_toNat_le.mp hdue
    rw [hvalue, h.tick] at hle
    have hwake := Nat.div_add_mod (s.wake t) (2 ^ 32)
    have hticks := Nat.div_add_mod s.ticks (2 ^ 32)
    rw [hturn] at hwake
    omega
  obtain ⟨m₁, hremove₁, hvalue₁, hcontainer₁, h₁⟩ := (h.hold t).remove hstate rfl
    fun heq => hidle (TaskItem.state.inj heq)
  obtain ⟨m₂, Z₂, hremove₂, hvalue₂, hcontainer₂, hsame, h₂⟩ := h₁.eventRemove
  simp only [kernel_on] at hremove₂ hvalue₂ hcontainer₂ h₂
  have h₃ := h₂.addReady hidle
    (by rw [stateList_on, hcontainer₂, Function.update_of_ne (by simp), hcontainer₁,
      Function.update_self])
    (by rw [eventList_on, hcontainer₂, Function.update_self])
    (by
      simp only [kernel_on, hvalue₂, hvalue₁]
      exact hpriority)
    (fun _ => hwake) hsince
  refine ⟨m₁, m₂, _, hremove₁, hremove₂, by rw [hcontainer₂, hcontainer₁], ?_, h₃⟩
  have hholds : ¬ HoldsEvents s.kernel.pxDelayedTaskList := by
    obtain ⟨hd, -⟩ | ⟨hd, -⟩ := h.names <;> simp [hd, HoldsEvents]
  rw [Function.update_of_ne (h.delayed_ne.1 _).1, hsame _ hholds, Function.update_self,
    Turns.items_drop (h.lists.nodup _)]

omit [DecidableEq ε] in
/-- The first of the delayed tasks wakes up first. -/
theorem Shape.delayedHead (h : Shape idle idleHands lo s Z) {x : TaskItem τ}
    {l : List (TaskItem τ)} (hitems : (Z s.kernel.pxDelayedTaskList).items = x :: l) :
    ∃ t, x = .state t ∧ s.stateList t = some s.kernel.pxDelayedTaskList ∧
      ∀ u, s.stateList u = some s.kernel.pxDelayedTaskList →
        s.kernel.lists.xItemValue (.state t) ≤ s.kernel.lists.xItemValue (.state u) := by
  have hx : x ∈ (Z s.kernel.pxDelayedTaskList).items := by
    rw [hitems]
    exact List.mem_cons_self
  have hholds : ¬ HoldsEvents s.kernel.pxDelayedTaskList := by
    obtain ⟨hd, -⟩ | ⟨hd, -⟩ := h.names <;> simp [hd, HoldsEvents]
  obtain ⟨t, rfl⟩ : ∃ t, x = .state t := by
    cases x with
    | state t => exact ⟨t, rfl⟩
    | event t => exact absurd ((h.items _ _ hx).mp ⟨t, rfl⟩) hholds
  have hsorted := h.delayed_sorted
  rw [hitems] at hsorted
  refine ⟨t, rfl, (h.lists.container _ _).mpr hx, fun u hu => ?_⟩
  have hmem := (h.lists.container _ _).mp hu
  rw [hitems] at hmem
  obtain heq | hmem := List.mem_cons.mp hmem
  · rw [heq]
    exact UInt32.le_refl _
  · exact (List.pairwise_cons.mp hsorted).1 _ hmem

/-- **The loop of `xTaskIncrementTick`**: all tasks whose time has come become ready. -/
theorem Shape.tickLoop (h : Shape idle idleHands lo s Z) {n : Nat}
    (hn : (Z s.kernel.pxDelayedTaskList).items.length < n) (b : Bool) :
    ∃ m top next b' Z', xTaskIncrementTickLoop n s.kernel b = some ({ s.kernel with
        lists := m, uxTopReadyPriority := top, xNextTaskUnblockTime := next }, b') ∧
      Shape idle idleHands (s.ticks + 1) (s.on { s.kernel with
        lists := m, uxTopReadyPriority := top, xNextTaskUnblockTime := next }) Z' ∧
      (∀ u, m.pxContainer (.event u) = s.kernel.lists.pxContainer (.event u) ∨
        m.pxContainer (.event u) = none) ∧
      (b = true → b' = true) ∧
      (b' = false → s.Highest → (s.on { s.kernel with
        lists := m, uxTopReadyPriority := top, xNextTaskUnblockTime := next }).Highest) := by
  induction n generalizing s Z b with
  | zero => exact absurd hn (Nat.not_lt_zero _)
  | succ n ih =>
      have hhead := h.lists.headEntry (k := s.kernel.pxDelayedTaskList)
      rw [xTaskIncrementTickLoop]
      cases hitems : (Z s.kernel.pxDelayedTaskList).items with
      | nil =>
          have hnone : ∀ u, s.stateList u ≠ some s.kernel.pxDelayedTaskList := by
            intro u hu
            have hmem := (h.lists.container _ _).mp hu
            rw [hitems] at hmem
            cases hmem
          rw [if_pos (h.lists.isEmpty.mpr hitems)]
          exact ⟨s.kernel.lists, s.kernel.uxTopReadyPriority, portMaxDelay, b, Z, rfl,
            (h.raise fun u hu => absurd hu (hnone u)).vars rfl rfl rfl rfl rfl rfl rfl rfl
              (fun u _ hu => absurd hu (hnone u)) le_rfl h.top,
            fun _ => Or.inl rfl, id, fun _ => id⟩
      | cons x l =>
          obtain ⟨t, rfl, hstate, hfirst⟩ := h.delayedHead hitems
          rw [if_neg (by rw [h.lists.isEmpty, hitems]; simp), hhead, hitems, List.head?_cons,
            Option.bind_some]
          dsimp only [TaskItem.pvOwner]
          split
          · next hlt =>
            exact ⟨s.kernel.lists, s.kernel.uxTopReadyPriority, _, b, Z, rfl,
              (h.raise fun u hu => UInt32.lt_of_lt_of_le hlt (hfirst u hu)).vars rfl rfl rfl rfl
                rfl rfl rfl rfl (fun u _ hu => hfirst u hu) le_rfl h.top,
              fun _ => Or.inl rfl, id, fun _ => id⟩
          · next hlt =>
            obtain ⟨m₁, m₂, Z', hremove₁, hremove₂, hcontainer, herase, hwoken⟩ :=
              h.wakeUp hstate (UInt32.not_lt.mp hlt)
            rw [hremove₁, Option.bind_some, hremove₂, Option.bind_some]
            have hlength : (Z' s.kernel.pxDelayedTaskList).items.length < n := by
              rw [herase, hitems, List.erase_cons_head]
              rw [hitems, List.length_cons] at hn
              omega
            obtain ⟨m, top, next, b', Z'', hloop, hshape, hevent, hb, hhighest⟩ :=
              ih hwoken hlength
                (if s.kernel.uxPriority t ≥ s.kernel.uxPriority s.kernel.pxCurrentTCB then true
                  else b)
            refine ⟨m, top, next, b', Z'', hloop, hshape, fun u => ?_, fun hb' => ?_,
              fun hb' hs => hhighest hb' fun u hu => ?_⟩
            · obtain heq | hnone := hevent u
              · rw [heq, kernel_on, pxContainer_prvAddTaskToReadyList]
                simp only
                rw [Function.update_of_ne (by simp), hcontainer]
                by_cases hu : u = t
                · subst hu
                  exact Or.inr (Function.update_self ..)
                · rw [Function.update_of_ne (by simpa using hu), Function.update_of_ne (by simp)]
                  exact Or.inl rfl
              · exact Or.inr hnone
            · refine hb ?_
              rw [hb', ite_self]
            · by_cases hut : u = t
              · subst hut
                by_contra hlt
                refine Bool.false_ne_true (hb'.symm.trans (hb (if_pos ?_)))
                exact Nat.le_of_lt (Nat.not_le.mp hlt)
              · refine hs u ?_
                rw [Ready, stateList_on, pxContainer_prvAddTaskToReadyList,
                  Function.update_of_ne (by simpa using hut)] at hu
                simp only [hcontainer] at hu
                rwa [Function.update_of_ne (by simp), Function.update_of_ne (by simpa using hut)]
                  at hu

omit [DecidableEq ε] in
/-- `xTickCount` goes on, and does not wrap. -/
theorem Shape.count (h : Shape idle idleHands (s.ticks + 1) s Z)
    (hwrap : s.kernel.xTickCount + 1 ≠ 0) : Shape idle idleHands (s.ticks + 1)
      ({ s with ticks := s.ticks + 1 }.on { s.kernel with xTickCount := s.kernel.xTickCount + 1 })
      Z := by
  have hne : s.ticks % 2 ^ 32 ≠ 2 ^ 32 - 1 := by
    intro heq
    refine hwrap (UInt32.toNat_inj.mp ?_)
    rw [UInt32.toNat_add, h.tick, heq]
    rfl
  have hturn : (s.ticks + 1) / 2 ^ 32 = s.ticks / 2 ^ 32 := by omega
  refine ⟨h.lists, h.marks, h.names, h.sorted, h.events, h.items, fun t _ => ?_, h.next, h.ready,
    h.turns, h.idle, h.top, h.current, h.number, ?_, ?_⟩
  · have ht := h.tasks t id
    refine ⟨ht.state, ht.event, ht.arrived, ht.priority, fun hd => ?_, fun ho => ?_, fun hw => ?_,
      ht.pending, ht.since⟩
    · obtain ⟨hlo, hwake, hvalue⟩ := ht.delayed hd
      exact ⟨hlo, hwake.trans hturn.symm, hvalue⟩
    · obtain ⟨hwake, hvalue⟩ := ht.overflow ho
      exact ⟨hwake.trans (congrArg (· + 1) hturn.symm), hvalue⟩
    · obtain hd | ho | ⟨hr, hwake⟩ := ht.waits hw
      · exact Or.inl hd
      · exact Or.inr (Or.inl ho)
      · exact Or.inr (Or.inr ⟨hr, Nat.le_succ_of_le hwake⟩)
  · change (s.kernel.xTickCount + 1).toNat = _
    rw [UInt32.toNat_add, h.tick]
    change _ = (s.ticks + 1) % 2 ^ 32
    simp only [UInt32.reduceToNat]
    omega
  · change s.kernel.xNumOfOverflows.toNat = (s.ticks + 1) / 2 ^ 32 % 2 ^ 32
    rw [hturn]
    exact h.overflows

omit [DecidableEq ε] in
/-- `xTickCount` wraps: nobody waits for a tick before that, and the lists of the delayed tasks
change places. -/
theorem Shape.switchDelayedLists (h : Shape idle idleHands (s.ticks + 1) s Z)
    (hwrap : s.kernel.xTickCount + 1 = 0) :
    ∃ κ, taskSwitchDelayedLists { s.kernel with xTickCount := s.kernel.xTickCount + 1 } = some κ ∧
      Shape idle idleHands (s.ticks + 1) ({ s with ticks := s.ticks + 1 }.on κ) Z ∧
      Keeps s.kernel κ ∧ κ.lists = s.kernel.lists ∧ κ.xYieldPending = s.kernel.xYieldPending := by
  have hlast : s.ticks % 2 ^ 32 = 2 ^ 32 - 1 := by
    have hzero := congrArg UInt32.toNat hwrap
    rw [UInt32.toNat_add, h.tick] at hzero
    simp only [UInt32.reduceToNat] at hzero
    omega
  have hturn : (s.ticks + 1) / 2 ^ 32 = s.ticks / 2 ^ 32 + 1 := by omega
  have hnone : ∀ t, s.stateList t ≠ some s.kernel.pxDelayedTaskList := by
    intro t hd
    obtain ⟨hlo, hwake, -⟩ := (h.tasks t id).delayed hd
    omega
  have hempty : (Z s.kernel.pxDelayedTaskList).items = [] := by
    refine List.eq_nil_iff_forall_not_mem.mpr fun x hx => ?_
    cases x with
    | state t => exact hnone t ((h.lists.container _ _).mpr hx)
    | event t =>
        have hholds := (h.items _ _ hx).mp ⟨t, rfl⟩
        obtain ⟨hd, -⟩ | ⟨hd, -⟩ := h.names <;> simp [hd, HoldsEvents] at hholds
  have hsorted := h.sorted s.kernel.pxOverflowDelayedTaskList
    (by obtain ⟨-, ho⟩ | ⟨-, ho⟩ := h.names <;> simp [ho])
  refine ⟨_, if_pos (h.lists.isEmpty.mpr hempty), ?_, ?_, ?_, ?_⟩
  · rw [prvResetNextTaskUnblockTime_eq]
    refine ⟨h.lists, h.marks, h.names.symm.imp And.symm And.symm, h.sorted, h.events, h.items,
      fun t _ => ?_, fun t _ ht => ?_, h.ready, h.turns, h.idle, h.top, h.current, h.number, ?_, ?_⟩
    · have ht := h.tasks t id
      refine ⟨fun k hk => ?_, ht.event, ht.arrived, ht.priority, fun hd => ?_,
        fun ho => absurd ho (hnone t), fun hw => ?_, ht.pending, ht.since⟩
      · obtain hr | hd | ho | hsus := ht.state k hk
        · exact Or.inl hr
        · exact Or.inr (Or.inr (Or.inl hd))
        · exact Or.inr (Or.inl ho)
        · exact Or.inr (Or.inr (Or.inr hsus))
      · obtain ⟨hwake, hvalue⟩ := ht.overflow hd
        refine ⟨?_, hwake.trans hturn.symm, hvalue⟩
        change s.ticks + 1 ≤ s.wake t
        omega
      · obtain hd | ho | ⟨hr, hwake⟩ := ht.waits hw
        · exact absurd hd (hnone t)
        · exact Or.inl ho
        · exact Or.inr (Or.inr ⟨hr, Nat.le_succ_of_le hwake⟩)
    · exact prvResetNextTaskUnblockTime_le (κ := { s.kernel with
        xTickCount := s.kernel.xTickCount + 1
        pxDelayedTaskList := s.kernel.pxOverflowDelayedTaskList
        pxOverflowDelayedTaskList := s.kernel.pxDelayedTaskList
        xNumOfOverflows := s.kernel.xNumOfOverflows + 1 }) h.lists hsorted
        ((h.lists.container _ _).mp ht)
    · change (s.kernel.xTickCount + 1).toNat = (s.ticks + 1) % 2 ^ 32
      rw [hwrap]
      simp only [UInt32.reduceToNat]
      omega
    · change (s.kernel.xNumOfOverflows + 1).toNat = (s.ticks + 1) / 2 ^ 32 % 2 ^ 32
      rw [UInt32.toNat_add, h.overflows, hturn]
      simp only [UInt32.reduceToNat]
      omega
  all_goals rw [prvResetNextTaskUnblockTime_eq]
  exact ⟨rfl, rfl, rfl, rfl, fun _ _ => Or.inl rfl⟩

/-- **`xTaskIncrementTick`**, when the scheduler is not suspended. -/
theorem Shape.incrementTick (h : Shape idle idleHands (s.ticks + 1) s Z)
    (hrunning : s.kernel.uxSchedulerSuspended = 0) :
    ∃ κ b Z', xTaskIncrementTick s.kernel = some (κ, b) ∧
      Shape idle idleHands (s.ticks + 2) ({ s with ticks := s.ticks + 1 }.on κ) Z' ∧
      Keeps s.kernel κ ∧ κ.xYieldPending = s.kernel.xYieldPending ∧
      (b = false → s.Highest → ({ s with ticks := s.ticks + 1 }.on κ).Highest) ∧
      (b = false → s.kernel.xYieldPending = false) := by
  -- the count
  obtain ⟨κ, hcount, hshape, hkeeps, hlists, hyield⟩ : ∃ κ,
      (if s.kernel.xTickCount + 1 = 0 then
        taskSwitchDelayedLists { s.kernel with xTickCount := s.kernel.xTickCount + 1 }
      else some { s.kernel with xTickCount := s.kernel.xTickCount + 1 }) = some κ ∧
      Shape idle idleHands (s.ticks + 1) ({ s with ticks := s.ticks + 1 }.on κ) Z ∧
      Keeps s.kernel κ ∧ κ.lists = s.kernel.lists ∧ κ.xYieldPending = s.kernel.xYieldPending := by
    split
    · next hwrap => exact h.switchDelayedLists hwrap
    · next hwrap =>
      exact ⟨_, rfl, h.count hwrap, ⟨rfl, rfl, rfl, rfl, fun _ _ => Or.inl rfl⟩, rfl, rfl⟩
  have hhighest : s.Highest → ({ s with ticks := s.ticks + 1 }.on κ).Highest := by
    intro hs u hu
    rw [Ready, stateList_on, kernel_on, hlists, hkeeps.priority] at hu
    rw [kernel_on, hkeeps.priority, hkeeps.current]
    exact hs u hu
  -- the loop
  obtain ⟨κ', b, Z', hloop, hshape', hkeeps', hyield', hhighest'⟩ : ∃ κ' b Z',
      (if κ.xTickCount ≥ κ.xNextTaskUnblockTime then
        xTaskIncrementTickLoop (κ.lists.uxNumberOfItems κ.pxDelayedTaskList + 1) κ false
      else some (κ, false)) = some (κ', b) ∧
      Shape idle idleHands (s.ticks + 2) ({ s with ticks := s.ticks + 1 }.on κ') Z' ∧
      Keeps s.kernel κ' ∧ κ'.xYieldPending = s.kernel.xYieldPending ∧
      (b = false → s.Highest → ({ s with ticks := s.ticks + 1 }.on κ').Highest) := by
    split
    · obtain ⟨m, top, next, b, Z', hloop, hshape', hevents, -, hhighest'⟩ := hshape.tickLoop
        (n := κ.lists.uxNumberOfItems κ.pxDelayedTaskList + 1)
        (by rw [kernel_on, ← hshape.lists.count]; exact Nat.lt_succ_self _) false
      refine ⟨_, b, Z', hloop, hshape', ⟨hkeeps.priority, hkeeps.current, hkeeps.suspended,
        hkeeps.pended, fun _ u => ?_⟩, hyield, fun hb hs => hhighest' hb (hhighest hs)⟩
      obtain heq | hnone := hevents u
      · exact Or.inl (heq.trans (by rw [kernel_on, hlists]))
      · exact Or.inr hnone
    · next hearly =>
      refine ⟨κ, false, Z, rfl, hshape.raise fun u hu => ?_, hkeeps, hyield, fun _ => hhighest⟩
      exact UInt32.lt_of_lt_of_le (UInt32.not_le.mp hearly) (hshape.next u id hu)
  refine ⟨κ', xTaskIncrementTickSwitch κ' b, Z', ?_, hshape', hkeeps', hyield', fun hb => ?_,
    fun hb => ?_⟩
  · rw [xTaskIncrementTick, if_pos hrunning]
    dsimp only
    rw [hcount, Option.bind_some, hloop]
    rfl
  · rw [xTaskIncrementTickSwitch, Bool.or_assoc, Bool.or_eq_false_iff] at hb
    exact hhighest' hb.1
  · rw [xTaskIncrementTickSwitch, Bool.or_eq_false_iff] at hb
    exact hyield'.symm.trans hb.2

/-! ## selection -/

omit [DecidableEq τ] [DecidableEq ε] in
/-- Where one of the lists is not empty, the walk finds the first one from the top. -/
theorem taskTopPriority_spec {κ : Kernel τ ε} (hlists : Lists κ.lists Z) {p n : Nat} (hp : p ≤ n)
    (hne : (Z (.ready p)).items ≠ []) :
    ∃ q ≤ n, taskTopPriority κ n = some q ∧ (Z (.ready q)).items ≠ [] ∧
      ∀ r, q < r → r ≤ n → (Z (.ready r)).items = [] := by
  induction n with
  | zero =>
      obtain rfl := Nat.le_zero.mp hp
      exact ⟨0, le_rfl, by rw [taskTopPriority, if_neg (mt hlists.isEmpty.mp hne)], hne,
        fun r hr hr' => by omega⟩
  | succ n ih =>
      rw [taskTopPriority]
      split
      · next hempty =>
        have hnil := hlists.isEmpty.mp hempty
        have hp' : p ≤ n := by
          refine Nat.le_of_lt_succ (Nat.lt_of_le_of_ne hp ?_)
          rintro rfl
          exact hne hnil
        obtain ⟨q, hq, htop, hneq, hall⟩ := ih hp'
        refine ⟨q, Nat.le_succ_of_le hq, htop, hneq, fun r hr hr' => ?_⟩
        obtain hr' | rfl := Nat.le_succ_iff.mp hr'
        · exact hall r hr hr'
        · exact hnil
      · next hempty =>
        exact ⟨n + 1, le_rfl, rfl, mt hlists.isEmpty.mpr hempty, fun r hr hr' => by omega⟩

/-- When `t` is selected: it has had its turn, and the others of its ready list have seen it. -/
def selected (s : KernelSys τ ε) (t u : τ) : List (TaskItem τ) :=
  if u = t then []
  else if s.stateList u = some (.ready (s.kernel.uxPriority t)) then s.since u ++ [.state t]
  else s.since u

omit [DecidableEq ε] in
/-- The ready list of a task is that of its priority. -/
theorem Shape.eq_priority (h : Shape idle idleHands lo s Z) {p : Nat}
    (hstate : s.stateList u = some (.ready p)) : p = s.kernel.uxPriority u := by
  obtain hr | hd | ho | hsus := (h.tasks u id).state _ hstate
  · exact TaskList.ready.inj hr
  · exact absurd hd.symm (h.delayed_ne.1 p).1
  · exact absurd ho.symm (h.delayed_ne.1 p).2
  · cases hsus

/-- The search finds the list of the highest priority, and the task there whose turn is next. -/
theorem Shape.findHighest (h : Shape idle idleHands lo s Z) :
    ∃ t m T, taskSelectHighestPriorityTask s.kernel = some { s.kernel with
        pxCurrentTCB := t, lists := m, uxTopReadyPriority := s.kernel.uxPriority t } ∧
      (Z (.ready (s.kernel.uxPriority t))).next = some (.state t, T) ∧
      Lists m (Function.update Z (.ready (s.kernel.uxPriority t)) T) ∧
      m.xItemValue = s.kernel.lists.xItemValue ∧
      m.pxContainer = s.kernel.lists.pxContainer ∧ s.Ready t ∧
      (∀ u, s.Ready u → s.kernel.uxPriority u ≤ s.kernel.uxPriority t) ∧
      s.kernel.uxPriority t < configMaxPriorities := by
  obtain ⟨p, hp, htop, hne, hempty⟩ := taskTopPriority_spec h.lists (p := 0) (Nat.zero_le
    s.kernel.uxTopReadyPriority) (List.ne_nil_of_mem ((h.lists.container _ _).mp h.idle.1))
  obtain ⟨y, T, hnext, hy⟩ := Turns.exists_next hne
  obtain ⟨t, rfl⟩ : ∃ t, y = .state t := by
    cases y with
    | state t => exact ⟨t, rfl⟩
    | event t =>
        have hholds := (h.items _ _ hy).mp ⟨t, rfl⟩
        simp [HoldsEvents] at hholds
  have hstate : s.stateList t = some (.ready p) := (h.lists.container _ _).mpr hy
  obtain rfl := h.eq_priority hstate
  obtain ⟨m, hentry, hlists, hvalue, hcontainer⟩ := h.lists.nextEntry hnext
  refine ⟨t, m, T, ?_, hnext, hlists, hvalue, hcontainer, hstate, fun u hu => ?_,
    Nat.lt_of_le_of_lt hp h.top⟩
  · rw [taskSelectHighestPriorityTask, htop, Option.bind_some, hentry]
    rfl
  · by_contra hlt
    have hmem := (h.lists.container _ _).mp hu
    rw [hempty _ (Nat.not_le.mp hlt) (h.ready u id hu)] at hmem
    cases hmem

/-- A task that is not selected goes on waiting. -/
theorem Shape.waiting_selected (h : Shape idle idleHands lo s Z) {T : Turns (TaskItem τ)}
    (hnext : (Z (.ready (s.kernel.uxPriority t))).next = some (.state t, T)) (hu : s.Ready u) :
    TurnRun.Waiting (.state u)
      ⟨Function.update Z (.ready (s.kernel.uxPriority t)) T (.ready (s.kernel.uxPriority u)),
        s.selected t u⟩ := by
  have hwait := h.turns u id hu
  rw [selected]
  split
  · next heq =>
    -- its own turn begins anew
    subst heq
    rw [Function.update_self]
    refine TurnRun.Waiting.start ?_ ?_
    · rw [Turns.items_next hnext]
      exact h.lists.nodup _
    · rw [Turns.items_next hnext]
      exact (h.lists.container _ _).mp hu
  · next hne =>
    split
    · next hin =>
      obtain heq := h.eq_priority hin
      rw [heq] at hnext ⊢
      rw [Function.update_self]
      exact (hwait.next hnext).resolve_left fun heq => hne (TaskItem.state.inj heq).symm
    · next hin =>
      rw [Function.update_of_ne]
      · exact hwait
      · intro heq
        refine hin ?_
        rw [← heq]
        exact hu

/-- The turn of a task begins. -/
theorem Shape.turn (h : Shape idle idleHands lo s Z) {m : ListMem (TaskList ε) (TaskItem τ)}
    {T : Turns (TaskItem τ)}
    (hnext : (Z (.ready (s.kernel.uxPriority t))).next = some (.state t, T))
    (hlists : Lists m (Function.update Z (.ready (s.kernel.uxPriority t)) T))
    (hvalue : m.xItemValue = s.kernel.lists.xItemValue)
    (hcontainer : m.pxContainer = s.kernel.lists.pxContainer) (hstate : s.Ready t)
    (hhighest : ∀ u, s.Ready u → s.kernel.uxPriority u ≤ s.kernel.uxPriority t)
    (htop : s.kernel.uxPriority t < configMaxPriorities) :
    Shape idle idleHands lo ({ s with since := s.selected t }.on { s.kernel with
        pxCurrentTCB := t, lists := m, uxTopReadyPriority := s.kernel.uxPriority t })
      (Function.update Z (.ready (s.kernel.uxPriority t)) T) := by
  generalize hκ : { s.kernel with
    pxCurrentTCB := t, lists := m, uxTopReadyPriority := s.kernel.uxPriority t } = κ
  have hκ_lists : κ.lists = m := by rw [← hκ]
  have hκ_priority : κ.uxPriority = s.kernel.uxPriority := by rw [← hκ]
  have hstateList : ∀ u, (s.on κ).stateList u = s.stateList u := by
    intro u
    rw [stateList_on, hκ_lists, hcontainer]
    rfl
  have hready : ∀ u, (s.on κ).Ready u ↔ s.Ready u := fun u => by
    rw [Ready, hstateList, kernel_on, hκ_priority, Ready]
  have hitems : ∀ k, (Function.update Z (.ready (s.kernel.uxPriority t)) T k).items =
      (Z k).items := by
    intro k
    by_cases hk : k = .ready (s.kernel.uxPriority t)
    · subst hk
      rw [Function.update_self, Turns.items_next hnext]
    · rw [Function.update_of_ne hk]
  have hmarked : ∀ k, (∀ p, k ≠ .ready p) →
      Function.update Z (.ready (s.kernel.uxPriority t)) T k = Z k :=
    fun k hk => Function.update_of_ne (hk _) _ _
  refine ⟨?_, fun k hk => ?_, ?_, fun k hk => ?_, fun e => ?_, fun k x hx => ?_, fun u _ => ?_,
    fun u _ hu => ?_, fun u _ hu => ?_, fun u _ hu => ?_, ?_, ?_, ?_, ?_, ?_, ?_⟩
  · rw [kernel_on, hκ_lists]
    exact hlists
  · rw [hmarked k hk]
    exact h.marks k hk
  · rw [← hκ]
    exact h.names
  · rw [hmarked k (by rcases hk with rfl | rfl <;> simp), kernel_on, hκ_lists, hvalue]
    exact h.sorted k hk
  · rw [hmarked _ (by simp)]
    refine (h.events e).imp fun {x y} hxy => ?_
    rw [Before, kernel_on, hκ_lists, hvalue]
    exact hxy
  · rw [hitems] at hx
    exact h.items k x hx
  · have hu : (s.on κ).TaskOk lo u := (h.tasks u id).congr (hstateList u)
      (fun k hk => by rw [eventList_on, hκ_lists, hcontainer] at hk; exact hk)
      (fun x _ => by rw [kernel_on, hκ_lists, hvalue]) (by rw [kernel_on, hκ_priority])
      (by rw [← hκ]; rfl) (by rw [← hκ]; rfl) rfl rfl id rfl le_rfl rfl
    refine { hu with since := fun hnot => ?_ }
    change s.selected t u = []
    rw [selected]
    split
    · rfl
    · split
      · next hin =>
        refine absurd ((hready u).mpr ?_) hnot
        rw [Ready, hin, h.eq_priority hin]
      · exact hu.since hnot
  · rw [kernel_on, hκ_lists, hvalue]
    have hu' := h.next u id
    rw [← hκ] at hu ⊢
    refine hu' ?_
    rw [stateList_on] at hu
    simp only [hcontainer, kernel_on] at hu
    exact hu
  · have hu := (hready u).mp hu
    change κ.uxPriority u ≤ κ.uxTopReadyPriority
    rw [hκ_priority, ← hκ]
    exact hhighest u hu
  · change TurnRun.Waiting _ ⟨Function.update Z _ T (.ready (κ.uxPriority u)), s.selected t u⟩
    rw [hκ_priority]
    exact h.waiting_selected hnext ((hready u).mp hu)
  · change (s.on κ).stateList idle = _ ∧ κ.uxPriority idle = 0
    rw [hstateList, hκ_priority]
    exact h.idle
  · rw [kernel_on, ← hκ]
    exact htop
  · right
    change (s.on κ).stateList κ.pxCurrentTCB ≠ none
    rw [hstateList, ← hκ, hstate]
    simp
  · rw [kernel_on, ← hκ]
    exact h.number
  · rw [kernel_on, ← hκ]
    exact h.tick
  · rw [kernel_on, ← hκ]
    exact h.overflows

/-- **`taskSELECT_HIGHEST_PRIORITY_TASK`**: a ready task is selected, and none has a higher
priority. -/
theorem Shape.select (h : Shape idle idleHands lo s Z) :
    ∃ t m Z', taskSelectHighestPriorityTask s.kernel = some { s.kernel with
        pxCurrentTCB := t, lists := m, uxTopReadyPriority := s.kernel.uxPriority t } ∧
      m.pxContainer = s.kernel.lists.pxContainer ∧ s.Ready t ∧
      (∀ u, s.Ready u → s.kernel.uxPriority u ≤ s.kernel.uxPriority t) ∧
      Shape idle idleHands lo ({ s with since := s.selected t }.on { s.kernel with
        pxCurrentTCB := t, lists := m, uxTopReadyPriority := s.kernel.uxPriority t }) Z' := by
  obtain ⟨t, m, T, hselect, hnext, hlists, hvalue, hcontainer, hready, hhighest, htop⟩ :=
    h.findHighest
  exact ⟨t, m, _, hselect, hcontainer, hready, hhighest,
    h.turn hnext hlists hvalue hcontainer hready hhighest htop⟩

end KernelSys

end Fr5080
