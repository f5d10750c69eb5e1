import Fr5080.Kernel.Blocking

/-!
# Fr5080.Kernel.Unblocking

How a task goes on that has been blocked or suspended, how one is suspended, and how a new one
comes in.  While the scheduler is suspended a task that an event releases is kept in
`xPendingReadyList`.
-/

namespace Fr5080

open Embedded

variable {τ ε : Type*} [DecidableEq τ] [DecidableEq ε]

namespace KernelSys

variable {s s' : KernelSys τ ε} {lo : Nat} {t u : τ} {k : TaskList ε} {idle : τ}
  {Z : TaskList ε → Turns (TaskItem τ)}

/-! ## unblocking -/

/-- The history of a task that does not wait for its tick any more. -/
def unwait (t : τ) (s : KernelSys τ ε) : KernelSys τ ε :=
  { s with waiting := Function.update s.waiting t false }

omit [DecidableEq ε] in
/-- A task that does not wait any more is taken in hand. -/
theorem Shape.unwait (h : Shape idle idleHands lo s Z) (t : τ) :
    Shape idle (· = t) lo (s.unwait t) Z :=
  (h.hold t).history rfl rfl le_rfl
    (fun _ hu => ⟨rfl, Function.update_of_ne hu _ _, rfl, rfl⟩) (Or.inl rfl)

omit [DecidableEq τ] [DecidableEq ε] in
/-- A task of no higher priority becomes ready. -/
theorem Highest.of_ready (hs : s.Highest) (hpriority : s'.kernel.uxPriority = s.kernel.uxPriority)
    (hcurrent : s'.kernel.pxCurrentTCB = s.kernel.pxCurrentTCB)
    (hready : ∀ u, s'.Ready u → u = t ∨ s.Ready u)
    (hlow : s.kernel.uxPriority t ≤ s.kernel.uxPriority s.kernel.pxCurrentTCB) : s'.Highest := by
  intro u hu
  rw [hpriority, hcurrent]
  obtain rfl | hu := hready u hu
  · exact hlow
  · exact hs u hu

/-- The task in hand, which is in no event list, is taken out of the list of its state and becomes
ready. -/
theorem Shape.makeReady (h : Shape idle (· = t) lo s Z) (hidle : t ≠ idle)
    (hstate : s.stateList t = some k) (hevent : s.eventList t = none)
    (hpriority : s.kernel.uxPriority t < configMaxPriorities ∧
      s.kernel.lists.xItemValue (.event t) =
        UInt32.ofNat (configMaxPriorities - s.kernel.uxPriority t))
    (hwaits : s.waiting t → s.wake t ≤ s.ticks) (hsince : s.since t = []) :
    ∃ m Z', taskListRemove (.state t) s.kernel = some { s.kernel with lists := m } ∧
      Shape idle idleHands lo (s.on (prvAddTaskToReadyList t { s.kernel with lists := m })) Z' ∧
      (∀ u, m.pxContainer (.event u) = s.kernel.lists.pxContainer (.event u)) ∧
      ∀ u, (s.on (prvAddTaskToReadyList t { s.kernel with lists := m })).Ready u →
        u = t ∨ s.Ready u := by
  obtain ⟨m, hremove, hvalue, hcontainer, h₁⟩ := h.remove hstate rfl
    fun heq => hidle (TaskItem.state.inj heq)
  have h₂ := h₁.addReady hidle
    (by rw [stateList_on, hcontainer, Function.update_self])
    (by rw [eventList_on, hcontainer, Function.update_of_ne (by simp)]; exact hevent)
    (by simpa only [kernel_on, hvalue] using hpriority) hwaits hsince
  refine ⟨m, _, hremove, h₂, fun u => ?_, fun u hu => ?_⟩
  · rw [hcontainer, Function.update_of_ne (by simp)]
  · by_cases hut : u = t
    · exact Or.inl hut
    · right
      rw [Ready, stateList_on, pxContainer_prvAddTaskToReadyList,
        Function.update_of_ne (by simpa using hut)] at hu
      simp only [hcontainer] at hu
      rw [Function.update_of_ne (by simpa using hut)] at hu
      exact hu

/-- The event item of the task in hand, which is in no list, comes into the list of those that
become ready when the scheduler is resumed. -/
theorem Shape.makePending (h : Shape idle (· = t) lo s Z) (hok : s.TaskOk lo t)
    (hevent : s.eventList t = none) (hnot : ¬ s.Ready t) (hsome : s.stateList t ≠ none)
    (hwaiting : s.waiting t = false)
    (hnext : s.stateList t = some s.kernel.pxDelayedTaskList →
      s.kernel.xNextTaskUnblockTime ≤ s.kernel.lists.xItemValue (.state t)) :
    ∃ Z', Shape idle idleHands lo (s.on { s.kernel with
        lists := vListInsertEnd .pendingReady (.event t) s.kernel.lists }) Z' := by
  have h₁ := h.insertEnd (k := .pendingReady) hevent (rfl : t = t) (by simp) (by simp)
    (by simp [HoldsEvents])
  generalize hκ : { s.kernel with
    lists := vListInsertEnd .pendingReady (.event t) s.kernel.lists } = κ at h₁ ⊢
  have hstate : (s.on κ).stateList t = s.stateList t := by
    rw [stateList_on, ← hκ, pxContainer_vListInsertEnd, Function.update_of_ne (by simp)]
    rfl
  have hpending : (s.on κ).eventList t = some .pendingReady := by
    rw [eventList_on, ← hκ, pxContainer_vListInsertEnd, Function.update_self]
  have hnot₁ : ¬ (s.on κ).Ready t := by
    rwa [Ready, hstate, ← hκ]
  refine ⟨_, h₁.settle ⟨?_, fun k hk => ?_, fun e he => ?_, ?_, ?_, ?_, fun hw => ?_,
    fun _ => hwaiting, fun _ => hok.since hnot⟩ ?_ (fun hr => absurd hr hnot₁)
    (fun hr => absurd hr hnot₁) ?_⟩
  · rw [hstate, ← hκ]
    exact hok.state
  · rw [hpending, Option.some_inj] at hk
    exact ⟨Or.inl hk.symm, hnot₁, by rwa [hstate]⟩
  · rw [hpending] at he
    simp at he
  · rw [hstate, ← hκ]
    exact hok.priority
  · rw [hstate, ← hκ]
    exact hok.delayed
  · rw [hstate, ← hκ]
    exact hok.overflow
  · exact absurd hw (by simpa [on] using hwaiting)
  · rw [hstate, ← hκ]
    exact hnext
  · rwa [hstate]

/-- A task is taken out of the list of what it waits for, and is in hand then. -/
theorem Shape.takeEvent (h : Shape idle idleHands lo s Z) (hevent : s.eventList t = some k) :
    ∃ m Z', taskListRemove (.event t) s.kernel = some { s.kernel with lists := m } ∧
      m.xItemValue = s.kernel.lists.xItemValue ∧
      m.pxContainer = Function.update s.kernel.lists.pxContainer (.event t) none ∧
      Shape idle (· = t) lo ((s.unwait t).on { s.kernel with lists := m }) Z' ∧
      (k = .pendingReady → (Z' k).items = (Z k).items.erase (.event t)) := by
  obtain ⟨m, hremove, hvalue, hcontainer, h₁⟩ :=
    Shape.remove (h.unwait t) (x := .event t) hevent rfl (by simp)
  refine ⟨m, _, hremove, hvalue, hcontainer, h₁, fun hk => ?_⟩
  rw [Function.update_self, Turns.items_drop (h.lists.nodup k)]

/-- And becomes ready. -/
theorem Shape.releaseEvent (h : Shape idle idleHands lo s Z) (hevent : s.eventList t = some k) :
    ∃ m₁ m₂ Z', taskListRemove (.event t) s.kernel = some { s.kernel with lists := m₁ } ∧
      taskListRemove (.state t) { s.kernel with lists := m₁ } =
        some { s.kernel with lists := m₂ } ∧
      Shape idle idleHands lo
        ((s.unwait t).on (prvAddTaskToReadyList t { s.kernel with lists := m₂ })) Z' ∧
      m₂.pxContainer = Function.update (Function.update s.kernel.lists.pxContainer (.event t) none)
        (.state t) none ∧
      (k = .pendingReady → (Z' k).items = (Z k).items.erase (.event t)) := by
  obtain ⟨-, hnot, hsome⟩ := (h.tasks t id).event k hevent
  obtain ⟨k', hstate⟩ := Option.ne_none_iff_exists'.mp hsome
  obtain ⟨hidle, hsince, hpriority⟩ := h.of_not_ready hnot hsome
  obtain ⟨m₁, Z₁, hremove₁, hvalue₁, hcontainer₁, h₁, hitems⟩ := h.takeEvent hevent
  have hstate₁ : m₁.pxContainer (.state t) = some k' := by
    rw [hcontainer₁, Function.update_of_ne (by simp)]
    exact hstate
  obtain ⟨m₂, hremove₂, hvalue₂, hcontainer₂, h₂⟩ := h₁.remove hstate₁ rfl
    fun heq => hidle (TaskItem.state.inj heq)
  simp only [kernel_on] at hremove₂ hvalue₂ hcontainer₂ h₂
  have h₃ := h₂.addReady hidle
    (by rw [stateList_on, hcontainer₂, Function.update_self])
    (by rw [eventList_on, hcontainer₂, Function.update_of_ne (by simp), hcontainer₁,
      Function.update_self])
    (by
      simp only [kernel_on, hvalue₂, hvalue₁]
      exact hpriority)
    (fun hw => absurd hw (by simp [on, KernelSys.unwait])) hsince
  refine ⟨m₁, m₂, _, hremove₁, hremove₂, h₃, by rw [hcontainer₂, hcontainer₁], fun hk => ?_⟩
  subst hk
  have hk' : k' ≠ .pendingReady := by
    rintro rfl
    have hholds := (h.items _ _ ((h.lists.container _ _).mp hstate)).mpr (Or.inl rfl)
    simp at hholds
  rw [Function.update_of_ne (by simp), Function.update_of_ne hk'.symm, hitems rfl]

omit [DecidableEq ε] in
/-- Where tasks wait for an event, the first of them is of the highest priority and has come first
of these. -/
theorem Shape.eventHead (h : Shape idle idleHands lo s Z) {e : ε}
    (he : listIsEmpty (.event e) s.kernel.lists = false) :
    ∃ t, listGetHeadEntry (.event e) s.kernel.lists = some (.event t) ∧
      s.eventList t = some (.event e) ∧
      ∀ u, s.eventList u = some (.event e) → u = t ∨ s.Before (.event t) (.event u) := by
  have hhead := h.lists.headEntry (k := .event e)
  have hsorted := h.events e
  rw [← Bool.not_eq_true, h.lists.isEmpty] at he
  obtain ⟨x, l, hitems⟩ := List.exists_cons_of_ne_nil he
  rw [hitems] at hhead hsorted
  have hx : x ∈ (Z (.event e)).items := by
    rw [hitems]
    exact List.mem_cons_self
  obtain ⟨t, rfl⟩ := (h.items _ _ hx).mpr (Or.inr ⟨e, rfl⟩)
  refine ⟨t, hhead, (h.lists.container _ _).mpr hx, fun u hu => ?_⟩
  have hmem := (h.lists.container _ _).mp hu
  rw [hitems] at hmem
  obtain heq | hmem := List.mem_cons.mp hmem
  · exact Or.inl (TaskItem.event.inj heq)
  · exact Or.inr ((List.pairwise_cons.mp hsorted).1 _ hmem)

/-- While the scheduler is suspended, a task that is released goes into the list of pending
tasks. -/
theorem Shape.putOff (h : Shape idle idleHands lo s Z) (hevent : s.eventList t = some k) :
    ∃ m Z', taskListRemove (.event t) s.kernel = some { s.kernel with lists := m } ∧
      Shape idle idleHands lo ((s.unwait t).on { s.kernel with
        lists := vListInsertEnd .pendingReady (.event t) m }) Z' ∧
      (∀ u, m.pxContainer (.state u) = s.kernel.lists.pxContainer (.state u)) ∧
      ∀ u, u ≠ t → m.pxContainer (.event u) = s.kernel.lists.pxContainer (.event u) := by
  obtain ⟨-, hnot, hsome⟩ := (h.tasks t id).event _ hevent
  obtain ⟨m, Z₁, hremove, hvalue, hcontainer, h₁, -⟩ := h.takeEvent hevent
  have hstates : ∀ u, m.pxContainer (.state u) = s.kernel.lists.pxContainer (.state u) := by
    intro u
    rw [hcontainer, Function.update_of_ne (by simp)]
  have hnone : m.pxContainer (.event t) = none := by rw [hcontainer, Function.update_self]
  have hok : ((s.unwait t).on { s.kernel with lists := m }).TaskOk lo t :=
    (h.tasks t id).congr (hstates t) (fun k hk => absurd (hnone.symm.trans hk) (by simp))
      (fun x _ => congrFun hvalue x) rfl rfl rfl rfl rfl
      (fun hw => absurd hw (by simp [on, KernelSys.unwait])) rfl le_rfl rfl
  have hnot₁ : ¬ ((s.unwait t).on { s.kernel with lists := m }).Ready t := by
    rw [Ready, stateList_on]
    dsimp only
    rw [hstates]
    exact hnot
  obtain ⟨Z', hshape⟩ := h₁.makePending hok hnone hnot₁
    (fun hn => hsome ((hstates t).symm.trans hn)) (Function.update_self ..) fun hd => by
      rw [kernel_on]
      dsimp only
      rw [hvalue]
      exact h.next t id ((hstates t).symm.trans hd)
  refine ⟨m, Z', hremove, hshape, hstates, fun u hu => ?_⟩
  rw [hcontainer, Function.update_of_ne (by simpa using hu)]

/-- The task has left what it waited for: it is ready, or in the list of those that become ready
when the scheduler is resumed.  All other tasks wait as before. -/
structure Released (t : τ) (s s' : KernelSys τ ε) : Prop where
  now : s.kernel.uxSchedulerSuspended = 0 → s'.Ready t ∧ s'.eventList t = none
  later : s.kernel.uxSchedulerSuspended ≠ 0 → s'.eventList t = some .pendingReady
  others : ∀ u, u ≠ t → s'.eventList u = s.eventList u

/-- A task that is released from an event list becomes ready, or will when the scheduler is
resumed. -/
theorem Shape.release (h : Shape idle idleHands lo s Z) (hevent : s.eventList t = some k) :
    ∃ κ Z', ((taskListRemove (.event t) s.kernel).bind fun s =>
        if s.uxSchedulerSuspended = 0 then
          (taskListRemove (.state t) s).map (prvAddTaskToReadyList t)
        else some { s with lists := vListInsertEnd .pendingReady (.event t) s.lists }) = some κ ∧
      Shape idle idleHands lo ((s.unwait t).on κ) Z' ∧ Keeps s.kernel κ ∧
      κ.xYieldPending = s.kernel.xYieldPending ∧
      Released t s ((s.unwait t).on κ) ∧
      ∀ u, ((s.unwait t).on κ).Ready u → s.Ready u ∨ u = t ∧ s.kernel.uxSchedulerSuspended = 0 := by
  by_cases hrunning : s.kernel.uxSchedulerSuspended = 0
  · obtain ⟨m₁, m₂, Z', hremove₁, hremove₂, hshape, hcontainer, -⟩ := h.releaseEvent hevent
    have hevents : ∀ u, (prvAddTaskToReadyList t { s.kernel with lists := m₂ }).lists.pxContainer
        (.event u) = Function.update s.kernel.lists.pxContainer (.event t) none (.event u) := by
      intro u
      rw [pxContainer_prvAddTaskToReadyList, Function.update_of_ne (by simp)]
      simp only [hcontainer]
      rw [Function.update_of_ne (by simp)]
    refine ⟨_, Z', ?_, hshape, ⟨rfl, rfl, rfl, rfl, fun _ u => ?_⟩, rfl,
      ⟨fun _ => ⟨?_, (hevents t).trans (Function.update_self ..)⟩, fun hsus => absurd hrunning hsus,
        fun u hu => (hevents u).trans (Function.update_of_ne (by simpa using hu) _ _)⟩,
      fun u hu => ?_⟩
    · rw [hremove₁, Option.bind_some, if_pos hrunning, hremove₂]
      rfl
    · rw [hevents]
      by_cases hut : u = t
      · subst hut
        exact Or.inr (Function.update_self ..)
      · exact Or.inl (Function.update_of_ne (by simpa using hut) _ _)
    · rw [Ready, stateList_on, pxContainer_prvAddTaskToReadyList, Function.update_self]
      rfl
    · by_cases hut : u = t
      · exact Or.inr ⟨hut, hrunning⟩
      · left
        rw [Ready, stateList_on, pxContainer_prvAddTaskToReadyList,
          Function.update_of_ne (by simpa using hut)] at hu
        simp only [hcontainer] at hu
        rw [Function.update_of_ne (by simpa using hut), Function.update_of_ne (by simp)] at hu
        exact hu
  · obtain ⟨m, Z', hremove, hshape, hstates, hevents⟩ := h.putOff hevent
    refine ⟨_, Z', ?_, hshape, ⟨rfl, rfl, rfl, rfl, fun hrun => absurd hrun hrunning⟩, rfl,
      ⟨fun hrun => absurd hrun hrunning, fun _ => Function.update_self .., fun u hu => ?_⟩,
      fun u hu => Or.inl ?_⟩
    · rw [hremove, Option.bind_some, if_neg hrunning]
    · rw [eventList_on]
      dsimp only
      rw [pxContainer_vListInsertEnd, Function.update_of_ne (by simpa using hu)]
      exact hevents u hu
    · rw [Ready, stateList_on] at hu
      simp only [kernel_on] at hu
      rw [pxContainer_vListInsertEnd, Function.update_of_ne (by simp), hstates] at hu
      exact hu

/-- **`xTaskRemoveFromEventList`**: the first task of the list goes on, or will when the scheduler
is resumed. -/
theorem Shape.removeFromEventList (h : Shape idle idleHands lo s Z) {e : ε}
    (he : listIsEmpty (.event e) s.kernel.lists = false) :
    ∃ t κ Z', listGetHeadEntry (.event e) s.kernel.lists = some (.event t) ∧
      s.eventList t = some (.event e) ∧
      (∀ u, s.eventList u = some (.event e) → u = t ∨ s.Before (.event t) (.event u)) ∧
      xTaskRemoveFromEventList e s.kernel = some (κ,
        decide (s.kernel.uxPriority t > s.kernel.uxPriority s.kernel.pxCurrentTCB)) ∧
      Shape idle idleHands lo ((s.unwait t).on κ) Z' ∧ Keeps s.kernel κ ∧
      (s.kernel.xYieldPending = true → κ.xYieldPending = true) ∧
      Released t s ((s.unwait t).on κ) ∧
      ∀ u, ((s.unwait t).on κ).Ready u → s.Ready u ∨ u = t ∧ s.kernel.uxSchedulerSuspended = 0 := by
  obtain ⟨t, hhead, hevent, hfirst⟩ := h.eventHead he
  obtain ⟨κ, Z', hrelease, hshape, hkeeps, hyield, hreleased, hready⟩ := h.release hevent
  have hfunction : xTaskRemoveFromEventList e s.kernel = some
      (if κ.uxPriority t > κ.uxPriority κ.pxCurrentTCB then ({ κ with xYieldPending := true }, true)
        else (κ, false)) := by
    obtain ⟨κ₁, hremove, hrest⟩ := Option.bind_eq_some_iff.mp hrelease
    rw [xTaskRemoveFromEventList, hhead, Option.bind_some]
    dsimp only [TaskItem.pvOwner]
    rw [hremove, Option.bind_some, hrest]
    rfl
  split at hfunction
  · next hgt =>
    rw [hkeeps.priority, hkeeps.current] at hgt
    exact ⟨t, { κ with xYieldPending := true }, Z', hhead, hevent, hfirst,
      hfunction.trans (congrArg (fun b => some (_, b)) (decide_eq_true hgt).symm),
      hshape.vars rfl rfl rfl rfl rfl rfl rfl rfl (fun u hu => hshape.next u hu) le_rfl hshape.top,
      ⟨hkeeps.priority, hkeeps.current, hkeeps.suspended, hkeeps.pended, hkeeps.events⟩,
      fun _ => rfl, ⟨hreleased.now, hreleased.later, hreleased.others⟩, hready⟩
  · next hgt =>
    rw [hkeeps.priority, hkeeps.current] at hgt
    exact ⟨t, κ, Z', hhead, hevent, hfirst,
      hfunction.trans (congrArg (fun b => some (_, b)) (decide_eq_false hgt).symm), hshape, hkeeps,
      fun hy => hyield.trans hy, hreleased, hready⟩

/-! ## suspension -/

/-- The history of a task that is suspended. -/
def rests (t : τ) (s : KernelSys τ ε) : KernelSys τ ε :=
  { s with
    waiting := Function.update s.waiting t false
    since := Function.update s.since t [] }

/-- **`vTaskSuspend`**, its first critical section. -/
theorem Shape.suspend (h : Shape idle idleHands lo s Z) (hsome : s.stateList t ≠ none)
    (hidle : t ≠ idle) :
    ∃ κ Z', vTaskSuspend t s.kernel = some κ ∧
      Shape idle idleHands lo ((s.rests t).on κ) Z' ∧ Keeps s.kernel κ ∧
      κ.xYieldPending = s.kernel.xYieldPending ∧ ∀ u, ((s.rests t).on κ).Ready u → s.Ready u := by
  have hne : TaskItem.state t ≠ .state idle := fun heq => hidle (TaskItem.state.inj heq)
  obtain ⟨k, hstate⟩ := Option.ne_none_iff_exists'.mp hsome
  have hpriority := (h.tasks t id).priority hsome
  have h₁ : Shape idle (· = t) lo (s.rests t) Z := (h.hold t).history rfl rfl le_rfl
    (fun u hu => ⟨rfl, Function.update_of_ne hu _ _, rfl, Function.update_of_ne hu _ _⟩)
    (Or.inl rfl)
  obtain ⟨m₁, hremove₁, hvalue₁, hcontainer₁, h₂⟩ := Shape.remove h₁ (x := .state t) hstate rfl hne
  obtain ⟨m₂, Z₂, hremove₂, hvalue₂, hcontainer₂, -, h₃⟩ := Shape.eventRemove h₂
  simp only [kernel_on] at hremove₂ hvalue₂ hcontainer₂ h₃
  have hnone : m₂.pxContainer (.state t) = none := by
    rw [hcontainer₂, Function.update_of_ne (by simp), hcontainer₁, Function.update_self]
  have h₄ := h₃.insertEnd (k := .suspended) hnone rfl hne (by simp) (by simp [HoldsEvents])
  generalize hκ : { s.kernel with lists := vListInsertEnd .suspended (.state t) m₂ } = κ
  have hlist : κ.lists.pxContainer = Function.update (Function.update (Function.update
      s.kernel.lists.pxContainer (.state t) none) (.event t) none) (.state t)
        (some .suspended) := by
    rw [← hκ]
    dsimp only
    rw [pxContainer_vListInsertEnd, hcontainer₂, hcontainer₁]
    rfl
  obtain ⟨Z₄, h₄⟩ : ∃ Z₄, Shape idle (· = t) lo ((s.rests t).on κ) Z₄ := by
    rw [← hκ]
    exact ⟨_, h₄⟩
  have hevent : ((s.rests t).on κ).eventList t = none := by
    rw [eventList_on, hlist, Function.update_of_ne (by simp), Function.update_self]
  have h₅ : Shape idle idleHands lo ((s.rests t).on κ) _ := h₄.settleSuspended
    (by rw [stateList_on, hlist, Function.update_self])
    (fun k hk => absurd (hevent.symm.trans hk) (by simp))
    (fun e he => absurd (hevent.symm.trans he) (by simp))
    (by
      rw [kernel_on, ← hκ]
      simp only [xItemValue_vListInsertEnd, hvalue₂, hvalue₁]
      exact hpriority)
    (Function.update_self ..) (Function.update_self ..)
  refine ⟨κ, _, ?_, h₅, ?_, by rw [← hκ], fun u hu => ?_⟩
  · have hremove₁ : taskListRemove (.state t) s.kernel = some { s.kernel with lists := m₁ } :=
      hremove₁
    have hremove₂ : taskEventRemove t { s.kernel with lists := m₁ } =
        some { s.kernel with lists := m₂ } := hremove₂
    rw [vTaskSuspend, hremove₁, Option.bind_some, hremove₂, ← hκ]
    rfl
  · rw [← hκ]
    refine ⟨rfl, rfl, rfl, rfl, fun _ u => ?_⟩
    have hu := congrFun hlist (.event u)
    rw [← hκ, Function.update_of_ne (by simp)] at hu
    by_cases hut : u = t
    · subst hut
      rw [Function.update_self] at hu
      exact Or.inr hu
    · rw [Function.update_of_ne (by simpa using hut), Function.update_of_ne (by simp)] at hu
      exact Or.inl hu
  · rw [Ready, stateList_on, hlist] at hu
    by_cases hut : u = t
    · rw [hut, Function.update_self] at hu
      simp at hu
    · rw [Function.update_of_ne (by simpa using hut), Function.update_of_ne (by simp),
        Function.update_of_ne (by simpa using hut), kernel_on, ← hκ] at hu
      exact hu

/-- A task that is suspended becomes ready. -/
theorem Shape.resumeReady (h : Shape idle idleHands lo s Z)
    (hsuspended : prvTaskIsTaskSuspended t s.kernel = true) :
    ∃ m Z', taskListRemove (.state t) s.kernel = some { s.kernel with lists := m } ∧
      Shape idle idleHands lo (s.on (prvAddTaskToReadyList t { s.kernel with lists := m })) Z' ∧
      (∀ u, m.pxContainer (.event u) = s.kernel.lists.pxContainer (.event u)) ∧
      ∀ u, (s.on (prvAddTaskToReadyList t { s.kernel with lists := m })).Ready u →
        u = t ∨ s.Ready u := by
  obtain ⟨hstate, hevent⟩ : s.stateList t = some .suspended ∧ s.eventList t = none := by
    simpa [prvTaskIsTaskSuspended, stateList, eventList] using hsuspended
  have hnot : ¬ s.Ready t := by
    rw [Ready, hstate]
    simp
  obtain ⟨hidle, hsince, hpriority⟩ := h.of_not_ready hnot (by simp [hstate])
  refine (h.hold t).makeReady hidle hstate hevent hpriority (fun hw => ?_) hsince
  obtain hd | ho | hr := (h.tasks t id).waits hw
  · exact absurd (Option.some.inj (hd.symm.trans hstate)) h.delayed_ne.2.1
  · exact absurd (Option.some.inj (ho.symm.trans hstate)) h.delayed_ne.2.2.1
  · exact absurd hr.1 hnot

/-- **`vTaskResume`**. -/
theorem Shape.resume (h : Shape idle idleHands lo s Z) (t : τ) :
    ∃ κ b Z', vTaskResume t s.kernel = some (κ, b) ∧ Shape idle idleHands lo (s.on κ) Z' ∧
      Keeps s.kernel κ ∧ κ.xYieldPending = s.kernel.xYieldPending ∧
      (b = false → s.Highest → (s.on κ).Highest) := by
  by_cases htaken : t ≠ s.kernel.pxCurrentTCB ∧ prvTaskIsTaskSuspended t s.kernel = true
  · obtain ⟨m, Z', hremove, hshape, hevents, hready⟩ := h.resumeReady htaken.2
    refine ⟨_, _, Z', by rw [vTaskResume, if_pos htaken, hremove]; rfl, hshape,
      ⟨rfl, rfl, rfl, rfl, fun _ u => Or.inl (hevents u)⟩, rfl, fun hb hs => ?_⟩
    exact hs.of_ready rfl rfl hready (Nat.le_of_lt (Nat.not_le.mp (of_decide_eq_false hb)))
  · exact ⟨s.kernel, false, Z, by rw [vTaskResume, if_neg htaken], h,
      ⟨rfl, rfl, rfl, rfl, fun _ _ => Or.inl rfl⟩, rfl, fun _ => id⟩

/-- **`xTaskResumeFromISR`**. -/
theorem Shape.resumeFromISR (h : Shape idle idleHands lo s Z) (t : τ) :
    ∃ κ b Z', xTaskResumeFromISR t s.kernel = some (κ, b) ∧ Shape idle idleHands lo (s.on κ) Z' ∧
      Keeps s.kernel κ ∧ (s.kernel.xYieldPending = true → κ.xYieldPending = true) ∧
      (b = false → s.Highest → (s.on κ).Highest) := by
  by_cases hsuspended : prvTaskIsTaskSuspended t s.kernel = true
  · by_cases hrunning : s.kernel.uxSchedulerSuspended = 0
    · have hyield : Shape idle idleHands lo (s.on (if decide (s.kernel.uxPriority t ≥
          s.kernel.uxPriority s.kernel.pxCurrentTCB) = true then
            { s.kernel with xYieldPending := true } else s.kernel)) Z := by
        split
        · exact h.vars rfl rfl rfl rfl rfl rfl rfl rfl (fun u hu => h.next u hu) le_rfl h.top
        · exact h
      generalize hκ : (if decide (s.kernel.uxPriority t ≥
        s.kernel.uxPriority s.kernel.pxCurrentTCB) = true then
          { s.kernel with xYieldPending := true } else s.kernel) = κ at hyield
      have hsame : κ.lists = s.kernel.lists ∧ κ.uxPriority = s.kernel.uxPriority ∧
          κ.pxCurrentTCB = s.kernel.pxCurrentTCB ∧
          κ.uxSchedulerSuspended = s.kernel.uxSchedulerSuspended ∧
          κ.xPendedTicks = s.kernel.xPendedTicks ∧
          (s.kernel.xYieldPending = true → κ.xYieldPending = true) := by
        rw [← hκ]
        split
        · exact ⟨rfl, rfl, rfl, rfl, rfl, fun _ => rfl⟩
        · exact ⟨rfl, rfl, rfl, rfl, rfl, id⟩
      obtain ⟨hlists, hpriority, hcurrent, hsus, hpended, hy⟩ := hsame
      obtain ⟨m, Z', hremove, hshape, hevents, hready⟩ := hyield.resumeReady (t := t) (by
        rwa [prvTaskIsTaskSuspended, kernel_on, hlists])
      have hresume : xTaskResumeFromISR t s.kernel = some
          (prvAddTaskToReadyList t { κ with lists := m },
            decide (s.kernel.uxPriority t ≥ s.kernel.uxPriority s.kernel.pxCurrentTCB)) := by
        rw [xTaskResumeFromISR, if_pos hsuspended, if_pos hrunning]
        dsimp only
        rw [hκ]
        exact congrArg (Option.map _) hremove
      refine ⟨_, _, Z', hresume, hshape, ⟨hpriority, hcurrent, hsus, hpended,
        fun _ u => Or.inl ?_⟩, hy, fun hb hs => ?_⟩
      · exact (hevents u).trans (by rw [kernel_on, hlists])
      · refine hs.of_ready (t := t) hpriority hcurrent (fun u hu => ?_)
          (Nat.le_of_lt (Nat.not_le.mp (of_decide_eq_false hb)))
        refine (hready u hu).imp_right fun hu => ?_
        rwa [Ready, stateList_on, kernel_on, hlists, hpriority] at hu
    · obtain ⟨hstate, hevent⟩ : s.stateList t = some .suspended ∧ s.eventList t = none := by
        simpa [prvTaskIsTaskSuspended, stateList, eventList] using hsuspended
      have hnot : ¬ s.Ready t := by
        rw [Ready, hstate]
        simp
      have hwaiting : s.waiting t = false := by
        by_contra hw
        obtain hd | ho | hr := (h.tasks t id).waits (by simpa using hw)
        · exact absurd (Option.some.inj (hd.symm.trans hstate)) h.delayed_ne.2.1
        · exact absurd (Option.some.inj (ho.symm.trans hstate)) h.delayed_ne.2.2.1
        · exact hnot hr.1
      obtain ⟨Z', hshape⟩ := (h.hold t).makePending (h.tasks t id) hevent hnot (by simp [hstate])
        hwaiting (h.next t id)
      refine ⟨_, false, Z', by rw [xTaskResumeFromISR, if_pos hsuspended, if_neg hrunning], hshape,
        ⟨rfl, rfl, rfl, rfl, fun hrun => absurd hrun hrunning⟩, id, fun _ hs u hu => hs u ?_⟩
      rw [Ready, stateList_on] at hu
      simp only [kernel_on] at hu
      rw [pxContainer_vListInsertEnd, Function.update_of_ne (by simp)] at hu
      exact hu
  · exact ⟨s.kernel, false, Z, by rw [xTaskResumeFromISR, if_neg hsuspended], h,
      ⟨rfl, rfl, rfl, rfl, fun _ _ => Or.inl rfl⟩, id, fun _ => id⟩

/-! ## delays that are aborted, and new tasks -/

omit [DecidableEq ε] in
/-- The number of tasks. -/
theorem Shape.addNumber {busy : τ → Prop} (h : Shape idle busy lo s Z) {n : Nat} (hn : 0 < n) :
    Shape idle busy lo (s.on { s.kernel with uxCurrentNumberOfTasks := n }) Z := by
  refine ⟨h.lists, h.marks, h.names, h.sorted, h.events, h.items, fun t ht => ?_, h.next, h.ready,
    h.turns, h.idle, h.top, h.current, hn, h.tick, h.overflows⟩
  exact (h.tasks t ht).congr rfl (fun _ => id) (fun _ _ => rfl) rfl rfl rfl rfl rfl id rfl le_rfl
    rfl

/-- A task whose delay is aborted is told so if it waits for an event too. -/
theorem Shape.abortEvent (h : Shape idle (· = t) lo s Z) :
    ∃ a m Z', (if s.kernel.lists.pxContainer (.event t) = none then some s.kernel
        else (taskListRemove (.event t) s.kernel).map fun κ =>
          { κ with ucDelayAborted := Function.update κ.ucDelayAborted t true }) =
        some { s.kernel with ucDelayAborted := a, lists := m } ∧
      m.xItemValue = s.kernel.lists.xItemValue ∧
      m.pxContainer = Function.update s.kernel.lists.pxContainer (.event t) none ∧
      Shape idle (· = t) lo (s.on { s.kernel with ucDelayAborted := a, lists := m }) Z' := by
  by_cases hnone : s.kernel.lists.pxContainer (.event t) = none
  · exact ⟨s.kernel.ucDelayAborted, s.kernel.lists, Z, if_pos hnone, rfl,
      by rw [← hnone, Function.update_eq_self], h⟩
  · obtain ⟨e, he⟩ := Option.ne_none_iff_exists'.mp hnone
    obtain ⟨m, hremove, hvalue, hcontainer, hshape⟩ := h.remove he rfl (by simp)
    exact ⟨Function.update s.kernel.ucDelayAborted t true, m, _,
      (if_neg hnone).trans (congrArg (Option.map _) hremove), hvalue, hcontainer,
      hshape.vars rfl rfl rfl rfl rfl rfl rfl rfl (fun u hu => hshape.next u hu) le_rfl h.top⟩

/-- **`xTaskAbortDelay`**, between the suspension of the scheduler and its end. -/
theorem Shape.abortDelay (h : Shape idle idleHands lo s Z) (t : τ) :
    ∃ κ Z', taskAbortDelay t s.kernel = some κ ∧
      Shape idle idleHands lo ((if taskIsBlocked t s.kernel then s.unwait t else s).on κ) Z' ∧
      Keeps s.kernel κ ∧ (s.kernel.xYieldPending = true → κ.xYieldPending = true) ∧
      (κ.xYieldPending = false → s.Highest → (s.on κ).Highest) := by
  by_cases hblocked : taskIsBlocked t s.kernel = true
  · obtain ⟨k, hstate, hk⟩ : ∃ k, s.stateList t = some k ∧ ∀ p, k ≠ .ready p := by
      have hcases := (decide_eq_true_iff.mp hblocked).2
      obtain hd | ho | ⟨hsus, -⟩ := hcases
      · exact ⟨_, hd, fun p => (h.delayed_ne.1 p).1⟩
      · exact ⟨_, ho, fun p => (h.delayed_ne.1 p).2⟩
      · exact ⟨_, hsus, by simp⟩
    have hnot : ¬ s.Ready t := by
      rw [Ready, hstate, Option.some_inj]
      exact hk _
    obtain ⟨hidle, hsince, hpriority⟩ := h.of_not_ready hnot (by simp [hstate])
    obtain ⟨m₁, hremove₁, hvalue₁, hcontainer₁, h₁⟩ := Shape.remove (h.unwait t) (x := .state t)
      hstate rfl fun heq => hidle (TaskItem.state.inj heq)
    have hremove₁ : taskListRemove (.state t) s.kernel = some { s.kernel with lists := m₁ } :=
      hremove₁
    -- the event item, and what the task is told
    obtain ⟨a, m₂, Z₂, hremove₂, hvalue₂, hcontainer₂, h₂⟩ := Shape.abortEvent
      (s := (s.unwait t).on { s.kernel with lists := m₁ }) h₁
    have h₂ : Shape idle (· = t) lo
        ((s.unwait t).on { s.kernel with ucDelayAborted := a, lists := m₂ }) Z₂ := h₂
    simp only [kernel_on] at hremove₂ hvalue₂ hcontainer₂
    have hstate₂ : ∀ u, m₂.pxContainer (.state u) =
        if u = t then none else s.kernel.lists.pxContainer (.state u) := by
      intro u
      rw [hcontainer₂, Function.update_of_ne (by simp), hcontainer₁]
      split
      · next hut => rw [hut, Function.update_self]
      · next hut =>
        rw [Function.update_of_ne (by simpa using hut)]
        rfl
    have h₃ := h₂.addReady hidle ((hstate₂ t).trans (if_pos rfl))
      (by rw [eventList_on, hcontainer₂, Function.update_self])
      (by
        simp only [kernel_on, hvalue₂, hvalue₁]
        exact hpriority)
      (fun hw => absurd hw (by simp [on, KernelSys.unwait])) hsince
    simp only [kernel_on] at h₃
    generalize hκ : prvAddTaskToReadyList t { s.kernel with ucDelayAborted := a, lists := m₂ } = κ
      at h₃
    have hkeeps : Keeps s.kernel κ := by
      rw [← hκ]
      refine ⟨rfl, rfl, rfl, rfl, fun _ u => ?_⟩
      rw [pxContainer_prvAddTaskToReadyList, Function.update_of_ne (by simp)]
      simp only [hcontainer₂]
      by_cases hut : u = t
      · subst hut
        exact Or.inr (Function.update_self ..)
      · left
        rw [Function.update_of_ne (by simpa using hut), hcontainer₁,
          Function.update_of_ne (by simp)]
        rfl
    have hready : ∀ u, (s.on κ).Ready u → u = t ∨ s.Ready u := by
      intro u hu
      by_cases hut : u = t
      · exact Or.inl hut
      · right
        rw [Ready, stateList_on, ← hκ, pxContainer_prvAddTaskToReadyList,
          Function.update_of_ne (by simpa using hut)] at hu
        simp only [hstate₂, if_neg hut] at hu
        exact hu
    have habort : taskAbortDelay t s.kernel = some
        (if κ.uxPriority t > κ.uxPriority κ.pxCurrentTCB then { κ with xYieldPending := true }
        else κ) := by
      rw [taskAbortDelay, if_pos hblocked, hremove₁, Option.bind_some, ← hκ]
      exact congrArg (Option.map _) hremove₂
    rw [if_pos hblocked]
    split at habort
    · exact ⟨_, _, habort, h₃.vars rfl rfl rfl rfl rfl rfl rfl rfl (fun u hu => h₃.next u hu)
        le_rfl h₃.top, ⟨hkeeps.priority, hkeeps.current, hkeeps.suspended, hkeeps.pended,
          hkeeps.events⟩, fun _ => rfl, fun hy => absurd hy (by simp)⟩
    · next hle =>
      refine ⟨κ, _, habort, h₃, hkeeps, fun hy => by rw [← hκ]; exact hy, fun _ hs => ?_⟩
      rw [hkeeps.priority, hkeeps.current] at hle
      exact hs.of_ready hkeeps.priority hkeeps.current hready (Nat.not_lt.mp hle)
  · rw [if_neg hblocked]
    exact ⟨s.kernel, Z, by rw [taskAbortDelay, if_neg hblocked], h,
      ⟨rfl, rfl, rfl, rfl, fun _ _ => Or.inl rfl⟩, id, fun _ => id⟩

/-! ## creation -/

omit [DecidableEq ε] in
/-- An item that is in no list is as `vListInitialiseItem` leaves it. -/
theorem vListInitialiseItem_eq {m : ListMem (TaskList ε) (TaskItem τ)} {x : TaskItem τ}
    (hx : m.pxContainer x = none) : vListInitialiseItem x m = m := by
  rw [vListInitialiseItem, ← hx, Function.update_eq_self]

/-- **`prvInitialiseNewTask`** and `prvAddNewTaskToReadyList`. -/
theorem Shape.create (h : Shape idle idleHands lo s Z) (hstate : s.stateList t = none)
    (hevent : s.eventList t = none) (uxPriority : Nat) :
    ∃ κ b Z', prvAddNewTaskToReadyList t (prvInitialiseNewTask t uxPriority s.kernel) = (κ, b) ∧
      Shape idle idleHands lo (s.on κ) Z' ∧
      κ.pxCurrentTCB = s.kernel.pxCurrentTCB ∧
      κ.uxSchedulerSuspended = s.kernel.uxSchedulerSuspended ∧
      κ.xPendedTicks = s.kernel.xPendedTicks ∧ κ.xYieldPending = s.kernel.xYieldPending ∧
      (∀ u, κ.lists.pxContainer (.event u) = s.eventList u) ∧
      (b = false → s.Highest → (s.on κ).Highest) := by
  have hnot : ¬ s.Ready t := by
    rw [Ready, hstate]
    simp
  have hidle : t ≠ idle := by
    rintro rfl
    rw [h.idle.1] at hstate
    cases hstate
  have hne : t ≠ s.kernel.pxCurrentTCB := by
    rintro rfl
    exact h.current.resolve_left id hstate
  obtain ⟨p, hclip⟩ : ∃ p, p = clipPriority uxPriority := ⟨_, rfl⟩
  have hp : p < configMaxPriorities := hclip ▸ clipPriority_lt uxPriority
  have hother : ∀ u, u ≠ t → Function.update s.kernel.uxPriority t p u = s.kernel.uxPriority u :=
    fun u hu => Function.update_of_ne hu _ _
  obtain ⟨κ, hκ⟩ : ∃ κ : Kernel τ ε, κ = { s.kernel with
      uxPriority := Function.update s.kernel.uxPriority t p
      ucDelayAborted := Function.update s.kernel.ucDelayAborted t false
      lists := listSetItemValue (.event t) (UInt32.ofNat (configMaxPriorities - p)) s.kernel.lists
      uxCurrentNumberOfTasks := s.kernel.uxCurrentNumberOfTasks + 1 } := ⟨_, rfl⟩
  have hinit : prvAddNewTaskToReadyList t (prvInitialiseNewTask t uxPriority s.kernel) =
      (prvAddTaskToReadyList t κ,
        decide (s.kernel.uxPriority s.kernel.pxCurrentTCB < p)) := by
    rw [prvAddNewTaskToReadyList, prvInitialiseNewTask, vListInitialiseItem_eq hstate,
      vListInitialiseItem_eq hevent, ← hclip, hκ]
    simp only [hother _ hne.symm, Function.update_self]
  have h₁ := (((h.hold t).setPriority rfl hidle p).setValue (x := .event t) hevent rfl
    (UInt32.ofNat (configMaxPriorities - p))).addNumber
      (Nat.succ_pos s.kernel.uxCurrentNumberOfTasks)
  have h₂ : Shape idle (· = t) lo (s.on κ) Z := by
    rw [hκ]
    exact h₁.vars rfl rfl rfl rfl rfl rfl rfl rfl (fun u hu => h₁.next u hu) le_rfl h.top
  have hlist : κ.lists.pxContainer = s.kernel.lists.pxContainer := by rw [hκ]; rfl
  have hpriority : κ.uxPriority = Function.update s.kernel.uxPriority t p := by rw [hκ]
  have h₃ := h₂.addReady hidle (by rw [stateList_on, hlist]; exact hstate)
    (by rw [eventList_on, hlist]; exact hevent)
    (by
      rw [kernel_on, hpriority, Function.update_self, hκ]
      exact ⟨hp, Function.update_self ..⟩)
    (fun hw => by
      obtain hd | ho | hr := (h.tasks t id).waits hw
      · exact absurd (hstate.symm.trans hd) (by simp)
      · exact absurd (hstate.symm.trans ho) (by simp)
      · exact absurd hr.1 hnot)
    ((h.tasks t id).since hnot)
  refine ⟨_, _, _, hinit, h₃, by rw [hκ]; rfl, by rw [hκ]; rfl, by rw [hκ]; rfl, by rw [hκ]; rfl,
    fun u => ?_, fun hb hs u hu => ?_⟩
  · rw [pxContainer_prvAddTaskToReadyList, Function.update_of_ne (by simp), hlist]
    rfl
  · change κ.uxPriority u ≤ κ.uxPriority κ.pxCurrentTCB
    have hcurrent : κ.pxCurrentTCB = s.kernel.pxCurrentTCB := by rw [hκ]
    rw [hpriority, hcurrent, hother _ hne.symm]
    by_cases hut : u = t
    · subst hut
      rw [Function.update_self]
      exact Nat.not_lt.mp (of_decide_eq_false hb)
    · rw [hother u hut]
      refine hs u ?_
      rw [Ready, stateList_on, pxContainer_prvAddTaskToReadyList,
        Function.update_of_ne (by simpa using hut), hlist] at hu
      change _ = some (TaskList.ready (κ.uxPriority u)) at hu
      rwa [hpriority, hother u hut] at hu

end KernelSys

end Fr5080
