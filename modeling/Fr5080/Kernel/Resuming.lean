import Fr5080.Kernel.Unblocking

/-!
# Fr5080.Kernel.Resuming

The end of a suspension of the scheduler: `xTaskResumeAll` makes up for what has been put off,
first the tasks of `xPendingReadyList`, then the ticks that have been missed.
-/

namespace Fr5080

open Embedded

variable {τ ε : Type*} [DecidableEq τ] [DecidableEq ε]

namespace KernelSys

variable {s : KernelSys τ ε} {lo : Nat} {idle : τ} {Z : TaskList ε → Turns (TaskItem τ)}

omit [DecidableEq τ] [DecidableEq ε] in
theorem Keeps.trans {κ₁ κ₂ κ₃ : Kernel τ ε} (h₁ : Keeps κ₁ κ₂) (h₂ : Keeps κ₂ κ₃) :
    Keeps κ₁ κ₃ := by
  refine ⟨h₂.priority.trans h₁.priority, h₂.current.trans h₁.current,
    h₂.suspended.trans h₁.suspended, h₂.pended.trans h₁.pended, fun hrun t => ?_⟩
  obtain heq | hnone := h₂.events (h₁.suspended.trans hrun) t
  · rw [heq]
    exact h₁.events hrun t
  · exact Or.inr hnone

/-- **The loop over `xPendingReadyList`**. -/
theorem Shape.resumePending (h : Shape idle idleHands lo s Z) {n : Nat}
    (hn : (Z .pendingReady).items.length < n) (b : Bool) :
    ∃ m top y b' Z', xTaskResumeAllPending n s.kernel b = some ({ s.kernel with
        lists := m, uxTopReadyPriority := top, xYieldPending := y }, b') ∧
      Shape idle idleHands lo (s.on { s.kernel with
        lists := m, uxTopReadyPriority := top, xYieldPending := y }) Z' ∧
      (∀ u, m.pxContainer (.event u) ≠ some .pendingReady) ∧
      (s.kernel.xYieldPending = true → y = true) ∧
      (y = false → s.Highest → (s.on { s.kernel with
        lists := m, uxTopReadyPriority := top, xYieldPending := y }).Highest) := by
  induction n generalizing s Z b with
  | zero => exact absurd hn (Nat.not_lt_zero _)
  | succ n ih =>
      have hhead := h.lists.headEntry (k := .pendingReady)
      rw [xTaskResumeAllPending]
      cases hitems : (Z .pendingReady).items with
      | nil =>
          rw [if_pos (h.lists.isEmpty.mpr hitems)]
          refine ⟨s.kernel.lists, s.kernel.uxTopReadyPriority, s.kernel.xYieldPending, b, Z, rfl, h,
            fun u hu => ?_, id, fun _ => id⟩
          have hmem := (h.lists.container _ _).mp hu
          rw [hitems] at hmem
          cases hmem
      | cons x l =>
          have hx : x ∈ (Z .pendingReady).items := by
            rw [hitems]
            exact List.mem_cons_self
          obtain ⟨t, rfl⟩ := (h.items _ _ hx).mpr (Or.inl rfl)
          have hevent : s.eventList t = some .pendingReady := (h.lists.container _ _).mpr hx
          have hunwait : s.unwait t = s := by
            rw [KernelSys.unwait, ← (h.tasks t id).pending hevent, Function.update_eq_self]
          obtain ⟨m₁, m₂, Z₁, hremove₁, hremove₂, h₁, hcontainer, herase⟩ := h.releaseEvent hevent
          rw [hunwait] at h₁
          rw [if_neg (by rw [h.lists.isEmpty, hitems]; simp), hhead, hitems, List.head?_cons,
            Option.bind_some]
          dsimp only [TaskItem.pvOwner]
          rw [hremove₁, Option.bind_some, hremove₂, Option.bind_some]
          generalize hy : (if s.kernel.uxPriority t ≥ s.kernel.uxPriority s.kernel.pxCurrentTCB then
            true else s.kernel.xYieldPending) = y₁
          have hround : (if s.kernel.uxPriority t ≥ s.kernel.uxPriority s.kernel.pxCurrentTCB then
              { prvAddTaskToReadyList t { s.kernel with lists := m₂ } with xYieldPending := true }
              else prvAddTaskToReadyList t { s.kernel with lists := m₂ }) =
              { prvAddTaskToReadyList t { s.kernel with lists := m₂ } with
                xYieldPending := y₁ } := by
            rw [← hy]
            split <;> rfl
          have h₂ : Shape idle idleHands lo
              (s.on { prvAddTaskToReadyList t { s.kernel with lists := m₂ } with
                xYieldPending := y₁ }) Z₁ :=
            h₁.vars rfl rfl rfl rfl rfl rfl rfl rfl (fun u hu => h₁.next u hu) le_rfl h₁.top
          have hlength : (Z₁ .pendingReady).items.length < n := by
            rw [herase rfl, hitems, List.erase_cons_head]
            rw [hitems, List.length_cons] at hn
            omega
          obtain ⟨m, top, y, b', Z', hloop, hshape, hnone, hyield, hhighest⟩ := ih h₂ hlength true
          refine ⟨m, top, y, b', Z', (congrArg (xTaskResumeAllPending n · true) hround).trans hloop,
            hshape, hnone, fun hs => hyield ?_, fun hyf hs => hhighest hyf fun u hu => ?_⟩
          · change y₁ = true
            rw [← hy, hs, ite_self]
          · by_cases hut : u = t
            · subst hut
              by_contra hlt
              refine Bool.false_ne_true (hyf.symm.trans (hyield ?_))
              change y₁ = true
              rw [← hy]
              exact if_pos (Nat.le_of_lt (Nat.not_le.mp hlt))
            · refine hs u ?_
              rw [Ready, stateList_on] at hu
              dsimp only at hu
              rw [pxContainer_prvAddTaskToReadyList,
                Function.update_of_ne (by simpa using hut)] at hu
              simp only [hcontainer] at hu
              rw [Function.update_of_ne (by simpa using hut), Function.update_of_ne (by simp)] at hu
              exact hu

/-- **The ticks that have been missed**. -/
theorem Shape.resumeTicks (h : Shape idle idleHands (s.ticks + 1) s Z)
    (hrunning : s.kernel.uxSchedulerSuspended = 0) (n : Nat) :
    ∃ κ Z', xTaskResumeAllTicks n s.kernel = some κ ∧
      Shape idle idleHands (s.ticks + n + 1) ({ s with ticks := s.ticks + n }.on κ) Z' ∧
      Keeps s.kernel κ ∧ (s.kernel.xYieldPending = true → κ.xYieldPending = true) ∧
      (κ.xYieldPending = false → s.Highest → (s.on κ).Highest) := by
  induction n generalizing s Z with
  | zero => exact ⟨s.kernel, Z, rfl, h, ⟨rfl, rfl, rfl, rfl, fun _ _ => Or.inl rfl⟩, id,
      fun _ => id⟩
  | succ n ih =>
      obtain ⟨κ, b, Z₁, htick, h₁, hkeeps, hyield, hhighest, -⟩ := h.incrementTick hrunning
      generalize hκ : (if b then { κ with xYieldPending := true } else κ) = κ₁
      have h₂ : Shape idle idleHands (s.ticks + 1 + 1)
          ({ s with ticks := s.ticks + 1 }.on κ₁) Z₁ := by
        rw [← hκ]
        split
        · exact h₁.vars rfl rfl rfl rfl rfl rfl rfl rfl (fun u hu => h₁.next u hu) le_rfl h₁.top
        · exact h₁
      have hkeeps₁ : Keeps s.kernel κ₁ := by
        rw [← hκ]
        split
        · exact ⟨hkeeps.priority, hkeeps.current, hkeeps.suspended, hkeeps.pended, hkeeps.events⟩
        · exact hkeeps
      have hyield₁ : s.kernel.xYieldPending = true → κ₁.xYieldPending = true := by
        intro hy
        rw [← hκ]
        split
        · rfl
        · exact hyield.trans hy
      have hhighest₁ : κ₁.xYieldPending = false → s.Highest →
          ({ s with ticks := s.ticks + 1 }.on κ₁).Highest := by
        intro hy hs
        rw [← hκ] at hy ⊢
        split at hy
        · cases hy
        · next hb =>
          rw [if_neg hb]
          exact hhighest (Bool.eq_false_iff.mpr hb) hs
      obtain ⟨κ', Z', hticks, hshape, hkeeps', hyield', hhighest'⟩ :=
        ih (s := { s with ticks := s.ticks + 1 }.on κ₁) h₂ (hkeeps₁.suspended.trans hrunning)
      refine ⟨κ', Z', ?_, ?_, hkeeps₁.trans hkeeps', fun hy => hyield' (hyield₁ hy),
        fun hy hs => hhighest' hy (hhighest₁ ?_ hs)⟩
      · rw [xTaskResumeAllTicks, htick, Option.bind_some]
        dsimp only
        rw [hκ]
        exact hticks
      · have hsum : s.ticks + (n + 1) = s.ticks + 1 + n := by omega
        rw [hsum]
        exact hshape
      · by_contra hy'
        exact Bool.false_ne_true (hy.symm.trans (hyield' (by simpa using hy')))

/-- **`xTaskResumeAll`**, when the scheduler goes on. -/
theorem Shape.resumeAll (h : Shape idle idleHands (s.ticks + 1) s Z)
    (hsus : s.kernel.uxSchedulerSuspended = 1) :
    ∃ κ Z', xTaskResumeAll s.kernel = some (κ, κ.xYieldPending) ∧
      Shape idle idleHands (s.ticks + s.kernel.xPendedTicks.toNat + 1)
        ({ s with ticks := s.ticks + s.kernel.xPendedTicks.toNat }.on κ) Z' ∧
      κ.uxSchedulerSuspended = 0 ∧ κ.xPendedTicks = 0 ∧
      κ.uxPriority = s.kernel.uxPriority ∧ κ.pxCurrentTCB = s.kernel.pxCurrentTCB ∧
      (∀ u, κ.lists.pxContainer (.event u) ≠ some .pendingReady) ∧
      (κ.xYieldPending = false → s.kernel.xYieldPending = false ∧
        (s.Highest → (s.on κ).Highest)) := by
  have h₀ : Shape idle idleHands (s.ticks + 1)
      (s.on { s.kernel with uxSchedulerSuspended := 0 }) Z :=
    h.vars rfl rfl rfl rfl rfl rfl rfl rfl (fun u hu => h.next u hu) le_rfl h.top
  obtain ⟨m, top, y, b, Z₁, hloop, h₁, hnone, hyield, hhighest⟩ := h₀.resumePending
    (n := s.kernel.lists.uxNumberOfItems .pendingReady + 1)
    (by rw [h.lists.count]; exact Nat.lt_succ_self _) false
  simp only [kernel_on] at hloop h₁ hyield hhighest
  -- the next time to unblock a task
  obtain ⟨next, h₂, hreset⟩ : ∃ next, Shape idle idleHands (s.ticks + 1) (s.on { s.kernel with
        uxSchedulerSuspended := 0, lists := m, uxTopReadyPriority := top, xYieldPending := y,
        xNextTaskUnblockTime := next }) Z₁ ∧
      (if b then prvResetNextTaskUnblockTime { s.kernel with
        uxSchedulerSuspended := 0, lists := m, uxTopReadyPriority := top, xYieldPending := y }
      else { s.kernel with
        uxSchedulerSuspended := 0, lists := m, uxTopReadyPriority := top, xYieldPending := y }) =
      { s.kernel with
        uxSchedulerSuspended := 0, lists := m, uxTopReadyPriority := top, xYieldPending := y,
        xNextTaskUnblockTime := next } := by
    cases b with
    | false => exact ⟨s.kernel.xNextTaskUnblockTime, h₁, rfl⟩
    | true =>
        have h₂ := h₁.resetNext
        rw [kernel_on, prvResetNextTaskUnblockTime_eq] at h₂
        exact ⟨_, h₂, prvResetNextTaskUnblockTime_eq _⟩
  generalize hκ : ({ s.kernel with
    uxSchedulerSuspended := 0, lists := m, uxTopReadyPriority := top, xYieldPending := y,
    xNextTaskUnblockTime := next } : Kernel τ ε) = κ at h₂ hreset
  have hkernel : κ.uxSchedulerSuspended = 0 ∧ κ.xPendedTicks = s.kernel.xPendedTicks ∧
      κ.uxPriority = s.kernel.uxPriority ∧ κ.pxCurrentTCB = s.kernel.pxCurrentTCB ∧
      κ.lists = m ∧ κ.xYieldPending = y := by
    rw [← hκ]
    exact ⟨rfl, rfl, rfl, rfl, rfl, rfl⟩
  obtain ⟨hrunning, hpended, hpriority, hcurrent, hlists, hy⟩ := hkernel
  have hhighest₁ : κ.xYieldPending = false → s.Highest → (s.on κ).Highest := by
    intro hf hs
    rw [← hκ] at hf ⊢
    exact hhighest hf hs
  -- the ticks
  obtain ⟨κ', Z', hticks, h₃, hkeeps, hyield', hhighest'⟩ :=
    Shape.resumeTicks (s := s.on κ) h₂ hrunning s.kernel.xPendedTicks.toNat
  simp only [kernel_on] at hticks hkeeps hyield'
  have hloops : (if κ.xPendedTicks > 0 then
      (xTaskResumeAllTicks κ.xPendedTicks.toNat κ).map fun s => { s with xPendedTicks := 0 }
      else some κ) = some { κ' with xPendedTicks := 0 } := by
    rw [hpended]
    split
    · rw [hticks]
      rfl
    · next hzero =>
      have hzero : s.kernel.xPendedTicks = 0 := by
        by_contra hne
        exact hzero (UInt32.pos_iff_ne_zero.mpr hne)
      rw [hzero] at hticks
      obtain rfl : κ = κ' := Option.some.inj hticks
      rw [← hzero, ← hpended]
  refine ⟨{ κ' with xPendedTicks := 0 }, Z', ?_, ?_, hkeeps.suspended.trans hrunning, rfl,
    hkeeps.priority.trans hpriority, hkeeps.current.trans hcurrent, fun u hu => ?_, fun hf => ?_⟩
  · rw [xTaskResumeAll, if_neg (by rw [hsus]; simp)]
    dsimp only
    rw [if_pos ⟨by rw [hsus], h.number⟩, hsus, hloop, Option.bind_some]
    dsimp only
    rw [hreset, hloops]
    rfl
  · exact h₃.vars rfl rfl rfl rfl rfl rfl rfl rfl (fun u hu => h₃.next u hu) le_rfl h₃.top
  · obtain heq | hnull := hkeeps.events hrunning u
    · exact hnone u (by rw [← hlists, ← heq]; exact hu)
    · exact absurd (hnull.symm.trans hu) (by simp)
  · have hf' : κ.xYieldPending = false := by
      by_contra hne
      exact Bool.false_ne_true (hf.symm.trans (hyield' (by simpa using hne)))
    refine ⟨?_, fun hs => hhighest' hf (hhighest₁ hf' hs)⟩
    by_contra hne
    exact Bool.false_ne_true (hf'.symm.trans (hy.trans (hyield (by simpa using hne))))

/-- **`xTaskResumeAll`**, when the scheduler has been suspended more than once. -/
theorem Shape.resumeAll_nested (h : Shape idle idleHands lo s Z)
    (hsus : 1 < s.kernel.uxSchedulerSuspended) :
    xTaskResumeAll s.kernel = some ({ s.kernel with
        uxSchedulerSuspended := s.kernel.uxSchedulerSuspended - 1 }, false) ∧
      Shape idle idleHands lo (s.on { s.kernel with
        uxSchedulerSuspended := s.kernel.uxSchedulerSuspended - 1 }) Z := by
  refine ⟨?_, h.vars rfl rfl rfl rfl rfl rfl rfl rfl (fun u hu => h.next u hu) le_rfl h.top⟩
  rw [xTaskResumeAll, if_neg (by omega)]
  dsimp only
  rw [if_neg (by omega)]

end KernelSys

end Fr5080
