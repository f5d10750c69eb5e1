import Fr5080.Os.Timer

/-!
# Fr5080.Os.Firing

When the soft timers fire.

`TimerHistory.of t ops` is what the calls and ticks `ops` mean for the timer
`t` alone: whether it is initialised, and if it is started, with which period
and how many ticks ago.  `TimerHistory.Due` says at which ticks it is to fire;
neither looks at any counter.  `OsTimersInv` relates the list and the counters
to the histories of all timers.
-/

namespace Fr5080

open Embedded

/-! ## the history of one timer -/

/-- What has happened to a timer: it is not initialised or destroyed, it is not started, or
it has been started with a period, some ticks ago. -/
inductive TimerHistory
  | absent
  | idle
  | started (period : Nat) (type : OsTimerType) (ticks : Nat)
deriving DecidableEq

namespace TimerHistory

/-- One more tick since the start. -/
def tick : TimerHistory → TimerHistory
  | .started period type ticks => .started period type (ticks + 1)
  | h => h

/-- One more call or tick, for the timer `t`. -/
def step (t : OsTimerAddr) (h : TimerHistory) : OsTimerOp → TimerHistory
  | .init timer _ _ => if timer = t ∧ h = .absent then .idle else h
  | .destroy timer => if timer = t then .absent else h
  | .start timer periodMs type =>
      if timer = t ∧ h ≠ .absent then .started (max periodMs.toNat 1) type 0 else h
  | .stop timer => if timer = t ∧ h ≠ .absent then .idle else h
  | .tick => h.tick

/-- The history of `t` after `ops`. -/
def of (t : OsTimerAddr) (ops : List OsTimerOp) : TimerHistory := ops.foldl (step t) .absent

/-- The next tick is one at which the timer fires: the `p`-th, `2p`-th, … since its start, or
the `p`-th only. -/
def Due : TimerHistory → Prop
  | .started period .typeRepeat ticks => period ∣ ticks + 1
  | .started period .typeSingle ticks => ticks + 1 = period
  | _ => False

instance : DecidablePred Due := fun h =>
  match h with
  | .started period .typeRepeat ticks => inferInstanceAs (Decidable (period ∣ ticks + 1))
  | .started period .typeSingle ticks => inferInstanceAs (Decidable (ticks + 1 = period))
  | .absent => inferInstanceAs (Decidable False)
  | .idle => inferInstanceAs (Decidable False)

end TimerHistory

/-- The calls that name a timer. -/
def OsTimerOp.timer : OsTimerOp → Option OsTimerAddr
  | .init timer _ _ => some timer
  | .destroy timer => some timer
  | .start timer _ _ => some timer
  | .stop timer => some timer
  | .tick => none

/-- Ticks and the calls that name `t`. -/
def OsTimerOp.Concerns (t : OsTimerAddr) (op : OsTimerOp) : Prop :=
  op.timer = none ∨ op.timer = some t

instance (t : OsTimerAddr) : DecidablePred (OsTimerOp.Concerns t) := fun op =>
  inferInstanceAs (Decidable (op.timer = none ∨ op.timer = some t))

namespace TimerHistory

/-- A call for another timer does not matter. -/
theorem step_of_not_concerns {t : OsTimerAddr} {op : OsTimerOp} (h : ¬ op.Concerns t)
    (history : TimerHistory) : history.step t op = history := by
  cases op <;> simp_all [OsTimerOp.Concerns, OsTimerOp.timer, step]

/-- Operations on other timers never change the history of a timer. -/
theorem of_filter (t : OsTimerAddr) (ops : List OsTimerOp) :
    of t (ops.filter fun op => op.Concerns t) = of t ops := by
  rw [of, of]
  generalize TimerHistory.absent = history
  induction ops generalizing history with
  | nil => rfl
  | cons op ops ih =>
      by_cases hop : op.Concerns t
      · simp [hop, ih]
      · simp [hop, ih, step_of_not_concerns hop]

/-- The history after a start that has not been followed by another call for the timer. -/
theorem of_started {t : OsTimerAddr} {before after : List OsTimerOp} {periodMs : UInt32}
    {type : OsTimerType} (hbefore : of t before ≠ .absent)
    (hafter : ∀ op ∈ after, op.timer ≠ some t) :
    of t (before ++ .start t periodMs type :: after) =
      .started (max periodMs.toNat 1) type (after.count .tick) := by
  rw [of, List.foldl_append, List.foldl_cons, ← of, step, if_pos ⟨rfl, hbefore⟩]
  have hticks : ∀ ticks, after.foldl (step t) (.started (max periodMs.toNat 1) type ticks) =
      .started (max periodMs.toNat 1) type (ticks + after.count .tick) := by
    induction after with
    | nil => simp
    | cons op after ih =>
        intro ticks
        have hop := hafter op List.mem_cons_self
        have hrest := ih fun op' hop' => hafter op' (List.mem_cons_of_mem _ hop')
        by_cases htick : op = .tick
        · subst htick
          rw [List.foldl_cons, step, tick, hrest, List.count_cons_self, Nat.add_right_comm,
            Nat.add_assoc]
        · have hconcerns : ¬ op.Concerns t := by
            rintro (hnone | hsome)
            · cases op <;> first | exact htick rfl | cases hnone
            · exact hop hsome
          rw [List.foldl_cons, step_of_not_concerns hconcerns, hrest, List.count_cons_of_ne htick]
  rw [hticks, Nat.zero_add]

end TimerHistory

/-! ## counters and histories -/

/-- What the fields of a timer are after a history. -/
def TimerHistory.Holds : TimerHistory → OsTimer → Prop
  | .absent, _ => True
  | .idle, timer => timer.running = false
  | .started period .typeRepeat ticks, timer =>
      0 < period ∧ timer.type = .typeRepeat ∧ timer.initialPeriod.toNat = period ∧
        timer.running = true ∧ timer.lastPeriod.toNat = period - ticks % period
  | .started period .typeSingle ticks, timer =>
      0 < period ∧ timer.type = .typeSingle ∧
        if ticks < period then timer.running = true ∧ timer.lastPeriod.toNat = period - ticks
        else timer.running = false

theorem toNat_eq_one_iff (v : UInt32) : v = 1 ↔ v.toNat = 1 := UInt32.toNat_inj.symm

/-- Away from its end, a count goes down by one. -/
theorem toNat_sub_one {v : UInt32} {n : Nat} (h : v.toNat = n + 1) : (v - 1).toNat = n := by
  have hle : (1 : UInt32) ≤ v := UInt32.le_iff_toNat_le.mpr (by rw [h]; exact Nat.le_add_left 1 n)
  rw [UInt32.toNat_sub_of_le _ _ hle, h]
  exact Nat.add_sub_cancel n 1

/-- A tick of a timer in the list: the message is posted when it is due. -/
theorem TimerHistory.Holds.ticked {history : TimerHistory} {timer : OsTimer}
    (h : history.Holds timer) (hlist : history ≠ .absent) :
    history.tick.Holds timer.ticked ∧ (timer.expires = true ↔ history.Due) := by
  cases history with
  | absent => exact absurd rfl hlist
  | idle =>
      have hrunning : timer.running = false := h
      simp [tick, Due, Holds, OsTimer.ticked, OsTimer.expires, hrunning]
  | started period type ticks =>
      cases type with
      | typeRepeat =>
          obtain ⟨hpos, htype, hinitial, hrunning, hlast⟩ := h
          have hmod := Nat.mod_lt ticks hpos
          by_cases hone : ticks % period + 1 = period
          · have hnext : (ticks + 1) % period = 0 := by rw [← Nat.mod_add_mod, hone, Nat.mod_self]
            have hexpires : timer.expires = true := by
              simp [OsTimer.expires, hrunning, toNat_eq_one_iff, hlast]
              omega
            simp [tick, Due, Holds, OsTimer.ticked, hexpires, htype, hinitial, hrunning, hpos,
              hnext, Nat.dvd_of_mod_eq_zero]
          · have hnext : (ticks + 1) % period = ticks % period + 1 := by
              rw [← Nat.mod_add_mod]
              exact Nat.mod_eq_of_lt (by omega)
            have hexpires : timer.expires = false := by
              simp [OsTimer.expires, hrunning, toNat_eq_one_iff, hlast]
              omega
            have hcount : (timer.lastPeriod - 1).toNat = period - (ticks % period + 1) :=
              toNat_sub_one (by omega)
            simp [tick, Due, Holds, OsTimer.ticked, hexpires, htype, hinitial, hrunning, hpos,
              hnext, hcount, Nat.dvd_iff_mod_eq_zero]
      | typeSingle =>
          obtain ⟨hpos, htype, hcount⟩ := h
          by_cases hrunning : ticks < period
          · rw [if_pos hrunning] at hcount
            obtain ⟨hrunning', hlast⟩ := hcount
            by_cases hone : ticks + 1 = period
            · have hexpires : timer.expires = true := by
                simp [OsTimer.expires, hrunning', toNat_eq_one_iff, hlast]
                omega
              simp [tick, Due, Holds, OsTimer.ticked, hexpires, htype, hpos, hone]
            · have hexpires : timer.expires = false := by
                simp [OsTimer.expires, hrunning', toNat_eq_one_iff, hlast]
                omega
              have hleft : (timer.lastPeriod - 1).toNat = period - (ticks + 1) :=
                toNat_sub_one (by omega)
              have hlt : ticks + 1 < period := by omega
              simp [tick, Due, Holds, OsTimer.ticked, hexpires, htype, hpos, hone, hrunning', hleft,
                hlt]
          · rw [if_neg hrunning] at hcount
            have hlt : ¬ ticks + 1 < period := by omega
            have hne : ticks + 1 ≠ period := by omega
            simp [tick, Due, Holds, OsTimer.ticked, OsTimer.expires, hcount, htype, hpos, hlt, hne]

/-- The timers in the list are those initialised and not destroyed, and all counters are as their
histories say. -/
structure OsTimersInv (s : OsTimers) (history : OsTimerAddr → TimerHistory) : Prop where
  list : ∃ l, Linked s.next s.timerList l ∧ ∀ t, t ∈ l ↔ history t ≠ .absent
  holds : ∀ t, (history t).Holds (s.timers t)

/-- What a step does to all timers; a tick posts the messages that are due. -/
structure OsTimersStep (s : OsTimers) (history : OsTimerAddr → TimerHistory) (op : OsTimerOp)
    (s' : OsTimers) (posted : List OsTimerAddr) : Prop where
  step : osTimerStep s op = some s'
  inv : OsTimersInv s' fun t => (history t).step t op
  posted_eq : s'.posted = s.posted ++ posted
  count : ∀ t, posted.count t = if op = .tick ∧ (history t).Due then 1 else 0

section

variable {s : OsTimers} {history : OsTimerAddr → TimerHistory} {timer : OsTimerAddr}

/-- A call that changes the fields of one timer. -/
theorem holds_update {timer' : OsTimer} {history' : OsTimerAddr → TimerHistory}
    (h : ∀ t, (history t).Holds (s.timers t)) (hself : (history' timer).Holds timer')
    (hother : ∀ t, t ≠ timer → history' t = history t) (t : OsTimerAddr) :
    (history' t).Holds (Function.update s.timers timer timer' t) := by
  by_cases ht : t = timer
  · subst ht
    rwa [Function.update_self]
  · rw [Function.update_of_ne ht, hother t ht]
    exact h t

theorem OsTimersInv.init (h : OsTimersInv s history) (callback parg : Nat) :
    ∃ s', OsTimersStep s history (.init timer callback parg) s' [] := by
  obtain ⟨l, hl, hmem⟩ := h.list
  by_cases ht : timer ∈ l
  · have hstep : ∀ t, (history t).step t (.init timer callback parg) = history t := by
      intro t
      refine if_neg ?_
      rintro ⟨rfl, habsent⟩
      exact (hmem timer).mp ht habsent
    refine ⟨s, osTimerInit_of_mem hl ht callback parg, ⟨⟨l, hl, ?_⟩, ?_⟩, by simp, by simp⟩
    · simpa only [hstep] using hmem
    · simpa only [hstep] using h.holds
  · have habsent : history timer = .absent := not_not.mp fun hne => ht ((hmem timer).mpr hne)
    refine ⟨_, osTimerInit_of_not_mem hl ht callback parg, ⟨⟨_, hl.push ht, ?_⟩, ?_⟩, by simp,
      by simp⟩
    · intro t
      by_cases heq : timer = t
      · subst heq
        simp [TimerHistory.step, habsent]
      · simp [TimerHistory.step, heq, Ne.symm heq, hmem]
    · refine holds_update h.holds ?_ fun t ht => by simp [TimerHistory.step, Ne.symm ht]
      simp [TimerHistory.step, habsent, TimerHistory.Holds]

theorem OsTimersInv.destroy (h : OsTimersInv s history) :
    ∃ s', OsTimersStep s history (.destroy timer) s' [] := by
  obtain ⟨l, hl, hmem⟩ := h.list
  obtain ⟨s', hstep, hl', htimers, hposted⟩ := @osTimerDestroy_eq s timer l hl
  refine ⟨s', hstep, ⟨⟨_, hl', fun t => ?_⟩, fun t => ?_⟩, by simp [hposted], by simp⟩
  · rw [hl.nodup.mem_erase_iff, hmem, TimerHistory.step]
    by_cases heq : timer = t
    · simp [heq]
    · simp [heq, Ne.symm heq]
  · rw [htimers, TimerHistory.step]
    by_cases heq : timer = t
    · simp [heq, TimerHistory.Holds]
    · simpa [heq] using h.holds t

/-- A period of 0 is a period of 1. -/
theorem toNat_osTimerPeriod (periodMs : UInt32) :
    (osTimerPeriod periodMs).toNat = max periodMs.toNat 1 := by
  have hdiv : periodMs / osTimerPrecision = periodMs := UInt32.toNat_inj.mp (by
    rw [UInt32.toNat_div]
    exact Nat.div_one _)
  rw [osTimerPeriod, hdiv]
  split
  · next hzero =>
      rw [hzero]
      rfl
  · next hne =>
      have hpos : 1 ≤ periodMs.toNat :=
        Nat.pos_of_ne_zero fun hzero => hne (UInt32.toNat_inj.mp hzero)
      exact (Nat.max_eq_left hpos).symm

theorem OsTimersInv.start (h : OsTimersInv s history) (periodMs : UInt32) (type : OsTimerType) :
    ∃ s', OsTimersStep s history (.start timer periodMs type) s' [] := by
  obtain ⟨l, hl, hmem⟩ := h.list
  by_cases ht : timer ∈ l
  · have hne := (hmem timer).mp ht
    refine ⟨_, osTimerStart_of_mem hl ht periodMs type, ⟨⟨l, hl, ?_⟩, ?_⟩, by simp, by simp⟩
    · intro t
      by_cases heq : timer = t
      · subst heq
        simp [TimerHistory.step, hne, ht]
      · simp [TimerHistory.step, heq, hmem]
    · refine holds_update h.holds ?_ fun t ht => by simp [TimerHistory.step, Ne.symm ht]
      cases type with
      | typeSingle => simp [TimerHistory.step, hne, TimerHistory.Holds, toNat_osTimerPeriod]
      | typeRepeat => simp [TimerHistory.step, hne, TimerHistory.Holds, toNat_osTimerPeriod]
  · have hstep : ∀ t, (history t).step t (.start timer periodMs type) = history t := by
      intro t
      refine if_neg ?_
      rintro ⟨rfl, hne⟩
      exact ht ((hmem timer).mpr hne)
    refine ⟨s, osTimerStart_of_not_mem hl ht periodMs type, ⟨⟨l, hl, ?_⟩, ?_⟩, by simp, by simp⟩
    · simpa only [hstep] using hmem
    · simpa only [hstep] using h.holds

theorem OsTimersInv.stop (h : OsTimersInv s history) :
    ∃ s', OsTimersStep s history (.stop timer) s' [] := by
  obtain ⟨l, hl, hmem⟩ := h.list
  refine ⟨_, rfl, ⟨⟨l, hl, fun t => ?_⟩, ?_⟩, by simp [osTimerStop], by simp⟩
  · rw [hmem, TimerHistory.step]
    split
    · next heq => simp [heq.2]
    · rfl
  · refine holds_update h.holds ?_ fun t ht => by simp [TimerHistory.step, Ne.symm ht]
    by_cases habsent : history timer = .absent
    · simp [TimerHistory.step, habsent, TimerHistory.Holds]
    · simp [TimerHistory.step, habsent, TimerHistory.Holds]

theorem OsTimersInv.tick (h : OsTimersInv s history) :
    ∃ s' posted, OsTimersStep s history .tick s' posted := by
  obtain ⟨l, hl, hmem⟩ := h.list
  have htick : ∀ t, (history t).tick ≠ .absent ↔ history t ≠ .absent := by
    intro t
    cases history t <;> simp [TimerHistory.tick]
  refine ⟨_, _, osTimerCheckList_eq hl, ⟨⟨l, hl, fun t => ?_⟩, fun t => ?_⟩, rfl, fun t => ?_⟩
  · rw [hmem, TimerHistory.step, htick]
  · rw [TimerHistory.step]
    by_cases ht : t ∈ l
    · simp only [ht, if_true]
      exact ((h.holds t).ticked ((hmem t).mp ht)).1
    · have habsent : history t = .absent := not_not.mp fun hne => ht ((hmem t).mpr hne)
      simp [habsent, TimerHistory.tick, TimerHistory.Holds]
  · by_cases ht : t ∈ l
    · have hdue := ((h.holds t).ticked ((hmem t).mp ht)).2
      by_cases hexpires : (s.timers t).expires
      · rw [List.count_filter (p := fun a => (s.timers a).expires) hexpires,
          List.count_eq_one_of_mem hl.nodup ht, if_pos ⟨rfl, hdue.mp hexpires⟩]
      · rw [List.count_eq_zero_of_not_mem (by simp [hexpires]),
          if_neg fun h => hexpires (hdue.mpr h.2)]
    · have habsent : history t = .absent := not_not.mp fun hne => ht ((hmem t).mpr hne)
      rw [List.count_eq_zero_of_not_mem (by simp [ht])]
      simp [habsent, TimerHistory.Due]

/-- Every step of every timer, whatever the others do. -/
theorem OsTimersInv.steps (h : OsTimersInv s history) (op : OsTimerOp) :
    ∃ s' posted, OsTimersStep s history op s' posted := by
  cases op with
  | init timer callback parg => exact ⟨_, _, (h.init callback parg).choose_spec⟩
  | destroy timer => exact ⟨_, _, h.destroy.choose_spec⟩
  | start timer periodMs type => exact ⟨_, _, (h.start periodMs type).choose_spec⟩
  | stop timer => exact ⟨_, _, h.stop.choose_spec⟩
  | tick => exact h.tick

end

/-! ## runs -/

/-- Any run goes through, and the timers are as their histories say. -/
theorem OsTimersInv.runs {s : OsTimers} {history : OsTimerAddr → TimerHistory}
    (h : OsTimersInv s history) (ops : List OsTimerOp) :
    ∃ s', run osTimerStep s ops = some s' ∧
      OsTimersInv s' fun t => ops.foldl (TimerHistory.step t) (history t) := by
  induction ops generalizing s history with
  | nil => exact ⟨s, rfl, h⟩
  | cons op ops ih =>
      obtain ⟨s₁, posted, hstep⟩ := h.steps op
      obtain ⟨s', hrun, hinv⟩ := ih hstep.inv
      exact ⟨s', run_cons_eq_some.mpr ⟨s₁, hstep.step, hrun⟩, hinv⟩

theorem osTimersInv_boot (next : OsTimerAddr → Option OsTimerAddr)
    (timers : OsTimerAddr → OsTimer) : OsTimersInv (.boot next timers) fun _ => .absent :=
  ⟨⟨[], rfl, by simp⟩, fun _ => trivial⟩

/-- After any calls and ticks, the list has exactly the timers initialised and not destroyed, each
once, and ends; the next tick posts exactly the messages that are due, and nothing else posts any;
and when a message is due depends on the calls for its timer alone. -/
theorem os_timer_firing_law (next : OsTimerAddr → Option OsTimerAddr)
    (timers : OsTimerAddr → OsTimer) (ops : List OsTimerOp) :
    ∃ s, run osTimerStep (.boot next timers) ops = some s ∧
      (∃ l, Linked s.next s.timerList l ∧ l.Nodup ∧
        ∀ t, t ∈ l ↔ TimerHistory.of t ops ≠ .absent) ∧
      (∀ op, ∃ s' posted, osTimerStep s op = some s' ∧ s'.posted = s.posted ++ posted ∧
        ∀ t, posted.count t = if op = .tick ∧ (TimerHistory.of t ops).Due then 1 else 0) ∧
      ∀ t, TimerHistory.of t (ops.filter fun op => op.Concerns t) = TimerHistory.of t ops := by
  obtain ⟨s, hrun, hinv⟩ := (osTimersInv_boot next timers).runs ops
  refine ⟨s, hrun, ?_, fun op => ?_, fun t => TimerHistory.of_filter t ops⟩
  · obtain ⟨l, hl, hmem⟩ := hinv.list
    exact ⟨l, hl, hl.nodup, hmem⟩
  · obtain ⟨s', posted, hstep⟩ := hinv.steps op
    exact ⟨s', posted, hstep.step, hstep.posted_eq, hstep.count⟩

/-- A single-shot timer of period 2 fires at the second tick and at no other. -/
example (t : OsTimerAddr) :
    ((List.range 5).map fun n => decide (TimerHistory.of t
      ([.init t 0 0, .start t 2 .typeSingle] ++ List.replicate n .tick)).Due) =
        [false, true, false, false, false] := by
  have hof : ∀ n, TimerHistory.of t ([.init t 0 0] ++ .start t 2 .typeSingle ::
      List.replicate n .tick) = .started 2 .typeSingle n := by
    intro n
    rw [TimerHistory.of_started (by simp [TimerHistory.of, TimerHistory.step])]
    · simp
    · simp [OsTimerOp.timer]
  simp only [List.cons_append, List.nil_append] at hof ⊢
  simp only [hof]
  decide

end Fr5080
