import Fr5080.Embedded.Sched
import Fr5080.Os.Firing

/-!
# Fr5080.Os.Trigger

The callbacks of the soft timers: a tick posts the message
`OS_TIMER_TRIGGER`, which holds the address of the timer, and the task that
takes the message from the queue calls the callback.

The functions of `os_timer.c` mask interrupts, so a call of one, from the task,
a callback or an interrupt, is one `interrupt` event like the tick is.  Messages
of other kinds are left out: what their handlers do to timers are calls.

A message that is pending when its timer is stopped or destroyed is not taken
back, and `os_timer_trigger_handler` does not look at `running`.
-/

namespace Fr5080

open Embedded

/-! ## the task -/

/-- A callback that has been called, with the calls and ticks before it. -/
structure OsTimerCallback where
  timer : OsTimerAddr
  callback : Nat
  arg : Nat
  history : List OsTimerOp

/-- The timers; `history` and `calls` are history variables. -/
structure TriggerState where
  timers : OsTimers
  history : List OsTimerOp
  calls : List OsTimerCallback

/-- `timer->callback(timer->arg)`. -/
inductive TriggerStmt
  | callback (timer : OsTimerAddr)
deriving DecidableEq

/-- `os_timer_trigger_handler`, for the message of a timer. -/
def osTimerTriggerHandler (timer : OsTimerAddr) : List TriggerStmt := [.callback timer]

/-- One statement of the handler. -/
def TriggerStmt.exec : TriggerStmt → TriggerState → Effect TriggerStmt OsTimerAddr TriggerState
  | .callback timer, s =>
      { state :=
          { s with
            calls := s.calls ++ [⟨timer, (s.timers.timers timer).callback,
              (s.timers.timers timer).arg, s.history⟩] }
        posted := []
        next := some [] }

/-- A call or a tick, with the messages that it posts. -/
def triggerIsr (op : OsTimerOp) (s : TriggerState) :
    Option (TriggerState × List OsTimerAddr) :=
  match osTimerStep s.timers op with
  | some timers =>
      some ({ s with timers := timers, history := s.history ++ [op] },
        timers.posted.drop s.timers.posted.length)
  | none => none

/-- One step of the processor. -/
def triggerStep :
    Sched TriggerStmt OsTimerAddr TriggerState → SchedEvent Empty Unit OsTimerOp →
      Option (Sched TriggerStmt OsTimerAddr TriggerState) :=
  schedStep Empty.elim osTimerTriggerHandler (fun c _ s => some (c.exec s)) triggerIsr

/-- No timer is initialised and no message is pending. -/
def triggerStart (next : OsTimerAddr → Option OsTimerAddr) (timers : OsTimerAddr → OsTimer) :
    Sched TriggerStmt OsTimerAddr TriggerState :=
  ⟨[], [], ⟨.boot next timers, [], []⟩⟩

/-! ## stopped timers -/

/-- The call stops or destroys the timer. -/
def OsTimerOp.Stops (t : OsTimerAddr) (op : OsTimerOp) : Prop := op = .stop t ∨ op = .destroy t

instance (t : OsTimerAddr) : DecidablePred (OsTimerOp.Stops t) := fun op =>
  inferInstanceAs (Decidable (op = .stop t ∨ op = .destroy t))

/-- The timer has been stopped or destroyed, and not been started since; a call of
`os_timer_start` for a timer that is not in the list has no effect and starts nothing. -/
def StoppedSince (t : OsTimerAddr) (history : List OsTimerOp) : Prop :=
  ∃ before op after, history = before ++ op :: after ∧ op.Stops t ∧
    ∀ mid periodMs type rest, after = mid ++ .start t periodMs type :: rest →
      TimerHistory.of t (before ++ op :: mid) = .absent

/-- A message of the timer is in the queue, or its callback is about to be called. -/
def TriggerPending (t : OsTimerAddr) (code : List TriggerStmt) (queue : List OsTimerAddr) : Prop :=
  t ∈ queue ∨ .callback t ∈ code

/-- The step stops or destroys a timer that has a message pending. -/
def StopsPending (s : Sched TriggerStmt OsTimerAddr TriggerState) :
    SchedEvent Empty Unit OsTimerOp → Prop
  | .interrupt op => ∃ t, op.Stops t ∧ TriggerPending t s.code s.queue
  | _ => False

/-- A timer that is started. -/
def TimerHistory.Started : TimerHistory → Prop
  | .started _ _ _ => True
  | _ => False

theorem TimerHistory.Due.started {history : TimerHistory} (h : history.Due) : history.Started := by
  cases history <;> trivial

/-- Only a stop or a destruction ends the time of a start. -/
theorem TimerHistory.Started.step {t : OsTimerAddr} {history : TimerHistory} {op : OsTimerOp}
    (h : history.Started) (hop : ¬ op.Stops t) : (history.step t op).Started := by
  cases history with
  | absent => exact h.elim
  | idle => exact h.elim
  | started period type ticks =>
      cases op with
      | destroy timer =>
          have hne : timer ≠ t := fun heq => hop (Or.inr (heq ▸ rfl))
          simp [TimerHistory.step, hne, TimerHistory.Started]
      | stop timer =>
          have hne : timer ≠ t := fun heq => hop (Or.inl (heq ▸ rfl))
          simp [TimerHistory.step, hne, TimerHistory.Started]
      | init timer callback parg => simp [TimerHistory.step, TimerHistory.Started]
      | start timer periodMs type' =>
          by_cases heq : timer = t
          · simp [TimerHistory.step, heq, TimerHistory.Started]
          · simp [TimerHistory.step, heq, TimerHistory.Started]
      | tick => trivial

/-- A timer that is not started stays so, if no start takes effect. -/
theorem TimerHistory.not_started_foldl {t : OsTimerAddr} {ops : List OsTimerOp}
    {history : TimerHistory}
    (hops : ∀ mid periodMs type rest, ops = mid ++ .start t periodMs type :: rest →
      mid.foldl (TimerHistory.step t) history = .absent)
    (h : ¬ history.Started) : ¬ (ops.foldl (TimerHistory.step t) history).Started := by
  induction ops generalizing history with
  | nil => exact h
  | cons op ops ih =>
      refine ih (fun mid periodMs type rest heq => ?_) ?_
      · exact hops (op :: mid) periodMs type rest (by rw [heq, List.cons_append])
      cases op with
      | start timer periodMs type =>
          by_cases heq : timer = t
          · subst heq
            have habsent : history = .absent := hops [] periodMs type ops rfl
            simpa [TimerHistory.step, habsent] using h
          · simpa [TimerHistory.step, heq] using h
      | init timer callback parg =>
          simp only [TimerHistory.step]
          split
          · exact id
          · exact h
      | destroy timer =>
          simp only [TimerHistory.step]
          split
          · exact id
          · exact h
      | stop timer =>
          simp only [TimerHistory.step]
          split
          · exact id
          · exact h
      | tick =>
          cases history with
          | started period type ticks => exact absurd trivial h
          | absent => exact id
          | idle => exact id

/-- A call that stops or destroys a timer leaves it not started. -/
theorem TimerHistory.not_started_of_stops {t : OsTimerAddr} {op : OsTimerOp} (hop : op.Stops t)
    (history : TimerHistory) : ¬ (history.step t op).Started := by
  obtain rfl | rfl := hop
  · simp only [TimerHistory.step]
    split
    · exact id
    · next hnot =>
        intro hstarted
        refine hnot ⟨trivial, fun habsent => ?_⟩
        rw [habsent] at hstarted
        exact hstarted
  · simp [TimerHistory.step, TimerHistory.Started]

/-- A timer whose history is that of a started one has been started since the last stop. -/
theorem not_stoppedSince_of_started {t : OsTimerAddr} {history : List OsTimerOp}
    (h : (TimerHistory.of t history).Started) : ¬ StoppedSince t history := by
  rintro ⟨before, op, after, rfl, hop, hafter⟩
  rw [TimerHistory.of, List.foldl_append, List.foldl_cons] at h
  refine TimerHistory.not_started_foldl (fun mid periodMs type rest heq => ?_)
    (TimerHistory.not_started_of_stops hop _) h
  have habsent := hafter mid periodMs type rest heq
  rwa [TimerHistory.of, List.foldl_append, List.foldl_cons] at habsent

/-! ## the invariant -/

/-- Whatever has a message pending is started. -/
structure TriggerInv (code : List TriggerStmt) (queue : List OsTimerAddr) (s : TriggerState) :
    Prop where
  timers : OsTimersInv s.timers fun t => TimerHistory.of t s.history
  pending : ∀ t, TriggerPending t code queue → (TimerHistory.of t s.history).Started
  calls : ∀ c ∈ s.calls, ¬ StoppedSince c.timer c.history

theorem TimerHistory.of_concat (t : OsTimerAddr) (history : List OsTimerOp) (op : OsTimerOp) :
    of t (history ++ [op]) = (of t history).step t op := by
  rw [of, List.foldl_append]
  rfl

/-- A call or a tick always goes through; a tick posts for timers that are started. -/
theorem triggerIsr_eq {s : TriggerState} (op : OsTimerOp)
    (h : OsTimersInv s.timers fun t => TimerHistory.of t s.history) :
    ∃ timers posted, triggerIsr op s =
        some ({ s with timers := timers, history := s.history ++ [op] }, posted) ∧
      (OsTimersInv timers fun t => TimerHistory.of t (s.history ++ [op])) ∧
      ∀ t ∈ posted, op = .tick ∧ (TimerHistory.of t s.history).Started := by
  obtain ⟨timers, posted, hstep⟩ := h.steps op
  refine ⟨timers, posted, ?_, ?_, fun t ht => ?_⟩
  · rw [triggerIsr, hstep.step]
    simp [hstep.posted_eq]
  · simp only [TimerHistory.of_concat]
    exact hstep.inv
  · have hcount := List.count_pos_iff.mpr ht
    rw [hstep.count] at hcount
    split at hcount
    · next hdue => exact ⟨hdue.1, hdue.2.started⟩
    · exact absurd hcount (Nat.lt_irrefl 0)

theorem TriggerInv.interrupt {code : List TriggerStmt} {queue posted : List OsTimerAddr}
    {s s' : TriggerState} {op : OsTimerOp} (h : TriggerInv code queue s)
    (hC : ∀ t, op.Stops t → ¬ TriggerPending t code queue)
    (hisr : triggerIsr op s = some (s', posted)) : TriggerInv code (queue ++ posted) s' := by
  obtain ⟨timers, posted', heq, hinv, hposted⟩ := triggerIsr_eq op h.timers
  cases heq.symm.trans hisr
  refine ⟨hinv, fun t ht => ?_, h.calls⟩
  rw [TimerHistory.of_concat]
  by_cases hold : TriggerPending t code queue
  · exact (h.pending t hold).step fun hstops => hC t hstops hold
  · have hnew : t ∈ posted := by
      rcases ht with hmem | hmem
      · exact (List.mem_append.mp hmem).resolve_left fun h => hold (Or.inl h)
      · exact absurd (Or.inr hmem) hold
    obtain ⟨rfl, hstarted⟩ := hposted t hnew
    exact hstarted.step (by rintro (h | h) <;> cases h)

theorem TriggerInv.callback {timer : OsTimerAddr} {code : List TriggerStmt}
    {queue : List OsTimerAddr} {s : TriggerState}
    (h : TriggerInv (.callback timer :: code) queue s) :
    TriggerInv code queue ((TriggerStmt.callback timer).exec s).state := by
  refine ⟨h.timers, fun t ht => h.pending t ?_, fun c hc => ?_⟩
  · exact ht.imp_right (List.mem_cons_of_mem _)
  · cases List.mem_append.mp hc with
    | inl hold => exact h.calls c hold
    | inr hnew =>
        rw [List.mem_singleton.mp hnew]
        exact not_stoppedSince_of_started (h.pending timer (Or.inr List.mem_cons_self))

theorem triggerInv_run {next : OsTimerAddr → Option OsTimerAddr} {timers : OsTimerAddr → OsTimer}
    {es : List (SchedEvent Empty Unit OsTimerOp)}
    {t : Sched TriggerStmt OsTimerAddr TriggerState}
    (hC : Along triggerStep (fun s e => ¬ StopsPending s e) (triggerStart next timers) es)
    (hrun : run triggerStep (triggerStart next timers) es = some t) :
    TriggerInv t.code t.queue t.state := by
  refine run_inv_of_sched (A := TriggerInv) ?_ ?_ ?_ ?_ ?_ hC hrun
  · exact fun p => p.elim
  · intro timer queue s _ h
    refine ⟨h.timers, fun t ht => h.pending t (Or.inl ?_), h.calls⟩
    rcases ht with hmem | hmem
    · exact List.mem_cons_of_mem _ hmem
    · cases List.mem_singleton.mp hmem
      exact List.mem_cons_self
  · rintro ⟨timer⟩ code queue s _ r _ h hexec
    cases hexec
    rw [TriggerStmt.exec, List.append_nil]
    exact h.callback
  · intro code queue s op s' posted hC h hisr
    exact h.interrupt (fun t hstops hpending => hC ⟨t, hstops, hpending⟩) hisr
  · exact ⟨osTimersInv_boot next timers, by simp [triggerStart, TriggerPending],
      by simp [triggerStart]⟩

/-! ## what is pending is called -/

/-- The handler goes on to its end. -/
theorem run_handler (code : List TriggerStmt) (queue : List OsTimerAddr) (s : TriggerState) :
    ∃ es s', (∀ e ∈ es, e = .stmt ()) ∧
      run triggerStep ⟨code, queue, s⟩ es = some ⟨[], queue, s'⟩ ∧ s'.history = s.history ∧
      s.calls ⊆ s'.calls ∧
      ∀ t, .callback t ∈ code → ∃ c ∈ s'.calls, c.timer = t ∧ c.history = s.history := by
  induction code generalizing s with
  | nil => exact ⟨[], s, by simp, rfl, rfl, List.Subset.refl _, by simp⟩
  | cons c code ih =>
      obtain ⟨timer⟩ := c
      obtain ⟨es, s', hes, hrun, hhistory, hcalls, hcalled⟩ :=
        ih ((TriggerStmt.callback timer).exec s).state
      refine ⟨.stmt () :: es, s', by simpa using hes, ?_, hhistory,
        List.Subset.trans (List.subset_append_left _ _) hcalls, fun t ht => ?_⟩
      · refine run_cons_eq_some.mpr ⟨⟨code, queue ++ [], _⟩, rfl, ?_⟩
        rwa [List.append_nil]
      · cases List.mem_cons.mp ht with
        | inl heq =>
            cases heq
            exact ⟨_, hcalls (List.mem_append_right _ List.mem_cons_self), rfl, rfl⟩
        | inr hmem => exact hcalled t hmem

/-- The task empties the queue. -/
theorem run_queue (queue : List OsTimerAddr) (s : TriggerState) :
    ∃ es s', (∀ e ∈ es, e = .dispatch ∨ e = .stmt ()) ∧
      run triggerStep ⟨[], queue, s⟩ es = some ⟨[], [], s'⟩ ∧ s.calls ⊆ s'.calls ∧
      ∀ t ∈ queue, ∃ c ∈ s'.calls, c.timer = t ∧ c.history = s.history := by
  induction queue generalizing s with
  | nil => exact ⟨[], s, by simp, rfl, List.Subset.refl _, by simp⟩
  | cons timer queue ih =>
      obtain ⟨es₁, s₁, hes₁, hrun₁, hhistory₁, hcalls₁, hcalled₁⟩ :=
        run_handler (osTimerTriggerHandler timer) queue s
      obtain ⟨es₂, s₂, hes₂, hrun₂, hcalls₂, hcalled₂⟩ := ih s₁
      refine ⟨.dispatch :: (es₁ ++ es₂), s₂, ?_, ?_, List.Subset.trans hcalls₁ hcalls₂,
        fun t ht => ?_⟩
      · simp only [List.mem_cons, List.mem_append]
        grind
      · exact run_cons_eq_some.mpr ⟨_, rfl, run_append_eq_some.mpr ⟨_, hrun₁, hrun₂⟩⟩
      · cases List.mem_cons.mp ht with
        | inl heq =>
            subst heq
            obtain ⟨c, hc, hcall⟩ := hcalled₁ t List.mem_cons_self
            exact ⟨c, hcalls₂ hc, hcall⟩
        | inr hmem =>
            rw [← hhistory₁]
            exact hcalled₂ t hmem

/-- Without any further call, the callback of a pending message is called. -/
theorem run_pending {code : List TriggerStmt} {queue : List OsTimerAddr} {t : OsTimerAddr}
    (s : TriggerState) (h : TriggerPending t code queue) :
    ∃ es t', (∀ e ∈ es, e = .dispatch ∨ e = .stmt ()) ∧
      run triggerStep ⟨code, queue, s⟩ es = some t' ∧
      ∃ c ∈ t'.state.calls, c.timer = t ∧ c.history = s.history := by
  obtain ⟨es₁, s₁, hes₁, hrun₁, hhistory₁, -, hcalled₁⟩ := run_handler code queue s
  obtain ⟨es₂, s₂, hes₂, hrun₂, hcalls₂, hcalled₂⟩ := run_queue queue s₁
  refine ⟨es₁ ++ es₂, _, ?_, run_append_eq_some.mpr ⟨_, hrun₁, hrun₂⟩, ?_⟩
  · simp only [List.mem_append]
    grind
  · rcases h with hmem | hmem
    · rw [← hhistory₁]
      exact hcalled₂ t hmem
    · obtain ⟨c, hc, hcall⟩ := hcalled₁ t hmem
      exact ⟨c, hcalls₂ hc, hcall⟩

/-- If no timer is stopped or destroyed while a message of it is pending, no callback is called
after a stop or a destruction before the next start.  A step that does so in such a run goes
wrong without any further call: the task has only to take the messages from its queue. -/
theorem no_callback_after_stop {next : OsTimerAddr → Option OsTimerAddr}
    {timers : OsTimerAddr → OsTimer} {es : List (SchedEvent Empty Unit OsTimerOp)}
    {t : Sched TriggerStmt OsTimerAddr TriggerState}
    (hC : Along triggerStep (fun s e => ¬ StopsPending s e) (triggerStart next timers) es)
    (hrun : run triggerStep (triggerStart next timers) es = some t) :
    (∀ c ∈ t.state.calls, ¬ StoppedSince c.timer c.history) ∧
      ∀ e, StopsPending t e → ∃ es' t', (∀ e' ∈ es', e' = .dispatch ∨ e' = .stmt ()) ∧
        run triggerStep t (e :: es') = some t' ∧
        ∃ c ∈ t'.state.calls, StoppedSince c.timer c.history := by
  have hinv := triggerInv_run hC hrun
  refine ⟨hinv.calls, fun e he => ?_⟩
  cases e with
  | interrupt op =>
      obtain ⟨timer, hstops, hpending⟩ := he
      obtain ⟨timers', posted, hisr, -, -⟩ := triggerIsr_eq op hinv.timers
      obtain ⟨es', t', hes', hrun', c, hc, htimer, hhistory⟩ :=
        run_pending { t.state with timers := timers', history := t.state.history ++ [op] }
          (hpending.imp_left (List.mem_append_left posted))
      refine ⟨es', t', hes', run_cons_eq_some.mpr ⟨_, ?_, hrun'⟩, c, hc, ?_⟩
      · simp [triggerStep, schedStep, hisr]
      · rw [hhistory, htimer]
        exact ⟨t.state.history, op, [], rfl, hstops, by simp⟩
  | call p => exact p.elim
  | dispatch => exact he.elim
  | stmt answer => exact he.elim

/-- A timer whose fields are zero. -/
def OsTimer.zeroed : OsTimer := ⟨0, 0, 0, 0, false, .typeSingle⟩

/-- A timer that fires and is stopped behind its callback. -/
theorem no_callback_after_stop_single :
    ∃ t, run triggerStep (triggerStart (fun _ => none) fun _ => .zeroed)
        [.interrupt (.init ⟨1, by decide⟩ 0 0), .interrupt (.start ⟨1, by decide⟩ 1 .typeSingle),
          .interrupt .tick, .dispatch, .stmt (), .interrupt (.stop ⟨1, by decide⟩)] = some t ∧
      t.state.calls.length = 1 ∧ ∀ c ∈ t.state.calls, ¬ StoppedSince c.timer c.history := by
  have hC : Along triggerStep (fun s e => ¬ StopsPending s e)
      (triggerStart (fun _ => none) fun _ => .zeroed)
      [.interrupt (.init ⟨1, by decide⟩ 0 0), .interrupt (.start ⟨1, by decide⟩ 1 .typeSingle),
          .interrupt .tick, .dispatch, .stmt (), .interrupt (.stop ⟨1, by decide⟩)] := by
    refine .cons ?_ rfl (.cons ?_ rfl (.cons ?_ rfl (.cons id rfl (.cons id rfl
      (.cons ?_ rfl trivial)))))
    · rintro ⟨t, h | h, -⟩ <;> cases h
    · rintro ⟨t, h | h, -⟩ <;> cases h
    · rintro ⟨t, h | h, -⟩ <;> cases h
    · rintro ⟨t, -, h | h⟩ <;> cases h
  exact ⟨_, rfl, rfl, (no_callback_after_stop hC rfl).1⟩

/-- A timer that fires and is stopped before its message is taken from the queue. -/
theorem callback_after_stop :
    ∃ t, run triggerStep (triggerStart (fun _ => none) fun _ => .zeroed)
        [.interrupt (.init ⟨1, by decide⟩ 0 0), .interrupt (.start ⟨1, by decide⟩ 1 .typeSingle),
          .interrupt .tick, .interrupt (.stop ⟨1, by decide⟩), .dispatch, .stmt ()] = some t ∧
      ∃ c ∈ t.state.calls, StoppedSince c.timer c.history :=
  ⟨_, rfl, _, List.mem_cons_self, [_, _, _], _, [], rfl, Or.inl rfl, by simp⟩

end Fr5080
