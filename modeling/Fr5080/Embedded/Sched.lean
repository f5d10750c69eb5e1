import Fr5080.Embedded.Run

/-!
# Embedded.Sched

A processor that serves one FIFO queue of messages.  The handler of a message
is code of statements; when it is done the next message is taken.  Between any
two statements an interrupt handler may run to completion, and both sides may
post further messages.  A statement takes an answer from its environment (an
allocation that fails, a peripheral that is read), and has no step where the
program faults.

Besides the handlers of its messages, an idle processor runs the code of a
function that is called from outside of the model (`call`).

* `Executes` — a handler that nothing interrupts;
* `run_inv_of_sched` — the rule for an assertion on the code still to be
  executed, the messages pending and the state.
-/

namespace Embedded

/-- The statements still to be executed, the messages pending and the state
shared with the interrupt handler. -/
structure Sched (κ μ σ : Type*) where
  code : List κ
  queue : List μ
  state : σ

/-- What a statement leaves: the state, the messages it posts and the code to
be executed before the rest; `none` leaves the handler. -/
structure Effect (κ μ σ : Type*) where
  state : σ
  posted : List μ
  next : Option (List κ)

/-- What can happen next. -/
inductive SchedEvent (π α ε : Type*)
  | call (p : π)
  | dispatch
  | stmt (answer : α)
  | interrupt (e : ε)

variable {κ μ σ π α ε : Type*}

/-- The code after a statement in front of `cs`. -/
def Effect.code (r : Effect κ μ σ) (cs : List κ) : List κ :=
  match r.next with
  | some next => next ++ cs
  | none => []

/-- The statement is done, the code goes on. -/
def Effect.goOn (s : σ) : Effect κ μ σ := ⟨s, [], some []⟩

section

/- `program` is the code of the functions called, `handler` that of the
messages, `exec` executes one statement and `isr` the interrupt handler. -/

variable (program : π → List κ) (handler : μ → List κ)
  (exec : κ → α → σ → Option (Effect κ μ σ)) (isr : ε → σ → Option (σ × List μ))

/-- One step of the processor. -/
def schedStep (t : Sched κ μ σ) : SchedEvent π α ε → Option (Sched κ μ σ)
  | .call p => match t.code with
    | [] => some { t with code := program p }
    | _ :: _ => none
  | .dispatch => match t.code, t.queue with
    | [], m :: queue => some ⟨handler m, queue, t.state⟩
    | _, _ => none
  | .stmt answer => match t.code with
    | [] => none
    | c :: cs => match exec c answer t.state with
      | some r => some ⟨r.code cs, t.queue ++ r.posted, r.state⟩
      | none => none
  | .interrupt e => match isr e t.state with
    | some (s, posted) => some ⟨t.code, t.queue ++ posted, s⟩
    | none => none

end

/-- The code of `t`, executed without an interrupt and every statement answered with `a`,
ends with messages and a state that satisfy `Q`. -/
def Executes (step : Sched κ μ σ → SchedEvent π α ε → Option (Sched κ μ σ)) (a : α)
    (t : Sched κ μ σ) (Q : List μ → σ → Prop) : Prop :=
  ∃ n queue s, run step t (List.replicate n (.stmt a)) = some ⟨[], queue, s⟩ ∧ Q queue s

section

variable {step : Sched κ μ σ → SchedEvent π α ε → Option (Sched κ μ σ)} {a : α}
  {Q : List μ → σ → Prop}

theorem Executes.done {queue : List μ} {s : σ} (h : Q queue s) :
    Executes step a ⟨[], queue, s⟩ Q := ⟨0, queue, s, rfl, h⟩

/-- The next statement, and the code behind it. -/
theorem Executes.stmt {t t1 : Sched κ μ σ} (hstep : step t (.stmt a) = some t1)
    (h : Executes step a t1 Q) : Executes step a t Q := by
  obtain ⟨n, queue, s, hrun, hQ⟩ := h
  exact ⟨n + 1, queue, s, run_cons_eq_some.mpr ⟨t1, hstep, hrun⟩, hQ⟩

end

variable {program : π → List κ} {handler : μ → List κ}
  {exec : κ → α → σ → Option (Effect κ μ σ)} {isr : ε → σ → Option (σ × List μ)}

/-- There is only one execution: what is known of its end can be put together. -/
theorem Executes.and {a : α} {t : Sched κ μ σ} {P Q : List μ → σ → Prop}
    (hP : Executes (schedStep program handler exec isr) a t P)
    (hQ : Executes (schedStep program handler exec isr) a t Q) :
    ∃ queue s, P queue s ∧ Q queue s := by
  obtain ⟨n, queue, s, hrun, hP⟩ := hP
  obtain ⟨m, queue', s', hrun', hQ⟩ := hQ
  -- nothing can be executed behind the end
  have hend : ∀ {queue : List μ} {s : σ} {k : Nat} {t : Sched κ μ σ},
      run (schedStep program handler exec isr) ⟨[], queue, s⟩ (List.replicate k (.stmt a)) =
        some t → t = ⟨[], queue, s⟩ := by
    intro queue s k t h
    cases k with
    | zero => exact (Option.some.inj h).symm
    | succ k => cases h
  have hsame : (⟨[], queue, s⟩ : Sched κ μ σ) = ⟨[], queue', s'⟩ := by
    obtain hle | hle := Nat.le_total n m
    · obtain ⟨k, rfl⟩ := Nat.exists_eq_add_of_le hle
      rw [List.replicate_add, run_append_eq_some] at hrun'
      obtain ⟨t1, h1, h2⟩ := hrun'
      cases h1.symm.trans hrun
      exact (hend h2).symm
    · obtain ⟨k, rfl⟩ := Nat.exists_eq_add_of_le hle
      rw [List.replicate_add, run_append_eq_some] at hrun
      obtain ⟨t1, h1, h2⟩ := hrun
      cases h1.symm.trans hrun'
      exact hend h2
  cases hsame
  exact ⟨queue, s, hP, hQ⟩

/-- All that a step can do. -/
theorem schedStep_cases {t t' : Sched κ μ σ} {e : SchedEvent π α ε}
    (h : schedStep program handler exec isr t e = some t') :
    (∃ p, e = .call p ∧ t.code = [] ∧ t' = ⟨program p, t.queue, t.state⟩) ∨
      (∃ m queue, e = .dispatch ∧ t.code = [] ∧ t.queue = m :: queue ∧
        t' = ⟨handler m, queue, t.state⟩) ∨
      (∃ c cs a r, e = .stmt a ∧ t.code = c :: cs ∧ exec c a t.state = some r ∧
        t' = ⟨r.code cs, t.queue ++ r.posted, r.state⟩) ∨
      ∃ i s posted, e = .interrupt i ∧ isr i t.state = some (s, posted) ∧
        t' = ⟨t.code, t.queue ++ posted, s⟩ := by
  obtain ⟨cs, queue, s⟩ := t
  cases e with
  | call p => cases cs <;> grind [schedStep]
  | dispatch => cases cs <;> cases queue <;> grind [schedStep]
  | stmt a => cases cs <;> grind [schedStep]
  | interrupt i => grind [schedStep]

/-- **Scheduler rule**: an assertion on the code, the messages pending and the
state that every kind of step keeps, as long as the steps meet `C`. -/
theorem run_inv_of_sched {A : List κ → List μ → σ → Prop}
    {C : Sched κ μ σ → SchedEvent π α ε → Prop}
    (hcall : ∀ p queue s, C ⟨[], queue, s⟩ (.call p) → A [] queue s → A (program p) queue s)
    (hdispatch : ∀ m queue s, C ⟨[], m :: queue, s⟩ .dispatch → A [] (m :: queue) s →
      A (handler m) queue s)
    (hstmt : ∀ c cs queue s a r, C ⟨c :: cs, queue, s⟩ (.stmt a) → A (c :: cs) queue s →
      exec c a s = some r → A (r.code cs) (queue ++ r.posted) r.state)
    (hisr : ∀ cs queue s e s' posted, C ⟨cs, queue, s⟩ (.interrupt e) → A cs queue s →
      isr e s = some (s', posted) → A cs (queue ++ posted) s')
    {t t' : Sched κ μ σ} {es : List (SchedEvent π α ε)} (h : A t.code t.queue t.state)
    (hC : Along (schedStep program handler exec isr) C t es)
    (hrun : run (schedStep program handler exec isr) t es = some t') :
    A t'.code t'.queue t'.state := by
  refine run_inv_of_along (I := fun t => A t.code t.queue t.state) ?_ h hC hrun
  intro t1 e t2 hA hCe hstep
  obtain ⟨cs, queue, s⟩ := t1
  obtain ⟨p, rfl, rfl, rfl⟩ | ⟨m, queue', rfl, rfl, rfl, rfl⟩ |
    ⟨c, cs', a, r, rfl, rfl, hexec, rfl⟩ | ⟨i, s', posted, rfl, hisr', rfl⟩ := schedStep_cases hstep
  · exact hcall p queue s hCe hA
  · exact hdispatch m queue' s hCe hA
  · exact hstmt c cs' queue s a r hCe hA hexec
  · exact hisr cs queue s i s' posted hCe hA hisr'

end Embedded
