import Fr5080.Embedded.Run

/-!
# Embedded.Task

A task whose blocks of statements can be interrupted between any two
statements.  The statements still to be executed are part of the state, so a
run is a run of `taskStep` in the sense of `Embedded.Run`: the task is called
when it is idle, executes its next statement, or an interrupt handler runs to
completion.

* `execBlock` — a block that nothing interrupts;
* `run_inv_of_outline` — the rule for an outline, an assertion for every point
  of the code;
* `EndsIn` — the weakest such assertion, given what interrupts may do at each
  point (`rely`), and `run_endsIn`, the rule for it.
-/

namespace Embedded

/-- A task: the statements still to be executed, and the state it shares with
the interrupt handler. -/
structure TaskState (κ σ : Type*) where
  code : List κ
  state : σ

/-- What can happen next: the idle task is called, it executes a statement, or
an interrupt is handled. -/
inductive TaskEvent (π ε : Type*)
  | call (p : π)
  | stmt
  | interrupt (e : ε)

variable {κ σ π ε : Type*}

section

/- `exec c s` is the state after statement `c`, and whether the block goes on;
`isr` is the interrupt handler, `program` the code of each function. -/

variable (exec : κ → σ → σ × Bool) (isr : ε → σ → σ) (program : π → List κ)

/-- A block executed without interrupts. -/
def execBlock : List κ → σ → σ
  | [], s => s
  | c :: cs, s => if (exec c s).2 then execBlock cs (exec c s).1 else (exec c s).1

/-- One step of a task. -/
def taskStep (t : TaskState κ σ) : TaskEvent π ε → Option (TaskState κ σ)
  | .call p => match t.code with
    | [] => some ⟨program p, t.state⟩
    | _ :: _ => none
  | .stmt => match t.code with
    | [] => none
    | c :: cs => some ⟨if (exec c t.state).2 then cs else [], (exec c t.state).1⟩
  | .interrupt e => some ⟨t.code, isr e t.state⟩

end

variable {exec : κ → σ → σ × Bool} {isr : ε → σ → σ} {program : π → List κ}

/-- All that a step can do. -/
theorem taskStep_cases {t t' : TaskState κ σ} {e : TaskEvent π ε}
    (h : taskStep exec isr program t e = some t') :
    (∃ p, e = .call p ∧ t.code = [] ∧ t' = ⟨program p, t.state⟩) ∨
      (∃ c cs, e = .stmt ∧ t.code = c :: cs ∧
        t' = ⟨if (exec c t.state).2 then cs else [], (exec c t.state).1⟩) ∨
      ∃ i, e = .interrupt i ∧ t' = ⟨t.code, isr i t.state⟩ := by
  obtain ⟨code, s⟩ := t
  cases e with
  | call p =>
      cases code with
      | nil => exact Or.inl ⟨p, rfl, rfl, (Option.some.inj h).symm⟩
      | cons c cs => cases h
  | stmt =>
      cases code with
      | nil => cases h
      | cons c cs => exact Or.inr (Or.inl ⟨c, cs, rfl, rfl, (Option.some.inj h).symm⟩)
  | interrupt i => exact Or.inr (Or.inr ⟨i, rfl, (Option.some.inj h).symm⟩)

/-- Two blocks that are not left early are executed one after the other. -/
theorem execBlock_append (h : ∀ c s, (exec c s).2 = true) (cs ds : List κ) (s : σ) :
    execBlock exec (cs ++ ds) s = execBlock exec ds (execBlock exec cs s) := by
  induction cs generalizing s with
  | nil => rfl
  | cons c cs ih => simp [execBlock, h, ih]

/-! ## outlines -/

/-- **Outline rule**: `A cs` is the assertion at the point where `cs` remains to
be executed.  If calls enter it, statements lead from one assertion to the
next, and interrupts keep it wherever `C` admits them, it holds throughout. -/
theorem run_inv_of_outline {A : List κ → σ → Prop} {C : TaskState κ σ → TaskEvent π ε → Prop}
    (hcall : ∀ p s, A [] s → A (program p) s)
    (hstmt : ∀ c cs s, A (c :: cs) s → A (if (exec c s).2 then cs else []) (exec c s).1)
    (hisr : ∀ cs s e, C ⟨cs, s⟩ (.interrupt e) → A cs s → A cs (isr e s))
    {t t' : TaskState κ σ} {es : List (TaskEvent π ε)} (h : A t.code t.state)
    (hC : Along (taskStep exec isr program) C t es)
    (hrun : run (taskStep exec isr program) t es = some t') : A t'.code t'.state := by
  refine run_inv_of_along (I := fun t => A t.code t.state) ?_ h hC hrun
  intro t1 e t2 hA hCe hstep
  obtain ⟨p, rfl, hcode, rfl⟩ | ⟨c, cs, rfl, hcode, rfl⟩ | ⟨i, rfl, rfl⟩ := taskStep_cases hstep
  · rw [hcode] at hA
    exact hcall p _ hA
  · rw [hcode] at hA
    exact hstmt c cs _ hA
  · exact hisr _ _ i hCe hA

/-! ## what interrupts may do -/

/-- With `cs` remaining, the code ends in `Q` — at its end or where it is left —
whatever interrupts change within `rely` before each statement. -/
def EndsIn (exec : κ → σ → σ × Bool) (rely : List κ → σ → σ → Prop) (Q : σ → Prop) :
    List κ → σ → Prop
  | [], s => Q s
  | c :: cs, s => ∀ s', rely (c :: cs) s s' →
      if (exec c s').2 then EndsIn exec rely Q cs (exec c s').1 else Q (exec c s').1

variable {rely : List κ → σ → σ → Prop} {Q : σ → Prop}

/-- One statement: what holds after the interrupts before it leads on. -/
theorem endsIn_cons {P : σ → Prop} {c : κ} {cs : List κ} {s : σ}
    (hstable : ∀ s', rely (c :: cs) s s' → P s')
    (hgo : ∀ s', P s' → (exec c s').2 = true → EndsIn exec rely Q cs (exec c s').1)
    (hleave : ∀ s', P s' → (exec c s').2 = false → Q (exec c s').1) :
    EndsIn exec rely Q (c :: cs) s := by
  intro s' hs'
  have hP := hstable s' hs'
  cases hnext : (exec c s').2 with
  | true => exact hgo s' hP hnext
  | false => exact hleave s' hP hnext

/-- Statements that keep `P`, where interrupts keep it too, before code that
needs `P`. -/
theorem endsIn_append {P : σ → Prop} (before : List κ) {rest : List κ}
    (hstable : ∀ c cs s s', (c :: cs) <:+ before → rely ((c :: cs) ++ rest) s s' → P s → P s')
    (hkeep : ∀ c ∈ before, ∀ s, P s → P (exec c s).1)
    (hleave : ∀ c ∈ before, ∀ s, P s → (exec c s).2 = false → Q (exec c s).1)
    (hrest : ∀ s, P s → EndsIn exec rely Q rest s) {s : σ} (h : P s) :
    EndsIn exec rely Q (before ++ rest) s := by
  induction before generalizing s with
  | nil => exact hrest s h
  | cons c cs ih =>
      refine endsIn_cons (P := P) (fun s' hs' => hstable c cs s s' List.suffix_rfl hs' h) ?_
        (hleave c List.mem_cons_self)
      intro s' hs' _
      refine ih ?_ (fun c' hc' => hkeep c' (List.mem_cons_of_mem c hc'))
        (fun c' hc' => hleave c' (List.mem_cons_of_mem c hc')) (hkeep c List.mem_cons_self s' hs')
      intro c' cs' s1 s2 hsuffix
      exact hstable c' cs' s1 s2 (hsuffix.trans (List.suffix_cons c cs))

/-- A block as a part of a language with more statements. -/
theorem endsIn_map {κ' : Type*} {exec' : κ' → σ → σ × Bool} {rely' : List κ' → σ → σ → Prop}
    {f : κ → κ'} (hexec : ∀ c s, exec' (f c) s = exec c s)
    (hrely : ∀ cs s s', rely' (cs.map f) s s' → rely cs s s') {cs : List κ} {s : σ}
    (h : EndsIn exec rely Q cs s) : EndsIn exec' rely' Q (cs.map f) s := by
  induction cs generalizing s with
  | nil => exact h
  | cons c cs ih =>
      intro s' hs'
      have hgo := h s' (hrely (c :: cs) s s' hs')
      rw [hexec]
      cases hnext : (exec c s').2 with
      | true =>
          rw [hnext] at hgo
          exact ih hgo
      | false =>
          rw [hnext] at hgo
          exact hgo

/-- **Rely rule**: if every function of the program leads from `Q` to `Q` under
`rely`, a run whose interrupts stay within `rely` is in `Q` whenever the task
is idle. -/
theorem run_endsIn {C : TaskState κ σ → TaskEvent π ε → Prop}
    (htrans : ∀ cs s s' s'', rely cs s s' → rely cs s' s'' → rely cs s s'')
    (hrely : ∀ cs s e, C ⟨cs, s⟩ (.interrupt e) → rely cs s (isr e s))
    (hrefl : ∀ cs s, rely cs s s)
    (hidle : ∀ s e, C ⟨[], s⟩ (.interrupt e) → Q s → Q (isr e s))
    (hprogram : ∀ p s, Q s → EndsIn exec rely Q (program p) s)
    {t t' : TaskState κ σ} {es : List (TaskEvent π ε)} (h : EndsIn exec rely Q t.code t.state)
    (hC : Along (taskStep exec isr program) C t es)
    (hrun : run (taskStep exec isr program) t es = some t') (hdone : t'.code = []) :
    Q t'.state := by
  have hend := run_inv_of_outline (A := EndsIn exec rely Q) hprogram ?_ ?_ h hC hrun
  · rw [hdone] at hend
    exact hend
  · intro c cs s hs
    have hgo := hs s (hrefl _ s)
    cases hnext : (exec c s).2 with
    | true => rw [hnext] at hgo; exact hgo
    | false => rw [hnext] at hgo; exact hgo
  · intro cs s e hCe hs
    cases cs with
    | nil => exact hidle s e hCe hs
    | cons c cs => exact fun s' hs' => hs s' (htrans _ _ _ _ (hrely _ s e hCe) hs')

end Embedded
