import Mathlib.Data.List.Forall2
import Mathlib.Data.List.Induction

/-!
# Embedded.Run

Runs of a deterministic, partial step function.  A system is
`step : σ → ε → Option σ`; `none` means that the event is not possible in the
state (a guard of the environment fails, or the program faults there).

* `run_inv` — what every step keeps holds after every run;
* `run_inv_of_along` — the same for the runs whose steps all meet a condition;
* `run_inv_of_stays` — and for those whose states do;
* `run_total_of_along` — a run is possible when all its steps are;
* `run_undamaged_iff_along` — when such a condition is exact;
* `run_good_iff_along` — when it is exact for all the states on the way;
* `run_lowest` — a variable that keeps the lowest value of another;
* `run_sim` — lock-step simulation between two systems.
-/

namespace Embedded

variable {σ τ ε φ : Type*}

/-- The state after the events of a run, one step each. -/
def run (step : σ → ε → Option σ) : σ → List ε → Option σ
  | s, [] => some s
  | s, e :: es => match step s e with
    | some s' => run step s' es
    | none => none

/-- A run of at least one event starts with a step. -/
theorem run_cons_eq_some {step : σ → ε → Option σ} {s t : σ} {e : ε} {es : List ε} :
    run step s (e :: es) = some t ↔ ∃ s', step s e = some s' ∧ run step s' es = some t := by
  simp only [run]
  cases step s e with
  | none => simp
  | some s' => simp

/-- A run in two parts. -/
theorem run_append_eq_some {step : σ → ε → Option σ} {s t : σ} {es es' : List ε} :
    run step s (es ++ es') = some t ↔
      ∃ s', run step s es = some s' ∧ run step s' es' = some t := by
  induction es generalizing s with
  | nil => simp [run]
  | cons e es ih =>
      rw [List.cons_append, run_cons_eq_some]
      simp only [ih, run_cons_eq_some]
      grind

/-- **Invariant rule**: what holds at the start and is kept by every step
holds after every run. -/
theorem run_inv {step : σ → ε → Option σ} {I : σ → Prop}
    (hstep : ∀ s e s', I s → step s e = some s' → I s')
    {s t : σ} {es : List ε} (hs : I s) (h : run step s es = some t) : I t := by
  induction es generalizing s with
  | nil => cases h; exact hs
  | cons e es ih =>
      obtain ⟨s', h1, h2⟩ := run_cons_eq_some.mp h
      exact ih (hstep s e s' hs h1) h2

/-- The invariant rule for runs whose events all satisfy `P`. -/
theorem run_inv_of_forall {step : σ → ε → Option σ} {P : ε → Prop} {I : σ → Prop}
    (hstep : ∀ s e s', I s → P e → step s e = some s' → I s')
    {s t : σ} {es : List ε} (hs : I s) (hP : ∀ e ∈ es, P e) (h : run step s es = some t) :
    I t := by
  induction es generalizing s with
  | nil => cases h; exact hs
  | cons e es ih =>
      obtain ⟨s', h1, h2⟩ := run_cons_eq_some.mp h
      exact ih (hstep s e s' hs (hP e List.mem_cons_self) h1)
        (fun e' he' => hP e' (List.mem_cons_of_mem e he')) h2

/-! ## runs under a condition -/

/-- Every step of the run meets the condition `C` in the state it starts from. -/
def Along (step : σ → ε → Option σ) (C : σ → ε → Prop) : σ → List ε → Prop
  | _, [] => True
  | s, e :: es => C s e ∧ ∀ s', step s e = some s' → Along step C s' es

/-- A step that meets the condition, before such a run. -/
theorem Along.cons {step : σ → ε → Option σ} {C : σ → ε → Prop} {s s' : σ} {e : ε} {es : List ε}
    (hC : C s e) (hstep : step s e = some s') (h : Along step C s' es) :
    Along step C s (e :: es) := by
  refine ⟨hC, fun s'' hstep' => ?_⟩
  cases hstep.symm.trans hstep'
  exact h

/-- A condition that can be decided in each state can be decided along a run. -/
instance Along.decidable {step : σ → ε → Option σ} {C : σ → ε → Prop}
    [∀ s e, Decidable (C s e)] : ∀ s es, Decidable (Along step C s es)
  | _, [] => isTrue trivial
  | s, e :: es =>
      match h : step s e with
      | some s' =>
          haveI : Decidable (Along step C s' es) := Along.decidable s' es
          decidable_of_iff (C s e ∧ Along step C s' es) (by simp [Along, h])
      | none => decidable_of_iff (C s e) (by simp [Along, h])

/-- **Invariant rule under a condition**: a step that meets `C` keeps `I`, so
a run whose steps all meet `C` does. -/
theorem run_inv_of_along {step : σ → ε → Option σ} {C : σ → ε → Prop} {I : σ → Prop}
    (hstep : ∀ s e s', I s → C s e → step s e = some s' → I s')
    {s t : σ} {es : List ε} (hs : I s) (hC : Along step C s es)
    (h : run step s es = some t) : I t := by
  induction es generalizing s with
  | nil => cases h; exact hs
  | cons e es ih =>
      obtain ⟨s', h1, h2⟩ := run_cons_eq_some.mp h
      exact ih (hstep s e s' hs hC.1 h1) (hC.2 s' h1) h2

/-- **Progress rule**: where steps that meet `C` are possible and keep the invariant, so is a
run of them. -/
theorem run_total_of_along {step : σ → ε → Option σ} {C : σ → ε → Prop} {I : σ → Prop}
    (hstep : ∀ s e, I s → C s e → ∃ s', step s e = some s' ∧ I s')
    {s : σ} {es : List ε} (hs : I s) (hC : Along step C s es) :
    ∃ t, run step s es = some t ∧ I t := by
  induction es generalizing s with
  | nil => exact ⟨s, rfl, hs⟩
  | cons e es ih =>
      obtain ⟨s', h1, hs'⟩ := hstep s e hs hC.1
      obtain ⟨t, h2, ht⟩ := ih hs' (hC.2 s' h1)
      exact ⟨t, run_cons_eq_some.mpr ⟨s', h1, h2⟩, ht⟩

/-- A condition along a run in two parts. -/
theorem along_append {step : σ → ε → Option σ} {C : σ → ε → Prop} {s : σ} {es es' : List ε} :
    Along step C s (es ++ es') ↔
      Along step C s es ∧ ∀ t, run step s es = some t → Along step C t es' := by
  induction es generalizing s with
  | nil => simp [Along, run]
  | cons e es ih =>
      simp only [List.cons_append, Along, run_cons_eq_some, ih, and_assoc]
      grind

/-- **Lowest value rule**: from its start (`R`) on, `g` keeps the lowest value of `f`. Then it is
the lowest of all states on the way, and that of one of them. -/
theorem run_lowest {step : σ → ε → Option σ} {C : σ → ε → Prop} {I R : σ → Prop} {f g : σ → Nat}
    (hkeep : ∀ s e s', I s → C s e → step s e = some s' → I s')
    (hfirst : ∀ s e s', I s → C s e → step s e = some s' → ¬ R s → R s' → g s' = f s')
    (hnext : ∀ s e s', I s → C s e → step s e = some s' → R s →
      R s' ∧ g s' = min (g s) (f s'))
    {s t : σ} {es : List ε} (hs : I s) (hR : ¬ R s) (hC : Along step C s es)
    (h : run step s es = some t) :
    (∀ es1 t1, es1 <+: es → run step s es1 = some t1 → R t1 → R t ∧ g t ≤ f t1) ∧
      (R t → ∃ es1 t1, es1 <+: es ∧ run step s es1 = some t1 ∧ R t1 ∧ f t1 = g t) := by
  induction es using List.reverseRecOn generalizing t with
  | nil =>
      cases h
      refine ⟨fun es1 t1 hpre h1 hR1 => ?_, fun hR' => absurd hR' hR⟩
      rw [List.prefix_nil.mp hpre] at h1
      cases h1
      exact absurd hR1 hR
  | append_singleton es e ih =>
      obtain ⟨s', h1, h2⟩ := run_append_eq_some.mp h
      obtain ⟨t', hstep, h3⟩ := run_cons_eq_some.mp h2
      cases h3
      obtain ⟨hCs, hCe⟩ := along_append.mp hC
      have hs' : I s' := run_inv_of_along hkeep hs hCs h1
      obtain ⟨hall, hsome⟩ := ih hCs h1
      have hCe := (hCe s' h1).1
      by_cases hR' : R s'
      · obtain ⟨hRt, hg⟩ := hnext s' e t hs' hCe hstep hR'
        refine ⟨fun es1 t1 hpre hrun hR1 => ⟨hRt, ?_⟩, fun _ => ?_⟩
        · rw [hg]
          obtain rfl | hpre := List.prefix_concat_iff.mp hpre
          · cases h.symm.trans hrun
            exact Nat.min_le_right _ _
          · exact Nat.le_trans (Nat.min_le_left _ _) (hall es1 t1 hpre hrun hR1).2
        · obtain hle | hle := Nat.le_total (g s') (f t)
          · obtain ⟨es1, t1, hpre, hrun, hR1, heq⟩ := hsome hR'
            refine ⟨es1, t1, hpre.trans (List.prefix_append es [e]), hrun, hR1, ?_⟩
            rw [hg, heq, Nat.min_eq_left hle]
          · exact ⟨es ++ [e], t, List.prefix_refl _, h, hRt, by rw [hg, Nat.min_eq_right hle]⟩
      · refine ⟨fun es1 t1 hpre hrun hR1 => ?_, fun hRt => ?_⟩
        · obtain rfl | hpre := List.prefix_concat_iff.mp hpre
          · cases h.symm.trans hrun
            exact ⟨hR1, Nat.le_of_eq (hfirst s' e t hs' hCe hstep hR' hR1)⟩
          · exact absurd (hall es1 t1 hpre hrun hR1).1 hR'
        · exact ⟨es ++ [e], t, List.prefix_refl _, h, hRt,
            (hfirst s' e t hs' hCe hstep hR' hRt).symm⟩

/-- Every state that the run leads to meets `G`. -/
def Stays (step : σ → ε → Option σ) (G : σ → Prop) : σ → List ε → Prop :=
  Along step fun s e => ∀ s' ∈ step s e, G s'

instance Stays.decidable {step : σ → ε → Option σ} {G : σ → Prop} [DecidablePred G] (s : σ)
    (es : List ε) : Decidable (Stays step G s es) :=
  inferInstanceAs (Decidable (Along step _ s es))

/-- The invariant rule for runs whose states all meet `G`. -/
theorem run_inv_of_stays {step : σ → ε → Option σ} {G I : σ → Prop}
    (hstep : ∀ s e s', I s → G s → G s' → step s e = some s' → I s')
    {s t : σ} {es : List ε} (hs : I s) (hG : G s) (hall : Stays step G s es)
    (h : run step s es = some t) : I t ∧ G t := by
  refine run_inv_of_along (I := fun s => I s ∧ G s) ?_ ⟨hs, hG⟩ hall h
  rintro s e s' ⟨hI, hG⟩ hall hrun
  have hG' := hall s' hrun
  exact ⟨hstep s e s' hI hG hG' hrun, hG'⟩

/-- What the invariant grants for events that satisfy `P` holds along the run. -/
theorem along_of_forall {step : σ → ε → Option σ} {C : σ → ε → Prop} {P : ε → Prop}
    {I : σ → Prop} (hstep : ∀ s e s', I s → P e → step s e = some s' → I s')
    (hC : ∀ s e, I s → P e → C s e) {s : σ} {es : List ε} (hs : I s) (hP : ∀ e ∈ es, P e) :
    Along step C s es := by
  induction es generalizing s with
  | nil => trivial
  | cons e es ih =>
      have he := hP e List.mem_cons_self
      exact ⟨hC s e hs he, fun s' h1 =>
        ih (hstep s e s' hs he h1) fun e' he' => hP e' (List.mem_cons_of_mem e he')⟩

/-- **Exact condition rule**: `C` keeps the invariant, and a step without it
does damage (`D`) that no later step undoes.  Then a run is undamaged exactly when
all its steps met `C`. -/
theorem run_undamaged_iff_along {step : σ → ε → Option σ} {C : σ → ε → Prop}
    {I D : σ → Prop}
    (hkeep : ∀ s e s', I s → C s e → step s e = some s' → I s')
    (hbreak : ∀ s e s', I s → ¬ C s e → step s e = some s' → D s')
    (hstay : ∀ s e s', D s → step s e = some s' → D s')
    (hnot : ∀ s, I s → ¬ D s)
    {s t : σ} {es : List ε} (hs : I s) (h : run step s es = some t) :
    ¬ D t ↔ Along step C s es := by
  induction es generalizing s with
  | nil =>
      cases h
      exact iff_of_true (hnot _ hs) trivial
  | cons e es ih =>
      obtain ⟨s', h1, h2⟩ := run_cons_eq_some.mp h
      by_cases hC : C s e
      · rw [ih (hkeep s e s' hs hC h1) h2]
        constructor
        · intro hrest
          refine ⟨hC, fun s'' h1' => ?_⟩
          cases h1.symm.trans h1'
          exact hrest
        · intro hrest
          exact hrest.2 s' h1
      · have hdamaged : D t := run_inv hstay (hbreak s e s' hs hC h1) h2
        exact iff_of_false (fun hn => hn hdamaged) (fun hrest => hC hrest.1)

/-- **First violation rule**: a step that meets `C` keeps the invariant, which tells that
the state is good (`P`); a step without it leads to a state that is not.  Then all states on
the way are good exactly when all steps met `C`.  The rule is for runs whose steps all meet
`D`. -/
theorem run_good_iff_along {step : σ → ε → Option σ} {C D : σ → ε → Prop} {I P : σ → Prop}
    (hgood : ∀ s, I s → P s)
    (hkeep : ∀ s e s', I s → D s e → C s e → step s e = some s' → I s')
    (hbreak : ∀ s e s', I s → D s e → ¬ C s e → step s e = some s' → ¬ P s')
    {s t : σ} {es : List ε} (hs : I s) (hD : Along step D s es) (h : run step s es = some t) :
    (∀ es1 t1, es1 <+: es → run step s es1 = some t1 → P t1) ↔ Along step C s es := by
  induction es generalizing s with
  | nil =>
      refine iff_of_true (fun es1 t1 hpre h1 => ?_) trivial
      rw [List.prefix_nil.mp hpre] at h1
      cases h1
      exact hgood s hs
  | cons e es ih =>
      obtain ⟨s', h1, h2⟩ := run_cons_eq_some.mp h
      obtain ⟨hDe, hDrest⟩ := hD
      constructor
      · intro hall
        have hP : P s' := hall [e] s' (List.prefix_append [e] es)
          (run_cons_eq_some.mpr ⟨s', h1, rfl⟩)
        have hC : C s e := not_not.mp fun hC => hbreak s e s' hs hDe hC h1 hP
        refine ⟨hC, fun s'' h1' => ?_⟩
        cases h1.symm.trans h1'
        refine (ih (hkeep s e s' hs hDe hC h1) (hDrest s' h1) h2).mp fun es1 t1 hpre hrun => ?_
        exact hall (e :: es1) t1 (List.cons_prefix_cons.mpr ⟨rfl, hpre⟩)
          (run_cons_eq_some.mpr ⟨s', h1, hrun⟩)
      · rintro ⟨hC, hrest⟩ es1 t1 hpre hrun
        cases es1 with
        | nil => cases hrun; exact hgood s hs
        | cons e1 es1 =>
            obtain ⟨rfl, hpre'⟩ := List.cons_prefix_cons.mp hpre
            obtain ⟨s'', h1', hrun'⟩ := run_cons_eq_some.mp hrun
            cases h1.symm.trans h1'
            have hs' := hkeep s e1 s' hs hDe hC h1
            exact (ih hs' (hDrest s' h1) h2).mpr (hrest s' h1) es1 t1 hpre' hrun'

/-- The first violation rule for a property that is an invariant itself. -/
theorem run_prefixes_iff_along {step : σ → ε → Option σ} {C : σ → ε → Prop} {I : σ → Prop}
    (hexact : ∀ s e s', I s → step s e = some s' → (I s' ↔ C s e))
    {s t : σ} {es : List ε} (hs : I s) (h : run step s es = some t) :
    (∀ es1 t1, es1 <+: es → run step s es1 = some t1 → I t1) ↔ Along step C s es := by
  have hall : Along step (fun _ _ => True) s es :=
    along_of_forall (P := fun _ => True) (I := fun _ => True) (fun _ _ _ _ _ _ => trivial)
      (fun _ _ _ _ => trivial) trivial (fun _ _ => trivial)
  exact run_good_iff_along (fun _ => id)
    (fun s e s' hs _ hC hstep => (hexact s e s' hs hstep).mpr hC)
    (fun s e s' hs _ hC hstep hs' => hC ((hexact s e s' hs hstep).mp hs')) hs hall h

/-! ## simulation -/

/-- **Lock-step simulation**: two systems fed with related events stay related,
as long as the steps of the second one meet `C`. -/
theorem run_sim {step : σ → ε → Option σ} {step' : τ → φ → Option τ} {C : τ → φ → Prop}
    {R : σ → τ → Prop} {E : ε → φ → Prop}
    (hstep : ∀ s t e f s', R s t → E e f → C t f → step s e = some s' →
      ∃ t', step' t f = some t' ∧ R s' t')
    {s s' : σ} {t : τ} {es : List ε} {fs : List φ} (hR : R s t) (hE : List.Forall₂ E es fs)
    (hC : Along step' C t fs) (h : run step s es = some s') :
    ∃ t', run step' t fs = some t' ∧ R s' t' := by
  induction hE generalizing s t with
  | nil => cases h; exact ⟨t, rfl, hR⟩
  | cons hef _ ih =>
      obtain ⟨s1, h1, h2⟩ := run_cons_eq_some.mp h
      obtain ⟨t1, ht1, hR1⟩ := hstep _ _ _ _ _ hR hef hC.1 h1
      obtain ⟨t', ht', hR'⟩ := ih hR1 (hC.2 t1 ht1) h2
      exact ⟨t', run_cons_eq_some.mpr ⟨t1, ht1, ht'⟩, hR'⟩

end Embedded
