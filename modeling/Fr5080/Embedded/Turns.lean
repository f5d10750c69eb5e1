import Mathlib.Data.List.Induction
import Mathlib.Data.List.Nodup

/-!
# Embedded.Turns

Items that take turns: a ring with a mark, which is at one of the items or at
the start.  The next turn is that of the item behind the mark, and the mark goes
there; a new item comes in before the mark.  When the item at the mark is taken out,
the mark goes back to the one before it.

Taking an item out and putting it in again can give it a turn before others, but not
for ever: while an item waits, no other has more than two turns (`TurnRun.Waiting.count_le`).
-/

namespace Embedded

/-- A ring with a mark: the items before it, of which the last one is at the mark, and those
behind it. -/
structure Turns (ι : Type*) where
  passed : List ι
  ahead : List ι
deriving DecidableEq, Repr

namespace Turns

variable {ι : Type*} {x y : ι} {t : Turns ι} {l : List ι}

/-- The items. -/
def items (t : Turns ι) : List ι := t.passed ++ t.ahead

/-- A new item comes in before the mark. -/
def add (x : ι) (t : Turns ι) : Turns ι :=
  match t.passed.getLast? with
  | none => ⟨[], t.ahead ++ [x]⟩
  | some i => ⟨t.passed.dropLast ++ [x, i], t.ahead⟩

/-- An item is taken out. -/
def drop [DecidableEq ι] (x : ι) (t : Turns ι) : Turns ι := ⟨t.passed.erase x, t.ahead.erase x⟩

/-- The item whose turn is next, and the mark there. -/
def next (t : Turns ι) : Option (ι × Turns ι) :=
  match t.ahead with
  | y :: l => some (y, ⟨t.passed ++ [y], l⟩)
  | [] =>
      match t.passed with
      | y :: l => some (y, ⟨[y], l⟩)
      | [] => none

@[simp] theorem add_nil : add x ⟨[], l⟩ = ⟨[], l ++ [x]⟩ := rfl

@[simp] theorem add_concat {p : List ι} : add x ⟨p ++ [y], l⟩ = ⟨p ++ [x, y], l⟩ := by
  simp [add]

/-- The new item is the only one that comes in. -/
theorem items_add_perm : (t.add x).items.Perm (x :: t.items) := by
  obtain ⟨p, a⟩ := t
  rcases List.eq_nil_or_concat' p with rfl | ⟨p, i, rfl⟩
  · simp [items]
  · simp only [add_concat, items, List.append_assoc]
    exact List.perm_middle

/-- Who is in after an addition. -/
theorem mem_items_add : y ∈ (t.add x).items ↔ y = x ∨ y ∈ t.items := by
  rw [items_add_perm.mem_iff, List.mem_cons]

/-- A newcomer is in once. -/
theorem nodup_add (ht : t.items.Nodup) (hx : x ∉ t.items) : (t.add x).items.Nodup :=
  items_add_perm.nodup_iff.mpr (List.nodup_cons.mpr ⟨hx, ht⟩)

/-- A turn changes the place of the mark only. -/
theorem items_next {t' : Turns ι} (h : t.next = some (y, t')) : t'.items = t.items := by
  obtain ⟨p, _ | ⟨z, a⟩⟩ := t
  · cases p with
    | nil => cases h
    | cons z p =>
        cases h
        simp [items]
  · cases h
    simp [items]

/-- Where there are items there is a next turn, of one of them. -/
theorem exists_next (h : t.items ≠ []) : ∃ y t', t.next = some (y, t') ∧ y ∈ t.items := by
  obtain ⟨p, _ | ⟨z, a⟩⟩ := t
  · cases p with
    | nil => exact absurd rfl h
    | cons z p => exact ⟨z, _, rfl, by simp [items]⟩
  · exact ⟨z, _, rfl, by simp [items]⟩

section

variable [DecidableEq ι]

/-- The others are still in, in their order. -/
theorem items_drop (ht : t.items.Nodup) : (t.drop x).items = t.items.erase x := by
  rw [items, drop, items, List.erase_append]
  split
  · next hx =>
    have hdisj := (List.nodup_append'.mp ht).2.2
    rw [List.erase_of_not_mem fun hx' => hdisj hx hx']
  · next hx => rw [List.erase_of_not_mem hx]

/-- Nobody is in twice after a departure. -/
theorem nodup_drop (ht : t.items.Nodup) : (t.drop x).items.Nodup := by
  rw [items_drop ht]
  exact ht.erase x

end

end Turns

/-! ## turns that are taken -/

section

variable {ι : Type*}

/-- The ring, and who has had a turn, in order. -/
structure TurnRun (ι : Type*) where
  turns : Turns ι
  picked : List ι

variable [DecidableEq ι] {x y : ι} {s : TurnRun ι}

/-- While `x` waits.  As long as the mark has not passed the start, nobody has had a second turn,
and those ahead of the mark have had none; from then on those between the mark and `x` have had at
most one. -/
structure TurnRun.Waiting (x : ι) (s : TurnRun ι) : Prop where
  nodup : s.turns.items.Nodup
  phase : (x ∈ s.turns.passed ∧ (∀ y, s.picked.count y ≤ 1) ∧
      ∀ y ∈ s.turns.ahead, s.picked.count y = 0) ∨
    ∃ u v, s.turns.ahead = u ++ x :: v ∧ (∀ y, s.picked.count y ≤ 2) ∧
      ∀ y ∈ u, s.picked.count y ≤ 1

/-- An item that has come in waits from then on. -/
theorem TurnRun.Waiting.start {t : Turns ι} (ht : t.items.Nodup) (hx : x ∈ t.items) :
    TurnRun.Waiting x ⟨t, []⟩ := by
  refine ⟨ht, ?_⟩
  obtain hx | hx := List.mem_append.mp hx
  · exact Or.inl ⟨hx, by simp, by simp⟩
  · obtain ⟨u, v, ha⟩ := List.append_of_mem hx
    exact Or.inr ⟨u, v, ha, by simp, by simp⟩

/-- A newcomer ends no wait. -/
theorem TurnRun.Waiting.add (h : s.Waiting x) (hy : y ∉ s.turns.items) :
    TurnRun.Waiting x { s with turns := s.turns.add y } := by
  refine ⟨Turns.nodup_add h.nodup hy, ?_⟩
  obtain ⟨⟨p, a⟩, picked⟩ := s
  obtain ⟨hx, hone, hnone⟩ | ⟨u, v, ha, htwo, hone⟩ := h.phase
  · left
    rcases List.eq_nil_or_concat' p with rfl | ⟨p, i, rfl⟩
    · cases hx
    · simp only [Turns.add_concat]
      refine ⟨?_, hone, hnone⟩
      simp only [List.mem_append, List.mem_cons, List.not_mem_nil, or_false] at hx ⊢
      exact hx.imp_right Or.inr
  · right
    rcases List.eq_nil_or_concat' p with rfl | ⟨p, i, rfl⟩
    · refine ⟨u, v ++ [y], ?_, htwo, hone⟩
      change a = _ at ha
      simp [ha]
    · simp only [Turns.add_concat]
      exact ⟨u, v, ha, htwo, hone⟩

/-- The departure of another ends no wait. -/
theorem TurnRun.Waiting.drop (h : s.Waiting x) (hy : y ≠ x) :
    TurnRun.Waiting x { s with turns := s.turns.drop y } := by
  refine ⟨Turns.nodup_drop h.nodup, ?_⟩
  obtain ⟨⟨p, a⟩, picked⟩ := s
  obtain ⟨hx, hone, hnone⟩ | ⟨u, v, ha, htwo, hone⟩ := h.phase
  · exact Or.inl ⟨(List.mem_erase_of_ne hy.symm).mpr hx, hone,
      fun z hz => hnone z (List.mem_of_mem_erase hz)⟩
  · right
    change a = _ at ha
    subst ha
    by_cases hu : y ∈ u
    · exact ⟨u.erase y, v, by simp [Turns.drop, List.erase_append, hu], htwo,
        fun z hz => hone z (List.mem_of_mem_erase hz)⟩
    · exact ⟨u, v.erase y, by simp [Turns.drop, List.erase_append, hu, hy.symm], htwo, hone⟩

omit [DecidableEq ι] in
/-- The item whose turn it is does not come again before the start. -/
theorem Turns.not_mem_ahead {p a : List ι} (h : (Turns.mk p (y :: a)).items.Nodup) : y ∉ a := by
  rw [Turns.items, List.nodup_middle, List.nodup_cons] at h
  exact fun hy => h.1 (List.mem_append_right p hy)

theorem count_picked_of_ne {picked : List ι} {z : ι} (h : z ≠ y) :
    (picked ++ [y]).count z = picked.count z := by
  simp [h.symm]

/-- A turn of one who has had fewer keeps the bound. -/
theorem count_picked_le {picked : List ι} {n : Nat} (hy : picked.count y < n)
    (h : ∀ z, picked.count z ≤ n) (z : ι) : (picked ++ [y]).count z ≤ n := by
  by_cases hz : z = y
  · subst hz
    rw [List.count_append, List.count_singleton_self]
    exact hy
  · rw [count_picked_of_ne hz]
    exact h z

/-- The next turn is that of `x`, or `x` goes on waiting. -/
theorem TurnRun.Waiting.next (h : s.Waiting x) {t : Turns ι} (hnext : s.turns.next = some (y, t)) :
    y = x ∨ TurnRun.Waiting x ⟨t, s.picked ++ [y]⟩ := by
  have hnodup : t.items.Nodup := by
    rw [Turns.items_next hnext]
    exact h.nodup
  obtain ⟨⟨p, a⟩, picked⟩ := s
  obtain ⟨hnodup', hphase⟩ := h
  obtain ⟨hx, hone, hnone⟩ | ⟨u, v, ha, htwo, hone⟩ := hphase
  · dsimp only at hx hone hnone
    cases a with
    | cons z a =>
        cases hnext
        have hy := Turns.not_mem_ahead hnodup'
        have hlt : picked.count y < 1 := by
          rw [hnone y List.mem_cons_self]
          exact Nat.one_pos
        refine Or.inr ⟨hnodup, Or.inl ⟨List.mem_append_left _ hx, count_picked_le hlt hone,
          fun z hz => ?_⟩⟩
        rw [count_picked_of_ne (ne_of_mem_of_not_mem hz hy)]
        exact hnone z (List.mem_cons_of_mem y hz)
    | nil =>
        cases p with
        | nil => cases hx
        | cons z p =>
            cases hnext
            -- the mark passes the start
            obtain rfl | hx := List.mem_cons.mp hx
            · exact Or.inl rfl
            · obtain ⟨u, v, rfl⟩ := List.append_of_mem hx
              have hy : y ∉ u := by
                intro hu
                simp [Turns.items, hu] at hnodup
              have hlt : picked.count y < 2 := Nat.lt_succ_of_le (hone y)
              refine Or.inr ⟨hnodup, Or.inr ⟨u, v, rfl,
                count_picked_le hlt fun z => Nat.le_succ_of_le (hone z), fun z hz => ?_⟩⟩
              rw [count_picked_of_ne (ne_of_mem_of_not_mem hz hy)]
              exact hone z
  · dsimp only at ha htwo hone
    subst ha
    cases u with
    | nil =>
        cases hnext
        exact Or.inl rfl
    | cons z u =>
        cases hnext
        have hy := Turns.not_mem_ahead hnodup'
        have hlt : picked.count y < 2 := Nat.lt_succ_of_le (hone y List.mem_cons_self)
        refine Or.inr ⟨hnodup, Or.inr ⟨u, v, rfl, count_picked_le hlt htwo, fun z hz => ?_⟩⟩
        rw [count_picked_of_ne (ne_of_mem_of_not_mem (List.mem_append_left _ hz) hy)]
        exact hone z (List.mem_cons_of_mem y hz)

/-- Nobody has had more than two turns. -/
theorem TurnRun.Waiting.count_le (h : s.Waiting x) (y : ι) : s.picked.count y ≤ 2 := by
  obtain ⟨-, hone, -⟩ | ⟨-, -, -, htwo, -⟩ := h.phase
  · exact Nat.le_succ_of_le (hone y)
  · exact htwo y

end

end Embedded
