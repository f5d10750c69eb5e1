import Mathlib.Data.List.Nodup
import Mathlib.Logic.Function.Basic

/-!
# Embedded.Rings

Circular, doubly linked lists in one memory.  Each list has a head, a node of
its own that closes the circle, and an item is in one list at most.
`Rings next prev L` says that list `k` has the items `L k`: at every gap of a list
the two nodes beside it point to each other.

The pointers one way are those the other way of the reversed lists, so what a change
does is proved for one way (`Follows`).

* `Rings.insert` — a new item at a gap;
* `Rings.remove` — an item is taken out, and its neighbours point to each other.
-/

namespace Embedded

/-- A node: the head of a list, or an item. -/
inductive RingNode (κ ι : Type*)
  | head (k : κ)
  | item (x : ι)
deriving DecidableEq, Repr

variable {κ ι : Type*} {k k' : κ} {x y : ι} {l l₁ l₂ l₁' l₂' : List ι}

namespace RingNode

/-- The node before a gap of list `k`, when the items before the gap are `l`. -/
def before (k : κ) (l : List ι) : RingNode κ ι :=
  match l.getLast? with
  | none => .head k
  | some x => .item x

/-- The node behind a gap of list `k`, when the items behind the gap are `l`. -/
def behind (k : κ) : List ι → RingNode κ ι
  | [] => .head k
  | x :: _ => .item x

@[simp] theorem before_nil : before k ([] : List ι) = .head k := rfl

@[simp] theorem before_concat : before k (l ++ [x]) = .item x := by simp [before]

@[simp] theorem behind_nil : behind k ([] : List ι) = .head k := rfl

@[simp] theorem behind_cons : behind k (x :: l) = .item x := rfl

/-- What is behind a gap is before it in the reversed list. -/
theorem before_reverse : before k l.reverse = behind k l := by
  cases l with
  | nil => rfl
  | cons x l => rw [List.reverse_cons, before_concat, behind_cons]

theorem behind_reverse : behind k l.reverse = before k l := by
  rw [← before_reverse, List.reverse_reverse]

/-- The last item of a list is one of its items. -/
theorem before_ne_item (h : x ∉ l) : before k l ≠ .item x := by
  rcases List.eq_nil_or_concat' l with rfl | ⟨l, y, rfl⟩
  · simp
  · rw [before_concat]
    rintro heq
    cases heq
    simp at h

/-- The first item of a list is one of its items. -/
theorem behind_ne_item (h : x ∉ l) : behind k l ≠ .item x := by
  rw [← before_reverse]
  exact before_ne_item (by simpa using h)

end RingNode

open RingNode

/-! ## one way -/

/-- The pointers one way: from the node before a gap to the node behind it. -/
def Follows (next : RingNode κ ι → RingNode κ ι) (L : κ → List ι) : Prop :=
  ∀ k l₁ l₂, L k = l₁ ++ l₂ → next (before k l₁) = behind k l₂

/-- Each item is in one list, and once. -/
structure Apart (L : κ → List ι) : Prop where
  nodup : ∀ k, (L k).Nodup
  eq_of_mem : ∀ {k k' x}, x ∈ L k → x ∈ L k' → k = k'

variable {next prev : RingNode κ ι → RingNode κ ι} {L : κ → List ι}

/-- Different gaps have different nodes before them. -/
theorem Apart.before_inj (h : Apart L) (hL : L k = l₁ ++ l₂) (hL' : L k' = l₁' ++ l₂')
    (heq : before (ι := ι) k l₁ = before k' l₁') : k = k' ∧ l₁ = l₁' := by
  rcases List.eq_nil_or_concat' l₁ with rfl | ⟨l, x, rfl⟩
  · rcases List.eq_nil_or_concat' l₁' with rfl | ⟨l', x', rfl⟩
    · cases heq
      exact ⟨rfl, rfl⟩
    · rw [before_concat] at heq
      cases heq
  · rcases List.eq_nil_or_concat' l₁' with rfl | ⟨l', x', rfl⟩
    · rw [before_concat] at heq
      cases heq
    · simp only [before_concat] at heq
      cases heq
      have hk : k = k' := h.eq_of_mem (x := x) (by simp [hL]) (by simp [hL'])
      subst hk
      have hnodup := h.nodup k
      rw [hL'] at hL
      rw [hL'] at hnodup
      simp only [List.append_assoc, List.singleton_append] at hL hnodup
      -- both lists have `x`, which stands in one place
      have hx := List.nodup_middle.mp hnodup
      rw [List.nodup_cons, List.mem_append, not_or] at hx
      have hl := (List.append_cons_inj_of_notMem hx.1.1 hx.1.2).mp hL
      exact ⟨rfl, by rw [hl.1]⟩

theorem Apart.reverse (h : Apart L) : Apart fun k => (L k).reverse where
  nodup k := List.nodup_reverse.mpr (h.nodup k)
  eq_of_mem hx hx' := h.eq_of_mem (List.mem_reverse.mp hx) (List.mem_reverse.mp hx')

section

variable [DecidableEq κ] [DecidableEq ι]

omit [DecidableEq ι] in
/-- An item of no list may be put into one. -/
theorem Apart.insert (h : Apart L) (hL : L k = l₁ ++ l₂) (hx : ∀ k, x ∉ L k) :
    Apart (Function.update L k (l₁ ++ x :: l₂)) := by
  have hmem : ∀ k' y, y ∈ Function.update L k (l₁ ++ x :: l₂) k' ↔
      y ∈ L k' ∨ k' = k ∧ y = x := by
    intro k' y
    by_cases hk : k' = k
    · subst hk
      rw [Function.update_self, hL]
      simp only [List.mem_append, List.mem_cons]
      tauto
    · rw [Function.update_of_ne hk]
      simp [hk]
  constructor
  · intro k'
    by_cases hk : k' = k
    · subst hk
      rw [Function.update_self, List.nodup_middle, ← hL, List.nodup_cons]
      exact ⟨hx k', h.nodup k'⟩
    · rw [Function.update_of_ne hk]
      exact h.nodup k'
  · intro k₁ k₂ y hy hy'
    rw [hmem] at hy hy'
    obtain hy | ⟨hk, hyx⟩ := hy
    · obtain hy' | ⟨-, hyx'⟩ := hy'
      · exact h.eq_of_mem hy hy'
      · exact absurd (hyx' ▸ hy) (hx k₁)
    · obtain hy' | ⟨hk', -⟩ := hy'
      · exact absurd (hyx ▸ hy') (hx k₂)
      · rw [hk, hk']

omit [DecidableEq ι] in
/-- An item may be taken out of its list. -/
theorem Apart.remove (h : Apart L) (hL : L k = l₁ ++ x :: l₂) :
    Apart (Function.update L k (l₁ ++ l₂)) := by
  have hmem : ∀ {k' y}, y ∈ Function.update L k (l₁ ++ l₂) k' → y ∈ L k' := by
    intro k' y hy
    by_cases hk : k' = k
    · subst hk
      rw [Function.update_self] at hy
      rw [hL]
      simp only [List.mem_append, List.mem_cons] at hy ⊢
      tauto
    · rwa [Function.update_of_ne hk] at hy
  refine ⟨fun k' => ?_, fun hy hy' => h.eq_of_mem (hmem hy) (hmem hy')⟩
  by_cases hk : k' = k
  · subst hk
    have hnodup := h.nodup k'
    rw [hL, List.nodup_middle, List.nodup_cons] at hnodup
    rw [Function.update_self]
    exact hnodup.2
  · rw [Function.update_of_ne hk]
    exact h.nodup k'

/-- A new item is put between the two nodes beside a gap. -/
theorem Follows.insert (h : Follows next L) (hapart : Apart L) (hL : L k = l₁ ++ l₂)
    (hx : ∀ k, x ∉ L k) :
    Follows (Function.update (Function.update next (.item x) (behind k l₂)) (before k l₁) (.item x))
      (Function.update L k (l₁ ++ x :: l₂)) := by
  have hfresh : ∀ k' a b, L k' = a ++ b → before (ι := ι) k' a ≠ .item x := by
    intro k' a b hsplit
    refine before_ne_item fun hmem => hx k' ?_
    rw [hsplit]
    exact List.mem_append_left b hmem
  -- the other gaps are as before
  have hother : ∀ k' a b, L k' = a ++ b → (k' = k → a ≠ l₁) →
      Function.update (Function.update next (.item x) (behind k l₂)) (before k l₁) (.item x)
        (before k' a) = behind k' b := by
    intro k' a b hsplit hne
    rw [Function.update_of_ne, Function.update_of_ne (hfresh k' a b hsplit)]
    · exact h k' a b hsplit
    · intro heq
      obtain ⟨rfl, rfl⟩ := hapart.before_inj hsplit hL heq
      exact hne rfl rfl
  intro k' a b hsplit
  by_cases hk : k' = k
  · subst hk
    rw [Function.update_self] at hsplit
    rcases List.append_eq_append_iff.mp hsplit with ⟨c, rfl, hc⟩ | ⟨c, rfl, rfl⟩
    · cases c with
      | nil =>
          rw [List.nil_append] at hc
          subst hc
          rw [List.append_nil, Function.update_self, behind_cons]
      | cons z c =>
          obtain ⟨rfl, rfl⟩ := List.cons.inj hc
          rcases List.eq_nil_or_concat' c with rfl | ⟨c, z, rfl⟩
          · -- the gap behind the new item
            rw [before_concat, Function.update_of_ne (Ne.symm (hfresh k' l₁ _ hL)),
              Function.update_self]
            rfl
          · have hnode : before k' (l₁ ++ x :: (c ++ [z])) = before k' (l₁ ++ (c ++ [z])) := by
              rw [← List.cons_append, ← List.append_assoc, ← List.append_assoc, before_concat,
                before_concat]
            rw [hnode]
            refine hother k' (l₁ ++ (c ++ [z])) b ?_ fun _ heq => ?_
            · simp [hL]
            · simp at heq
    · cases c with
      | nil => rw [List.append_nil, Function.update_self, List.nil_append, behind_cons]
      | cons z c =>
          rw [List.append_assoc] at hL
          have hgap := hother k' a _ hL fun _ heq => by simp at heq
          rwa [List.cons_append, behind_cons] at hgap ⊢
  · rw [Function.update_of_ne hk] at hsplit
    exact hother k' a b hsplit fun heq => absurd heq hk

/-- An item is bridged. -/
theorem Follows.remove (h : Follows next L) (hapart : Apart L) (hL : L k = l₁ ++ x :: l₂) :
    Follows (Function.update next (before k l₁) (behind k l₂))
      (Function.update L k (l₁ ++ l₂)) := by
  have hother : ∀ k' a b, L k' = a ++ b → (k' = k → a ≠ l₁) →
      Function.update next (before k l₁) (behind k l₂) (before k' a) = behind k' b := by
    intro k' a b hsplit hne
    rw [Function.update_of_ne]
    · exact h k' a b hsplit
    · intro heq
      obtain ⟨rfl, rfl⟩ := hapart.before_inj hsplit hL heq
      exact hne rfl rfl
  intro k' a b hsplit
  by_cases hk : k' = k
  · subst hk
    rw [Function.update_self] at hsplit
    rcases List.append_eq_append_iff.mp hsplit with ⟨c, rfl, rfl⟩ | ⟨c, rfl, rfl⟩
    · rcases List.eq_nil_or_concat' c with rfl | ⟨c, z, rfl⟩
      · rw [List.append_nil, Function.update_self, List.nil_append]
      · have hnode : before k' (l₁ ++ (c ++ [z])) = before k' (l₁ ++ x :: (c ++ [z])) := by
          rw [← List.cons_append, ← List.append_assoc, ← List.append_assoc, before_concat,
            before_concat]
        rw [hnode]
        refine hother k' (l₁ ++ x :: (c ++ [z])) b ?_ fun _ heq => ?_
        · simp [hL]
        · simp at heq
    · cases c with
      | nil => rw [List.append_nil, Function.update_self, List.nil_append]
      | cons z c =>
          rw [List.append_assoc] at hL
          have hgap := hother k' a _ hL fun _ heq => by simp at heq
          rwa [List.cons_append, behind_cons] at hgap ⊢
  · rw [Function.update_of_ne hk] at hsplit
    exact hother k' a b hsplit fun heq => absurd heq hk

/-! ## both ways -/

/-- The lists and their pointers. -/
structure Rings (next prev : RingNode κ ι → RingNode κ ι) (L : κ → List ι) : Prop where
  apart : Apart L
  follows : Follows next L
  precedes : Follows prev fun k => (L k).reverse

omit [DecidableEq κ] [DecidableEq ι] in
/-- `next` at any place of a list. -/
theorem Rings.next_eq (h : Rings next prev L) (hL : L k = l₁ ++ l₂) :
    next (before k l₁) = behind k l₂ := h.follows k l₁ l₂ hL

omit [DecidableEq κ] [DecidableEq ι] in
/-- `prev` at any place of a list. -/
theorem Rings.prev_eq (h : Rings next prev L) (hL : L k = l₁ ++ l₂) :
    prev (behind k l₂) = before k l₁ := by
  have hrev := h.precedes k l₂.reverse l₁.reverse (by simp [hL])
  rwa [before_reverse, behind_reverse] at hrev

/-- **Insertion**: a new item at a gap. -/
theorem Rings.insert (h : Rings next prev L) (hL : L k = l₁ ++ l₂) (hx : ∀ k, x ∉ L k) :
    Rings (Function.update (Function.update next (.item x) (behind k l₂)) (before k l₁) (.item x))
      (Function.update (Function.update prev (.item x) (before k l₁)) (behind k l₂) (.item x))
      (Function.update L k (l₁ ++ x :: l₂)) := by
  refine ⟨h.apart.insert hL hx, h.follows.insert h.apart hL hx, ?_⟩
  have hL' : (fun k => (L k).reverse) k = l₂.reverse ++ l₁.reverse := by simp [hL]
  have hrev := h.precedes.insert h.apart.reverse hL' (x := x) (by simpa using hx)
  rw [before_reverse, behind_reverse] at hrev
  convert hrev using 1
  funext k'
  by_cases hk : k' = k
  · subst hk
    simp
  · simp [Function.update_of_ne hk]

/-- **Removal**: an item is taken out. -/
theorem Rings.remove (h : Rings next prev L) (hL : L k = l₁ ++ x :: l₂) :
    Rings (Function.update next (before k l₁) (behind k l₂))
      (Function.update prev (behind k l₂) (before k l₁)) (Function.update L k (l₁ ++ l₂)) := by
  refine ⟨h.apart.remove hL, h.follows.remove h.apart hL, ?_⟩
  have hL' : (fun k => (L k).reverse) k = l₂.reverse ++ x :: l₁.reverse := by simp [hL]
  have hrev := h.precedes.remove h.apart.reverse hL'
  rw [before_reverse, behind_reverse] at hrev
  convert hrev using 1
  funext k'
  by_cases hk : k' = k
  · subst hk
    simp
  · simp [Function.update_of_ne hk]

end

end Embedded
