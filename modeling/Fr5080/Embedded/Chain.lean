import Mathlib.Data.List.Nodup
import Mathlib.Data.Fintype.Card
import Mathlib.Logic.Function.Basic

/-!
# Embedded.Chain

Singly linked lists in memory: a head pointer and the `next` pointers of the
nodes; `NULL` is `none`.  `Linked next head l` says that the walk from `head`
visits the nodes `l` and ends.

A walk that ends is without cycles: its nodes are determined (`Linked.unique`)
and visited once (`Linked.nodup`).  The two ways to change a list are to put a
node in front (`Linked.push`) and to take one out (`Linked.unlink`).
-/

namespace Embedded

variable {α : Type*} {next next' : α → Option α} {head : Option α} {a b : α} {l l₁ l₂ : List α}

/-- The nodes from `head` on are `l`. -/
def Linked (next : α → Option α) : Option α → List α → Prop
  | head, [] => head = none
  | head, a :: l => head = some a ∧ Linked next (next a) l

@[simp] theorem linked_nil : Linked next head [] ↔ head = none := Iff.rfl

@[simp] theorem linked_cons :
    Linked next head (a :: l) ↔ head = some a ∧ Linked next (next a) l := Iff.rfl

theorem Linked.head_eq (h : Linked next head l) : head = l.head? := by
  cases l with
  | nil => exact h
  | cons a l => exact h.1

theorem linked_none (h : Linked next none l) : l = [] := by
  cases l with
  | nil => rfl
  | cons a l => cases h.1

theorem linked_some (h : Linked next (some a) l) : ∃ l', l = a :: l' ∧ Linked next (next a) l' := by
  cases l with
  | nil => cases h
  | cons b l =>
      cases h.1
      exact ⟨l, rfl, h.2⟩

/-- Only the pointers of the nodes matter. -/
theorem Linked.congr (h : Linked next head l) (heq : ∀ a ∈ l, next' a = next a) :
    Linked next' head l := by
  induction l generalizing head with
  | nil => exact h
  | cons a l ih =>
      refine ⟨h.1, ?_⟩
      rw [heq a List.mem_cons_self]
      exact ih h.2 fun b hb => heq b (List.mem_cons_of_mem a hb)

/-- The walk is determined. -/
theorem Linked.unique (h : Linked next head l₁) (h' : Linked next head l₂) : l₁ = l₂ := by
  induction l₁ generalizing head l₂ with
  | nil =>
      rw [linked_nil.mp h] at h'
      exact (linked_none h').symm
  | cons a l₁ ih =>
      rw [h.1] at h'
      obtain ⟨l', rfl, hrest⟩ := linked_some h'
      rw [ih h.2 hrest]

/-- From each node on, the walk is the rest of the walk. -/
theorem Linked.drop (h : Linked next head (l₁ ++ a :: l₂)) : Linked next (some a) (a :: l₂) := by
  induction l₁ generalizing head with
  | nil => exact ⟨rfl, h.2⟩
  | cons b l₁ ih => exact ih h.2

/-- No node is visited twice. -/
theorem Linked.nodup (h : Linked next head l) : l.Nodup := by
  induction l generalizing head with
  | nil => exact List.nodup_nil
  | cons a l ih =>
      refine List.nodup_cons.mpr ⟨fun hmem => ?_, ih h.2⟩
      obtain ⟨l₁, l₂, rfl⟩ := List.append_of_mem hmem
      -- both walks from `a` on are the same, but one is longer
      have hwalk : Linked next (some a) (a :: (l₁ ++ a :: l₂)) := ⟨rfl, h.2⟩
      have hlen := congrArg List.length (hwalk.unique h.2.drop)
      simp at hlen
      omega

/-- A walk is not longer than the nodes can be numbered. -/
theorem Linked.length_le {β : Type*} [Fintype β] {f : α → β} (hf : Function.Injective f)
    (h : Linked next head l) : l.length ≤ Fintype.card β := by
  rw [← List.length_map f]
  exact (h.nodup.map hf).length_le_card

section

variable [DecidableEq α]

/-- A new node in front. -/
theorem Linked.push (h : Linked next head l) (ha : a ∉ l) :
    Linked (Function.update next a head) (some a) (a :: l) := by
  refine ⟨rfl, ?_⟩
  rw [Function.update_self]
  refine h.congr fun b hb => Function.update_of_ne ?_ _ _
  rintro rfl
  exact ha hb

/-- The node behind `b` is taken out. -/
theorem Linked.unlink (h : Linked next head (l₁ ++ b :: a :: l₂)) :
    Linked (Function.update next b (next a)) head (l₁ ++ b :: l₂) := by
  have hnodup := h.nodup
  induction l₁ generalizing head with
  | nil =>
      refine ⟨h.1, ?_⟩
      rw [Function.update_self]
      refine h.2.2.congr fun c hc => Function.update_of_ne ?_ _ _
      rintro rfl
      simp [hc] at hnodup
  | cons c l₁ ih =>
      refine ⟨h.1, ?_⟩
      have hne : c ≠ b := by
        rintro rfl
        simp at hnodup
      rw [Function.update_of_ne hne]
      exact ih h.2 (List.nodup_cons.mp hnodup).2

end

end Embedded
