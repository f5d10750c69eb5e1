import Mathlib.Data.List.Perm.Basic
import Mathlib.Data.List.ReduceOption
import Fr5080.Embedded.Chain

/-!
# Embedded.Deque

A double-ended queue: elements are put behind the others or before them, and
taken from the front.

* `dequeAfter`, `dequeAnswers` — what a sequence of operations leaves of a list,
  and what its operations answer;
* `dequeAdded_perm` — no element is lost and none comes out twice;
* `LinkedDeque` — the representation by a singly linked list with a pointer to
  its first and one to its last node, and a lemma for each operation.
-/

namespace Embedded

variable {α : Type*}

/-! ## lists -/

/-- The operations. -/
inductive DequeOp (α : Type*)
  | pushBack (a : α)
  | pushFront (a : α)
  | popFront

/-- The list after an operation. -/
def DequeOp.apply : DequeOp α → List α → List α
  | .pushBack a, l => l ++ [a]
  | .pushFront a, l => a :: l
  | .popFront, l => l.tail

/-- The answer of an operation: the front, and nothing where the list is empty. -/
def DequeOp.answer : DequeOp α → List α → List (Option α)
  | .popFront, l => [l.head?]
  | _, _ => []

/-- The element that an operation puts into the list. -/
def DequeOp.added : DequeOp α → List α
  | .pushBack a => [a]
  | .pushFront a => [a]
  | .popFront => []

/-- The operation does not put an element into the list that it has already. -/
def DequeOp.Fresh : DequeOp α → List α → Prop
  | .pushBack a, l => a ∉ l
  | .pushFront a, l => a ∉ l
  | .popFront, _ => True

/-- The list after operations. -/
def dequeAfter : List α → List (DequeOp α) → List α
  | l, [] => l
  | l, op :: ops => dequeAfter (op.apply l) ops

/-- Their answers. -/
def dequeAnswers : List α → List (DequeOp α) → List (Option α)
  | _, [] => []
  | l, op :: ops => op.answer l ++ dequeAnswers (op.apply l) ops

/-- None of the operations puts an element into the list that it has already. -/
def FreshOps : List α → List (DequeOp α) → Prop
  | _, [] => True
  | l, op :: ops => op.Fresh l ∧ FreshOps (op.apply l) ops

theorem dequeAfter_append (l : List α) (ops ops' : List (DequeOp α)) :
    dequeAfter l (ops ++ ops') = dequeAfter (dequeAfter l ops) ops' := by
  induction ops generalizing l with
  | nil => rfl
  | cons op ops ih => exact ih (op.apply l)

theorem dequeAnswers_append (l : List α) (ops ops' : List (DequeOp α)) :
    dequeAnswers l (ops ++ ops') = dequeAnswers l ops ++ dequeAnswers (dequeAfter l ops) ops' := by
  induction ops generalizing l with
  | nil => rfl
  | cons op ops ih =>
      rw [List.cons_append, dequeAnswers, ih, ← List.append_assoc]
      rfl

/-- What is there and what is added is answered or there afterwards. -/
theorem DequeOp.added_perm (op : DequeOp α) (l : List α) :
    (l ++ op.added).Perm ((op.answer l).reduceOption ++ op.apply l) := by
  cases op with
  | pushBack a => exact List.Perm.refl _
  | pushFront a => exact List.perm_append_comm
  | popFront =>
      rw [added, List.append_nil]
      cases l with
      | nil => exact List.Perm.refl _
      | cons a l => exact List.Perm.refl _

/-- What is put into the list comes out of it or stays. -/
theorem dequeAdded_perm (l : List α) (ops : List (DequeOp α)) :
    (l ++ ops.flatMap DequeOp.added).Perm
      ((dequeAnswers l ops).reduceOption ++ dequeAfter l ops) := by
  induction ops generalizing l with
  | nil =>
      rw [List.flatMap_nil, List.append_nil]
      exact List.Perm.refl _
  | cons op ops ih =>
      have hfirst := (op.added_perm l).append_right (ops.flatMap DequeOp.added)
      have hrest := (ih (op.apply l)).append_left (op.answer l).reduceOption
      rw [List.append_assoc, List.append_assoc] at hfirst
      rw [List.flatMap_cons, dequeAnswers, List.reduceOption_append, List.append_assoc]
      exact hfirst.trans hrest

/-! ## linked lists -/

variable {next : α → Option α} {first last : Option α} {l : List α} {a b : α}

/-- The nodes from `first` on are `l`, and `last` is the last one of them. -/
structure LinkedDeque (next : α → Option α) (first last : Option α) (l : List α) : Prop where
  linked : Linked next first l
  last_eq : last = l.getLast?

theorem linkedDeque_nil (next : α → Option α) : LinkedDeque next none none [] := ⟨rfl, rfl⟩

/-- `first` is the head of the list. -/
theorem LinkedDeque.first_eq (h : LinkedDeque next first last l) : first = l.head? :=
  h.linked.head_eq

/-- `first` is `NULL` exactly for the empty list. -/
theorem LinkedDeque.first_eq_none_iff (h : LinkedDeque next first last l) :
    first = none ↔ l = [] := by
  rw [h.first_eq, List.head?_eq_none_iff]

/-- The node behind the first one is the first one of the rest. -/
theorem LinkedDeque.popFront (h : LinkedDeque next (some a) last l) :
    ∃ l', l = a :: l' ∧
      LinkedDeque next (next a) (if next a = none then none else last) l' := by
  obtain ⟨l', rfl, hrest⟩ := linked_some h.linked
  refine ⟨l', rfl, hrest, ?_⟩
  cases l' with
  | nil => rw [linked_nil.mp hrest, if_pos rfl]; rfl
  | cons b l' =>
      rw [hrest.1, if_neg (Option.some_ne_none b), h.last_eq]
      exact List.getLast?_cons_cons

section

variable [DecidableEq α]

theorem linkedDeque_singleton (next : α → Option α) (a : α) :
    LinkedDeque (Function.update next a none) (some a) (some a) [a] :=
  ⟨⟨rfl, Function.update_self ..⟩, rfl⟩

/-- A node before the others. -/
theorem LinkedDeque.pushFront (h : LinkedDeque next first last l) (ha : a ∉ l) :
    LinkedDeque (Function.update next a first) (some a) (if first = none then some a else last)
      (a :: l) := by
  refine ⟨h.linked.push ha, ?_⟩
  cases l with
  | nil => rw [if_pos (h.first_eq_none_iff.mpr rfl)]; rfl
  | cons b l =>
      rw [if_neg (mt h.first_eq_none_iff.mp (List.cons_ne_nil b l)), h.last_eq]
      exact List.getLast?_cons_cons.symm

/-- The last node of a linked list gets a successor. -/
theorem Linked.concat (h : Linked next first (l ++ [b])) (ha : a ∉ l ++ [b]) :
    Linked (Function.update (Function.update next b (some a)) a none) first (l ++ [b, a]) := by
  have hnodup := h.nodup
  induction l generalizing first with
  | nil =>
      have hne : b ≠ a := fun heq => ha (List.mem_singleton.mpr heq.symm)
      refine ⟨h.1, ?_, Function.update_self ..⟩
      rw [Function.update_of_ne hne, Function.update_self]
  | cons c l ih =>
      have hca : c ≠ a := fun heq => ha (by rw [heq]; exact List.mem_cons_self)
      have hcb : c ≠ b := by
        rintro rfl
        simp at hnodup
      refine ⟨h.1, ?_⟩
      rw [Function.update_of_ne hca, Function.update_of_ne hcb]
      exact ih h.2 (fun hmem => ha (List.mem_cons_of_mem c hmem)) (List.nodup_cons.mp hnodup).2

/-- A node behind the others. -/
theorem LinkedDeque.pushBack (h : LinkedDeque next first (some b) l) (ha : a ∉ l) :
    LinkedDeque (Function.update (Function.update next b (some a)) a none) first (some a)
      (l ++ [a]) := by
  obtain ⟨l', rfl⟩ := List.getLast?_eq_some_iff.mp h.last_eq.symm
  refine ⟨?_, by simp⟩
  rw [List.append_assoc]
  exact h.linked.concat ha

end

end Embedded
