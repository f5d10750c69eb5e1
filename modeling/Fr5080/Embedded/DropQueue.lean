import Mathlib.Data.List.Induction

/-!
# Embedded.DropQueue

A queue for at most `cap` elements.  An element that comes when it is full
displaces the oldest one.

* `left_append_stored` — every element is still stored or has left, once and in order;
* `length_stored_le` — the queue keeps to its bound;
* `displaced_full` — only the oldest element of a full queue is displaced;
* `taken_sublist` — the elements taken are some of those put in, in their order.
-/

namespace Embedded

/-- An element comes, or the oldest one is taken. -/
inductive DropOp (α : Type*)
  | put (x : α)
  | take

/-- How an element has left the queue.  When it is displaced, `stored` is what the queue held. -/
inductive Departure (α : Type*)
  | taken
  | displaced (stored : List α)

/-- The elements stored, oldest first, and those that have left, in order. -/
structure DropQueue (α : Type*) where
  stored : List α
  left : List (α × Departure α)

namespace DropQueue

variable {α : Type*}

def empty : DropQueue α := ⟨[], []⟩

/-- One operation on a queue for at most `cap` elements. -/
def apply (cap : Nat) (q : DropQueue α) : DropOp α → DropQueue α
  | .put x => match q.stored with
    | [] => ⟨[x], q.left⟩
    | y :: rest =>
        if cap ≤ rest.length + 1 then ⟨rest ++ [x], q.left ++ [(y, .displaced (y :: rest))]⟩
        else ⟨y :: rest ++ [x], q.left⟩
  | .take => match q.stored with
    | [] => q
    | y :: rest => ⟨rest, q.left ++ [(y, .taken)]⟩

/-- The queue after the operations. -/
def replay (cap : Nat) (ops : List (DropOp α)) : DropQueue α := ops.foldl (apply cap) empty

/-- The elements that came. -/
def puts : List (DropOp α) → List α
  | [] => []
  | .put x :: ops => x :: puts ops
  | .take :: ops => puts ops

/-- The elements of `left` that were taken. -/
def takenOf : List (α × Departure α) → List α
  | [] => []
  | (x, .taken) :: left => x :: takenOf left
  | (_, .displaced _) :: left => takenOf left

/-- The elements taken. -/
def taken (q : DropQueue α) : List α := takenOf q.left

variable {cap : Nat} {ops : List (DropOp α)} {q : DropQueue α} {x : α}

@[simp]
theorem puts_append (ops ops' : List (DropOp α)) : puts (ops ++ ops') = puts ops ++ puts ops' := by
  induction ops with
  | nil => rfl
  | cons op ops ih => cases op <;> simp [puts, ih]

@[simp]
theorem takenOf_append (l l' : List (α × Departure α)) :
    takenOf (l ++ l') = takenOf l ++ takenOf l' := by
  induction l with
  | nil => rfl
  | cons d l ih =>
      obtain ⟨x, _ | stored⟩ := d
      · simp [takenOf, ih]
      · simpa [takenOf] using ih

/-- What is taken has left, in the same order. -/
theorem takenOf_sublist (l : List (α × Departure α)) : (takenOf l).Sublist (l.map Prod.fst) := by
  induction l with
  | nil => simp [takenOf]
  | cons d l ih =>
      obtain ⟨x, _ | stored⟩ := d
      · exact ih.cons_cons x
      · exact ih.cons x

@[simp]
theorem replay_concat (ops : List (DropOp α)) (op : DropOp α) :
    replay cap (ops ++ [op]) = (replay cap ops).apply cap op := by
  simp [replay]

/-! ## one operation -/

/-- An element that comes while there is room. -/
theorem apply_put_of_lt (h : q.stored.length < cap) :
    q.apply cap (.put x) = ⟨q.stored ++ [x], q.left⟩ := by
  unfold apply
  cases hq : q.stored with
  | nil => simp
  | cons y rest =>
      rw [hq, List.length_cons] at h
      simp [Nat.not_le.mpr h]

/-- An element that comes when the queue is full. -/
theorem apply_put_of_le {y : α} {rest : List α} (hq : q.stored = y :: rest)
    (h : cap ≤ q.stored.length) :
    q.apply cap (.put x) = ⟨rest ++ [x], q.left ++ [(y, .displaced (y :: rest))]⟩ := by
  rw [hq, List.length_cons] at h
  simp [apply, hq, h]

/-- The oldest element is taken. -/
theorem apply_take {y : α} {rest : List α} (hq : q.stored = y :: rest) :
    q.apply cap .take = ⟨rest, q.left ++ [(y, .taken)]⟩ := by
  simp [apply, hq]

/-! ## all operations -/

/-- What every operation keeps holds of the queue and the operations so far. -/
theorem replay_inv {P : List (DropOp α) → DropQueue α → Prop} (hempty : P [] empty)
    (hput : ∀ ops q x, P ops q → P (ops ++ [.put x]) (q.apply cap (.put x)))
    (htake : ∀ ops q, P ops q → P (ops ++ [.take]) (q.apply cap .take)) (ops : List (DropOp α)) :
    P ops (replay cap ops) := by
  induction ops using List.reverseRecOn with
  | nil => exact hempty
  | append_singleton ops op ih =>
      rw [replay_concat]
      cases op with
      | put x => exact hput ops _ x ih
      | take => exact htake ops _ ih

/-- Every element that came is stored or has left, once and in order. -/
theorem left_append_stored (cap : Nat) (ops : List (DropOp α)) :
    (replay cap ops).left.map Prod.fst ++ (replay cap ops).stored = puts ops := by
  refine replay_inv (P := fun ops q => q.left.map Prod.fst ++ q.stored = puts ops) rfl ?_ ?_ ops
  · intro ops q x ih
    rw [puts_append, ← ih]
    unfold apply
    grind [puts]
  · intro ops q ih
    rw [puts_append, ← ih]
    unfold apply
    grind [puts]

/-- The bound, and what an element has displaced. -/
theorem bounded (hcap : 0 < cap) (ops : List (DropOp α)) :
    (replay cap ops).stored.length ≤ cap ∧ ∀ y stored,
      (y, Departure.displaced stored) ∈ (replay cap ops).left →
        stored.length = cap ∧ stored.head? = some y := by
  refine replay_inv (P := fun _ q => q.stored.length ≤ cap ∧ ∀ y stored,
    (y, Departure.displaced stored) ∈ q.left → stored.length = cap ∧ stored.head? = some y)
    (by simp [empty]) ?_ ?_ ops
  · rintro ops q x ⟨hle, hleft⟩
    unfold apply
    grind
  · rintro ops q ⟨hle, hleft⟩
    unfold apply
    grind

/-- The capacity is kept. -/
theorem length_stored_le (hcap : 0 < cap) (ops : List (DropOp α)) :
    (replay cap ops).stored.length ≤ cap := (bounded hcap ops).1

/-- Only the oldest element of a full queue is displaced. -/
theorem displaced_full (hcap : 0 < cap) {y : α} {stored : List α}
    (h : (y, Departure.displaced stored) ∈ (replay cap ops).left) :
    stored.length = cap ∧ stored.head? = some y := (bounded hcap ops).2 y stored h

/-- The elements taken are some of those that came, in their order. -/
theorem taken_sublist (cap : Nat) (ops : List (DropOp α)) :
    (replay cap ops).taken.Sublist (puts ops) := by
  rw [← left_append_stored cap]
  exact (takenOf_sublist _).trans (List.sublist_append_left _ _)

end DropQueue

end Embedded
