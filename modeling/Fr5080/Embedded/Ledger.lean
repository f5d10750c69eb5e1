import Mathlib.Algebra.Order.Group.Multiset
import Mathlib.Data.List.ReduceOption
import Mathlib.Data.Multiset.Range
import Mathlib.Tactic.Abel

/-!
# Embedded.Ledger

The account of a heap: which blocks have been allocated, and which have been
freed, as often as it was done.  A block is known by the number of its
allocation, a pointer is the number of a block, or `none` for `NULL`.

The program keeps its pointers in several places.  The account is balanced when
the blocks freed and the blocks held there are together the blocks allocated,
each of them once (`Balanced`).  So no block is freed twice, none is lost, and
none has two owners; when nothing is held any more, all are freed
(`settled_of_balanced`).
-/

namespace Embedded

/-- The number of the next block, and the blocks freed, in order. -/
structure Ledger where
  next : Nat
  freed : List Nat

namespace Ledger

/-- The heap at start-up. -/
def empty : Ledger := ⟨0, []⟩

/-- `malloc`, which fails or succeeds: the pointer and the account after it. -/
def malloc (ok : Bool) (l : Ledger) : Option Nat × Ledger :=
  if ok then (some l.next, { l with next := l.next + 1 }) else (none, l)

/-- `malloc` for each of a list of answers. -/
def mallocs : List Bool → Ledger → List (Option Nat) × Ledger
  | [], l => ([], l)
  | ok :: oks, l =>
      let (p, l) := l.malloc ok
      let (ps, l) := l.mallocs oks
      (p :: ps, l)

/-- `free`; the null pointer is ignored. -/
def free (p : Option Nat) (l : Ledger) : Ledger := { l with freed := l.freed ++ p.toList }

/-- `free` for each of a list of pointers. -/
def frees (ps : List (Option Nat)) (l : Ledger) : Ledger := ps.foldl (fun l p => l.free p) l

/-- The blocks freed and those held are the blocks allocated, each of them once. -/
def Balanced (l : Ledger) (held : Multiset Nat) : Prop :=
  (l.freed : Multiset Nat) + held = Multiset.range l.next

/-- Every block allocated has been freed exactly once. -/
def Settled (l : Ledger) : Prop := ∀ b < l.next, l.freed.count b = 1

end Ledger

/-- The blocks that a list of pointers leads to. -/
def pointees (ps : List (Option Nat)) : Multiset Nat := ps.reduceOption

@[simp]
theorem pointees_nil : pointees [] = 0 := rfl

@[simp]
theorem pointees_cons (p : Option Nat) (ps : List (Option Nat)) :
    pointees (p :: ps) = p.toList + pointees ps := by
  cases p <;> simp [pointees, List.reduceOption_cons_of_none, List.reduceOption_cons_of_some]

@[simp]
theorem pointees_append (ps qs : List (Option Nat)) :
    pointees (ps ++ qs) = pointees ps + pointees qs := by
  simp [pointees, List.reduceOption_append]

namespace Ledger

variable {l : Ledger} {held : Multiset Nat}

/-- Nothing is held of an empty ledger. -/
theorem balanced_empty : Ledger.empty.Balanced 0 := rfl

@[simp]
theorem length_mallocs (oks : List Bool) (l : Ledger) :
    (l.mallocs oks).1.length = oks.length := by
  induction oks generalizing l <;> simp_all [mallocs]

/-- A new block is held. -/
theorem Balanced.malloc (h : l.Balanced held) (ok : Bool) :
    (l.malloc ok).2.Balanced ((l.malloc ok).1.toList + held) := by
  cases ok with
  | false => simpa [Ledger.malloc] using h
  | true =>
      simp only [Balanced, Ledger.malloc, if_true, Option.toList_some, Multiset.coe_singleton,
        Multiset.range_succ] at h ⊢
      rw [← h, ← Multiset.singleton_add]
      abel

/-- What is allocated is held on top of what was held. -/
theorem Balanced.mallocs (h : l.Balanced held) (oks : List Bool) :
    (l.mallocs oks).2.Balanced (pointees (l.mallocs oks).1 + held) := by
  induction oks generalizing l held with
  | nil => simpa [Ledger.mallocs] using h
  | cons ok oks ih =>
      have hrest := ih (h.malloc ok)
      rw [add_left_comm] at hrest
      simpa only [Ledger.mallocs, pointees_cons, add_assoc] using hrest

/-- A block that is held can be freed. -/
theorem Balanced.free {p : Option Nat} (h : l.Balanced (p.toList + held)) :
    (l.free p).Balanced held := by
  simpa [Balanced, Ledger.free, ← Multiset.coe_add, add_assoc] using h

/-- What is freed is no longer held. -/
theorem Balanced.frees {ps : List (Option Nat)} (h : l.Balanced (pointees ps + held)) :
    (l.frees ps).Balanced held := by
  induction ps generalizing l with
  | nil => simpa [Ledger.frees] using h
  | cons p ps ih =>
      rw [pointees_cons, add_assoc] at h
      exact ih h.free

/-- No block is freed twice. -/
theorem Balanced.nodup (h : l.Balanced held) : l.freed.Nodup := by
  have hall : ((l.freed : Multiset Nat) + held).Nodup := h ▸ Multiset.nodup_range _
  exact Multiset.coe_nodup.mp (Multiset.nodup_add.mp hall).1

/-- When nothing is held, every block has been freed, and only once. -/
theorem settled_of_balanced (h : l.Balanced 0) : l.Settled := by
  intro b hb
  have hmem : b ∈ (l.freed : Multiset Nat) + 0 := h ▸ Multiset.mem_range.mpr hb
  rw [add_zero, Multiset.mem_coe] at hmem
  exact List.count_eq_one_of_mem h.nodup hmem

end Ledger

end Embedded
