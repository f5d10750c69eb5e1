import Mathlib.Algebra.Ring.Nat
import Mathlib.Data.List.Basic
import Mathlib.Data.List.Range
import Mathlib.Logic.Function.Basic

/-!
# Embedded.Mem

Flat memory as a function from addresses to cells, with the two operations
the C string library needs: reading a `slice` and overwriting one with
`store`.  `memcpy` is the composition of the two, so it also has the meaning
of `memmove`: the source is read as a whole before the destination changes.

Everything here is proved once so the drivers never redo address arithmetic.
-/

namespace Embedded

variable {α : Type*}

/-! ## slices -/

/-- The `n` cells of `m` from address `off` on, in order. -/
def slice (m : Nat → α) (off n : Nat) : List α := (List.range n).map fun i => m (off + i)

@[simp] theorem length_slice (m : Nat → α) (off n : Nat) : (slice m off n).length = n := by
  simp [slice]

@[simp] theorem slice_zero (m : Nat → α) (off : Nat) : slice m off 0 = [] := rfl

@[simp] theorem getElem_slice (m : Nat → α) (off n i : Nat) (h : i < (slice m off n).length) :
    (slice m off n)[i] = m (off + i) := by
  simp [slice]

/-- Two slices agree exactly when their cells do. -/
theorem slice_eq_slice_iff {m m' : Nat → α} {off off' n : Nat} :
    slice m off n = slice m' off' n ↔ ∀ i < n, m (off + i) = m' (off' + i) := by
  simp [slice, List.map_inj_left]

/-- A slice splits at any inner length. -/
theorem slice_add (m : Nat → α) (off a b : Nat) :
    slice m off (a + b) = slice m off a ++ slice m (off + a) b := by
  simp [slice, List.range_add, Nat.add_assoc, Function.comp_def]

/-- The first cell of a slice. -/
theorem slice_succ (m : Nat → α) (off n : Nat) :
    slice m off (n + 1) = m off :: slice m (off + 1) n := by
  rw [Nat.add_comm, slice_add]
  rfl

theorem take_slice (m : Nat → α) (off n k : Nat) (h : k ≤ n) :
    (slice m off n).take k = slice m off k := by
  obtain ⟨d, rfl⟩ := Nat.exists_eq_add_of_le h
  rw [slice_add, List.take_left' (length_slice m off k)]

theorem drop_slice (m : Nat → α) (off n k : Nat) (h : k ≤ n) :
    (slice m off n).drop k = slice m (off + k) (n - k) := by
  obtain ⟨d, rfl⟩ := Nat.exists_eq_add_of_le h
  rw [slice_add, List.drop_left' (length_slice m off k), Nat.add_sub_cancel_left]

/-- A slice of a list that is long enough. -/
theorem slice_getD (xs : List α) (z : α) (off n : Nat) (h : off + n ≤ xs.length) :
    slice (fun i => xs.getD i z) off n = (xs.drop off).take n := by
  apply List.ext_getElem
  · simp
    omega
  · intro i hi hi'
    have hlt : off + i < xs.length := by
      rw [length_slice] at hi
      omega
    simp [hlt]

/-! ## stores -/

/-- `m` after the cells `xs` have been written from address `off` on. -/
def store (m : Nat → α) (off : Nat) (xs : List α) : Nat → α := fun a =>
  if off ≤ a then (xs[a - off]?).getD (m a) else m a

@[simp] theorem store_nil (m : Nat → α) (off : Nat) : store m off [] = m := by
  funext a; simp [store]

/-- Inside the written range a store is read back. -/
theorem store_add (m : Nat → α) (off : Nat) (xs : List α) (i : Nat) (h : i < xs.length) :
    store m off xs (off + i) = xs[i] := by
  simp [store, h]

/-- Outside the written range a store changes nothing. -/
theorem store_of_not_mem (m : Nat → α) (off : Nat) (xs : List α) (a : Nat)
    (h : a < off ∨ off + xs.length ≤ a) : store m off xs a = m a := by
  unfold store
  split
  · next hle =>
      have hlen : xs.length ≤ a - off := by omega
      rw [List.getElem?_eq_none hlen]
      rfl
  · rfl

/-- Two adjacent stores are one store of the concatenation. -/
theorem store_store_append (m : Nat → α) (off : Nat) (xs ys : List α) :
    store (store m off xs) (off + xs.length) ys = store m off (xs ++ ys) := by
  funext a
  by_cases h1 : off ≤ a
  · by_cases h2 : off + xs.length ≤ a
    · have hsub : a - (off + xs.length) = a - off - xs.length := by omega
      have hge : xs.length ≤ a - off := by omega
      simp [store, h1, h2, hsub, List.getElem?_append_right hge, List.getElem?_eq_none hge]
    · have hlt : a - off < xs.length := by omega
      simp [store, h1, h2, List.getElem?_append_left hlt]
  · have h2 : ¬ off + xs.length ≤ a := by omega
    simp [store, h1, h2]

/-- The front of what was stored is stored again. -/
theorem store_store_front (m : Nat → α) (off : Nat) {xs xs' : List α}
    (h : xs'.length = xs.length) (ys : List α) :
    store (store m off (xs ++ ys)) off xs' = store m off (xs' ++ ys) := by
  funext a
  by_cases h1 : off ≤ a
  · by_cases h2 : a - off < xs.length
    · have h2' : a - off < xs'.length := by omega
      simp [store, h1, h2', List.getElem?_append_left]
    · simp [store, h1, h, List.getElem?_append_right (Nat.not_lt.mp h2),
        List.getElem?_append_right (h ▸ Nat.not_lt.mp h2),
        List.getElem?_eq_none (h ▸ Nat.not_lt.mp h2)]
  · simp [store, h1]

/-- What was stored is the slice at the same place. -/
@[simp] theorem slice_store_self (m : Nat → α) (off : Nat) (xs : List α) :
    slice (store m off xs) off xs.length = xs := by
  apply List.ext_getElem
  · simp
  · intro i hi hi'
    rw [getElem_slice, store_add m off xs i hi']

/-- A store beside a slice. -/
theorem slice_store_of_disjoint (m : Nat → α) (off : Nat) (xs : List α) (off' n : Nat)
    (h : off' + n ≤ off ∨ off + xs.length ≤ off') :
    slice (store m off xs) off' n = slice m off' n :=
  slice_eq_slice_iff.mpr fun _ _ => store_of_not_mem m off xs _ (by omega)

/-- What was stored, and what is behind it. -/
theorem slice_store_add (m : Nat → α) (off : Nat) (xs : List α) (n : Nat) :
    slice (store m off xs) off (xs.length + n) = xs ++ slice m (off + xs.length) n := by
  rw [slice_add, slice_store_self, slice_store_of_disjoint _ _ _ _ _ (.inr (Nat.le_refl _))]

/-! ## memcpy -/

/-- `memcpy(dst + doff, src + soff, n)`; with `src = dst` this is the
`memmove` meaning of an overlapping copy. -/
def memcpy (dst : Nat → α) (doff : Nat) (src : Nat → α) (soff n : Nat) : Nat → α :=
  store dst doff (slice src soff n)

/-- A copy to the front, cell by cell. -/
theorem memcpy_zero_apply (dst src : Nat → α) (soff n a : Nat) :
    memcpy dst 0 src soff n a = if a < n then src (soff + a) else dst a := by
  split
  · next hlt =>
      have hcell := store_add dst 0 (slice src soff n) a (by rw [length_slice]; exact hlt)
      rwa [Nat.zero_add, getElem_slice] at hcell
  · next hge => exact store_of_not_mem _ _ _ _ (by rw [length_slice]; omega)

/-- What is written is what is there already. -/
@[simp] theorem memcpy_self (m : Nat → α) (off n : Nat) : memcpy m off m off n = m := by
  funext a
  by_cases h : off ≤ a ∧ a < off + n
  · obtain ⟨i, rfl⟩ := Nat.exists_eq_add_of_le h.1
    have hi : i < (slice m off n).length := by rw [length_slice]; omega
    rw [memcpy, store_add m off _ i hi, getElem_slice]
  · rw [memcpy, store_of_not_mem m off _ a (by rw [length_slice]; omega)]

@[simp] theorem memcpy_zero (dst src : Nat → α) (doff soff : Nat) :
    memcpy dst doff src soff 0 = dst := by
  simp [memcpy]

end Embedded
