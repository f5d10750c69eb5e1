import Mathlib.Data.List.Basic

/-!
# Embedded.Heap

The heap of a C program, as far as it tells which blocks may be used.  A block
is known by the number of its allocation, so that a block freed and a block
allocated later are different; a pointer is the number of a block, or `none`
for `NULL`.
-/

namespace Embedded

/-- The blocks allocated and not freed, and the number of the next block. -/
structure Heap where
  next : Nat
  live : List Nat
  lt_next : ∀ b ∈ live, b < next

/-- The heap at start-up. -/
def Heap.empty : Heap := ⟨0, [], by simp⟩

/-- `malloc`, which fails or succeeds: the pointer and the heap after it. -/
def Heap.malloc (ok : Bool) (h : Heap) : Option Nat × Heap :=
  if ok then
    (some h.next, ⟨h.next + 1, h.next :: h.live, by
      have := h.lt_next
      grind⟩)
  else (none, h)

/-- `free`; the null pointer is ignored. -/
def Heap.free (p : Option Nat) (h : Heap) : Heap :=
  ⟨h.next, h.live.filter fun b => some b ≠ p, by
    have := h.lt_next
    grind⟩

/-- `malloc` for each of a list of answers. -/
def Heap.mallocs : List Bool → Heap → List (Option Nat) × Heap
  | [], h => ([], h)
  | ok :: oks, h =>
      let (p, h) := h.malloc ok
      let (ps, h) := h.mallocs oks
      (p :: ps, h)

/-- The pointer is the address of a block that may be used. -/
def Heap.Allocated (h : Heap) (p : Option Nat) : Prop := ∃ b ∈ h.live, p = some b

instance (h : Heap) (p : Option Nat) : Decidable (h.Allocated p) :=
  inferInstanceAs (Decidable (∃ b ∈ h.live, p = some b))

/-- The pointer is null or comes from a `malloc`, whatever has been freed since. -/
def Heap.Issued (h : Heap) (p : Option Nat) : Prop := ∀ b, p = some b → b < h.next

variable {h : Heap} {p q : Option Nat} {ok : Bool}

/-- `NULL` is not an allocated block. -/
@[simp]
theorem Heap.not_allocated_none : ¬ h.Allocated none := by
  simp [Allocated]

/-- An allocated block has been issued. -/
theorem Heap.Allocated.issued (hp : h.Allocated p) : h.Issued p := by
  obtain ⟨b, hb, rfl⟩ := hp
  intro b' hb'
  cases hb'
  exact h.lt_next b hb

/-- `NULL` counts as issued. -/
@[simp]
theorem Heap.issued_none : h.Issued none := by
  simp [Issued]

/-! ## malloc -/

/-- The new pointer may be used exactly when the allocation succeeds. -/
theorem Heap.allocated_malloc : (h.malloc ok).2.Allocated (h.malloc ok).1 ↔ ok = true := by
  cases ok <;> simp [malloc, Allocated]

/-- The result of an allocation has been issued. -/
theorem Heap.issued_malloc : (h.malloc ok).2.Issued (h.malloc ok).1 := by
  cases ok <;> simp [malloc, Issued]

/-- A pointer from before stays what it was. -/
theorem Heap.allocated_malloc_iff (hp : h.Issued p) :
    (h.malloc ok).2.Allocated p ↔ h.Allocated p := by
  cases ok with
  | false => simp [malloc]
  | true =>
      have hne : p ≠ some h.next := fun heq => absurd (hp h.next heq) (Nat.lt_irrefl _)
      simp only [malloc, Allocated, if_true]
      grind

/-- An issued pointer stays issued. -/
theorem Heap.Issued.malloc (hp : h.Issued p) : (h.malloc ok).2.Issued p := by
  cases ok with
  | false => exact hp
  | true => exact fun b hb => Nat.lt_succ_of_lt (hp b hb)

/-- A new block is none of those from before. -/
theorem Heap.Issued.ne_malloc (hp : h.Issued p) (hok : ok = true) : p ≠ (h.malloc ok).1 := by
  rw [hok]
  exact fun heq => absurd (hp h.next heq) (Nat.lt_irrefl _)

/-! ## free -/

/-- A block may be used until it is freed. -/
theorem Heap.allocated_free : (h.free q).Allocated p ↔ h.Allocated p ∧ p ≠ q := by
  simp only [free, Allocated]
  grind

/-- Freeing takes no pointer back. -/
theorem Heap.Issued.free (hp : h.Issued p) : (h.free q).Issued p := hp

/-! ## several blocks -/

/-- Some allocations take no pointer back. -/
theorem Heap.Issued.mallocs (hp : h.Issued p) (oks : List Bool) : (h.mallocs oks).2.Issued p := by
  induction oks generalizing h with
  | nil => exact hp
  | cons ok oks ih => exact ih hp.malloc

/-- Allocations do not touch the blocks issued before. -/
theorem Heap.allocated_mallocs_iff (hp : h.Issued p) (oks : List Bool) :
    (h.mallocs oks).2.Allocated p ↔ h.Allocated p := by
  induction oks generalizing h with
  | nil => rfl
  | cons ok oks ih => exact (ih hp.malloc).trans (allocated_malloc_iff hp)

/-- The results of some allocations have been issued. -/
theorem Heap.issued_of_mem_mallocs (oks : List Bool) :
    ∀ q ∈ (h.mallocs oks).1, (h.mallocs oks).2.Issued q := by
  induction oks generalizing h with
  | nil => simp [mallocs]
  | cons ok oks ih =>
      intro q hq
      cases List.mem_cons.mp hq with
      | inl heq => rw [heq]; exact issued_malloc.mallocs oks
      | inr hmem => exact ih q hmem

/-- The new blocks are none of those from before. -/
theorem Heap.Issued.ne_mallocs (hp : h.Issued p) (hsome : p ≠ none) (oks : List Bool) :
    ∀ q ∈ (h.mallocs oks).1, p ≠ q := by
  induction oks generalizing h with
  | nil => simp [Heap.mallocs]
  | cons ok oks ih =>
      intro q hq
      cases List.mem_cons.mp hq with
      | inl heq =>
          rw [heq]
          cases ok with
          | false => exact hsome
          | true => exact hp.ne_malloc rfl
      | inr hmem => exact ih hp.malloc q hmem

end Embedded
