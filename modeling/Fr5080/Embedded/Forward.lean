import Mathlib.Logic.Function.Basic

/-!
# Embedded.Forward

A copy loop that moves cell after cell, `*dst++ = *src++`, inside one memory.
When the places overlap, a cell may be read after the loop has written it.

* `copyForward` — the memory after `n` rounds, `readForward` — what round `i` moves;
* `readForward_eq_iff` — every round moves the cell that was there at the start
  exactly when the cells written over others still to be read are equal to them.
-/

namespace Embedded

variable {A V : Type*} [DecidableEq A]

section

variable (dst src : Nat → A) (m : A → V)

/-- The memory after `n` rounds. -/
def copyForward : Nat → A → V
  | 0 => m
  | n + 1 => Function.update (copyForward n) (dst n) (copyForward n (src n))

/-- The cell that round `i` moves. -/
def readForward (i : Nat) : V := copyForward dst src m i (src i)

end

variable {dst src : Nat → A} {m : A → V}

@[simp] theorem copyForward_zero : copyForward dst src m 0 = m := rfl

theorem copyForward_succ (n : Nat) :
    copyForward dst src m (n + 1) =
      Function.update (copyForward dst src m n) (dst n) (readForward dst src m n) := rfl

/-- Elsewhere nothing changes. -/
theorem copyForward_of_ne {n : Nat} {a : A} (h : ∀ i < n, dst i ≠ a) :
    copyForward dst src m n a = m a := by
  induction n with
  | zero => rfl
  | succ n ih =>
      have hne : a ≠ dst n := fun heq => h n (Nat.lt_succ_self n) heq.symm
      rw [copyForward_succ, Function.update_of_ne hne]
      exact ih fun i hi => h i (Nat.lt_succ_of_lt hi)

/-- What was moved to a place is there. -/
theorem copyForward_dst {n k : Nat} (hinj : ∀ i < n, ∀ j < n, dst i = dst j → i = j)
    (hk : k < n) : copyForward dst src m n (dst k) = readForward dst src m k := by
  induction n with
  | zero => exact absurd hk (Nat.not_lt_zero k)
  | succ n ih =>
      rw [copyForward_succ]
      by_cases heq : k = n
      · rw [heq, Function.update_self]
      · have hlt : k < n := by omega
        have hne : dst k ≠ dst n := fun h => heq (hinj k hk n (Nat.lt_succ_self n) h)
        rw [Function.update_of_ne hne]
        exact ih (fun i hi j hj => hinj i (by omega) j (by omega)) hlt

/-- **Overlapping copies**: every round moves the original cell exactly when each cell that is
written over another one still to be read is equal to it. -/
theorem readForward_eq_iff {n : Nat} (hinj : ∀ i < n, ∀ j < n, dst i = dst j → i = j) :
    (∀ i < n, readForward dst src m i = m (src i)) ↔
      ∀ k j, k < j → j < n → dst k = src j → m (src j) = m (src k) := by
  have hread : ∀ k j, k < j → j < n → dst k = src j →
      readForward dst src m j = readForward dst src m k := by
    intro k j hkj hj heq
    rw [readForward, ← heq]
    exact copyForward_dst (fun i hi i' hi' => hinj i (by omega) i' (by omega)) hkj
  constructor
  · intro h k j hkj hj heq
    rw [← h j hj, ← h k (by omega), hread k j hkj hj heq]
  · intro h i
    induction i using Nat.strongRecOn with
    | ind i ih =>
        intro hi
        by_cases hover : ∃ k < i, dst k = src i
        · obtain ⟨k, hk, heq⟩ := hover
          rw [hread k i hk hi heq, ih k hk (by omega), h k i hk hi heq]
        · exact copyForward_of_ne fun k hk heq => hover ⟨k, hk, heq⟩

end Embedded
