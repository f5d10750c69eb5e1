import Mathlib.Data.List.Range
import Mathlib.Data.Nat.Find

/-!
# Embedded.Poll

The polling loop `while(1) { value = read(); if(exit) break; }` on the values
that a register shows, one for each read.

* `poll_eq_some_iff` — it ends with the first value that meets the exit test;
* `exists_poll_iff` — it ends at all exactly when there is such a value.
-/

namespace Embedded

variable {α : Type*}

/-- The values read until one meets `exit`, if that is so within `fuel` rounds. -/
def poll (exit : α → Bool) : Nat → (Nat → α) → Option (List α)
  | 0, _ => none
  | fuel + 1, reads =>
      if exit (reads 0) then some [reads 0]
      else (poll exit fuel fun i => reads (i + 1)).map (reads 0 :: ·)

variable {exit : α → Bool} {reads : Nat → α} {fuel : Nat} {values : List α}

/-- The loop ends with the first value that meets the exit test. -/
theorem poll_eq_some_iff :
    poll exit fuel reads = some values ↔
      ∃ n < fuel, exit (reads n) = true ∧ (∀ i < n, exit (reads i) = false) ∧
        values = (List.range (n + 1)).map reads := by
  induction fuel generalizing reads values with
  | zero => simp [poll]
  | succ fuel ih =>
      rw [poll]
      cases hexit : exit (reads 0) with
      | true =>
          constructor
          · rintro h
            cases h
            exact ⟨0, Nat.succ_pos fuel, hexit, fun i hi => absurd hi (Nat.not_lt_zero i), rfl⟩
          · rintro ⟨n, _, _, hbefore, rfl⟩
            cases n with
            | zero => rfl
            | succ n => exact absurd (hexit.symm.trans (hbefore 0 (Nat.succ_pos n))) (by decide)
      | false =>
          rw [if_neg Bool.false_ne_true, Option.map_eq_some_iff]
          constructor
          · rintro ⟨rest, hrest, rfl⟩
            obtain ⟨n, hn, hlast, hbefore, rfl⟩ := ih.mp hrest
            refine ⟨n + 1, Nat.succ_lt_succ hn, hlast, fun i hi => ?_, ?_⟩
            · cases i with
              | zero => exact hexit
              | succ i => exact hbefore i (Nat.lt_of_succ_lt_succ hi)
            · rw [List.range_succ_eq_map (n := n + 1)]
              simp [Function.comp_def]
          · rintro ⟨n, hn, hlast, hbefore, rfl⟩
            cases n with
            | zero => exact absurd (hexit.symm.trans hlast) (by decide)
            | succ n =>
                refine ⟨_, ih.mpr ⟨n, Nat.lt_of_succ_lt_succ hn, hlast, fun i hi => ?_, rfl⟩, ?_⟩
                · exact hbefore (i + 1) (Nat.succ_lt_succ hi)
                · rw [List.range_succ_eq_map (n := n + 1)]
                  simp [Function.comp_def]

/-- The loop ends at all exactly when some value meets the exit test. -/
theorem exists_poll_iff :
    (∃ fuel, (poll exit fuel reads).isSome = true) ↔ ∃ n, exit (reads n) = true := by
  constructor
  · rintro ⟨fuel, h⟩
    obtain ⟨values, hvalues⟩ := Option.isSome_iff_exists.mp h
    obtain ⟨n, _, hlast, _⟩ := poll_eq_some_iff.mp hvalues
    exact ⟨n, hlast⟩
  · intro h
    have hlast := Nat.find_spec h
    refine ⟨Nat.find h + 1, Option.isSome_iff_exists.mpr ⟨_, poll_eq_some_iff.mpr
      ⟨Nat.find h, Nat.lt_succ_self _, hlast, fun i hi => ?_, rfl⟩⟩⟩
    exact Bool.not_eq_true _ ▸ Nat.find_min h hi

end Embedded
