import Mathlib.Data.List.TakeWhile
import Mathlib.Data.Nat.Digits.Defs

/-!
# Embedded.Digits

The first number in a text.  `beforeRun`, `firstRun` and `afterRun` are the text
before the first digit, the maximal run of digits there, and the rest;
`numeral` is the value of digits, highest first.
-/

namespace Embedded

variable {α : Type*} (p : α → Bool)

/-- The text before the first digit. -/
def beforeRun (l : List α) : List α := l.takeWhile fun a => !p a

/-- The first maximal run of digits. -/
def firstRun (l : List α) : List α := (l.dropWhile fun a => !p a).takeWhile p

/-- The text behind that run. -/
def afterRun (l : List α) : List α := (l.dropWhile fun a => !p a).dropWhile p

/-- The value of digits in base `b`, highest first. -/
def numeral (b : Nat) (ds : List Nat) : Nat := Nat.ofDigits b ds.reverse

@[simp] theorem numeral_nil (b : Nat) : numeral b [] = 0 := rfl

@[simp] theorem numeral_concat (b : Nat) (ds : List Nat) (d : Nat) :
    numeral b (ds ++ [d]) = numeral b ds * b + d := by
  rw [numeral, List.reverse_concat, Nat.ofDigits_cons, numeral, Nat.mul_comm, Nat.add_comm]

variable {p} {l before run after : List α}

/-- The three parts are the list. -/
theorem beforeRun_append_firstRun_append_afterRun (l : List α) :
    beforeRun p l ++ (firstRun p l ++ afterRun p l) = l := by
  rw [firstRun, afterRun, List.takeWhile_append_dropWhile, beforeRun,
    List.takeWhile_append_dropWhile]

/-- There is no digit before the first run. -/
theorem not_of_mem_beforeRun {a : α} (h : a ∈ beforeRun p l) : p a = false := by
  have hnot := List.mem_takeWhile_imp h
  rwa [Bool.not_eq_true'] at hnot

/-- The run is of digits. -/
theorem of_mem_firstRun {a : α} (h : a ∈ firstRun p l) : p a = true := List.mem_takeWhile_imp h

/-- The run is maximal. -/
theorem not_of_head_afterRun {a : α} (h : a ∈ (afterRun p l).head?) : p a = false := by
  have hhead := List.head?_dropWhile_not p (l.dropWhile fun a => !p a)
  rw [show (List.dropWhile p (l.dropWhile fun a => !p a)).head? = some a from h] at hhead
  simpa using hhead

/-- Without a digit there is nothing behind the run either. -/
theorem afterRun_of_firstRun_eq_nil (h : firstRun p l = []) : afterRun p l = [] := by
  cases hrest : l.dropWhile fun a => !p a with
  | nil => rw [afterRun, hrest, List.dropWhile_nil]
  | cons a rest =>
      have hdigit : p a = true := by
        have hhead := List.head?_dropWhile_not (fun a => !p a) l
        rw [hrest] at hhead
        simpa using hhead
      rw [firstRun, hrest, List.takeWhile_cons, if_pos hdigit] at h
      cases h

/-- A text that is put together from its parts falls into these parts. -/
theorem beforeRun_firstRun_append (hbefore : ∀ a ∈ before, p a = false)
    (hrun : ∀ a ∈ run, p a = true) (hne : run ≠ []) (hafter : ∀ a ∈ after.head?, p a = false) :
    beforeRun p (before ++ (run ++ after)) = before ∧
      firstRun p (before ++ (run ++ after)) = run := by
  have hnot : ∀ a ∈ before, (!p a) = true := by
    intro a ha
    rw [hbefore a ha]
    rfl
  obtain ⟨d, ds, rfl⟩ := List.exists_cons_of_ne_nil hne
  have hd : (!p d) = false := by
    rw [hrun d List.mem_cons_self]
    rfl
  constructor
  · rw [beforeRun, List.takeWhile_append_of_pos hnot, List.cons_append, List.takeWhile_cons, hd]
    exact List.append_nil before
  · rw [firstRun, List.dropWhile_append_of_pos hnot, List.cons_append,
      List.dropWhile_cons_of_neg (by simp [hd]), ← List.cons_append,
      List.takeWhile_append_of_pos hrun]
    cases after with
    | nil => simp
    | cons a rest => simp [hafter a rfl]

end Embedded
