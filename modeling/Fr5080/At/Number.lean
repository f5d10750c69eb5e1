import Mathlib.Data.List.Induction
import Fr5080.Embedded.Digits
import Fr5080.Embedded.Mem

/-!
# Fr5080.At.Number

`ascii_strn2val` of `co_util.c` and of `app_at.c`, which has a copy of it: the
number in `n` characters.

A character that is no digit is skipped as long as `val` is zero, so a run of
digits with the value zero is taken for text before the number.
-/

namespace Fr5080

open Embedded

/-! ## the code -/

/-- `ascii_char2val`. -/
def asciiChar2val (c : UInt8) : UInt8 :=
  if 0x30 ≤ c ∧ c ≤ 0x39 then c - 0x30
  else if (0x61 ≤ c ∧ c ≤ 0x66) ∨ (0x41 ≤ c ∧ c ≤ 0x46) then (c &&& 0x7) + 9
  else 0xFF

/-- The loop of `ascii_strn2val` with `n` characters left: `val`, and how many characters
have been read, a history variable. -/
def asciiStrn2valLoop (str : Nat → UInt8) (base : UInt8) : Nat → Nat → UInt32 → UInt32 × Nat
  | 0, done, val => (val, done)
  | n + 1, done, val =>
      let v := asciiChar2val (str done)
      if v = 0xFF ∨ base ≤ v then
        if val = 0 then asciiStrn2valLoop str base n (done + 1) val else (val, done + 1)
      else asciiStrn2valLoop str base n (done + 1) (val * base.toUInt32 + v.toUInt32)

/-- `ascii_strn2val`. -/
def asciiStrn2val (str : Nat → UInt8) (base n : UInt8) : UInt32 :=
  (asciiStrn2valLoop str base n.toNat 0 0).1

/-- The number of characters that `ascii_strn2val` reads. -/
def asciiStrn2valReads (str : Nat → UInt8) (base n : UInt8) : Nat :=
  (asciiStrn2valLoop str base n.toNat 0 0).2

/-! ## the first number -/

/-- The value of a character as a digit. -/
def digitOf (c : UInt8) : Option Nat :=
  if 0x30 ≤ c.toNat ∧ c.toNat ≤ 0x39 then some (c.toNat - 0x30)
  else if 0x41 ≤ c.toNat ∧ c.toNat ≤ 0x46 then some (c.toNat - 0x41 + 10)
  else if 0x61 ≤ c.toNat ∧ c.toNat ≤ 0x66 then some (c.toNat - 0x61 + 10)
  else none

/-- A digit that is valid in the base. -/
def isDigit (base c : UInt8) : Bool := (digitOf c).any (· < base.toNat)

/-- The value of a run of digits. -/
def runVal (base : UInt8) (run : List UInt8) : Nat :=
  numeral base.toNat (run.map fun c => (digitOf c).getD 0)

/-- The `n` characters at `str`. -/
def chars (str : Nat → UInt8) (n : UInt8) : List UInt8 := slice str 0 n.toNat

/-- What `ascii_strn2val` is for: the value of the first run of digits, and no influence of
the characters behind it. -/
structure ReturnsFirstNumber (str : Nat → UInt8) (base n : UInt8) : Prop where
  value : asciiStrn2val str base n =
    UInt32.ofNat (runVal base (firstRun (isDigit base) (chars str n)))
  rest : ∀ str', beforeRun (isDigit base) (chars str' n) = beforeRun (isDigit base) (chars str n) →
    firstRun (isDigit base) (chars str' n) = firstRun (isDigit base) (chars str n) →
    asciiStrn2val str' base n = asciiStrn2val str base n

variable {str : Nat → UInt8} {base n : UInt8}

/-! ## one character -/

theorem digitOf_lt {c : UInt8} {d : Nat} (h : digitOf c = some d) : d < 16 := by
  rw [digitOf] at h
  split_ifs at h <;> cases h <;> omega

/-- `ascii_char2val` knows all digits. -/
theorem toNat_asciiChar2val (c : UInt8) : (asciiChar2val c).toNat = (digitOf c).getD 0xFF := by
  have hlow : (c &&& 0x7).toNat = c.toNat % 2 ^ 3 := by
    rw [← Nat.and_two_pow_sub_one_eq_mod]
    exact UInt8.toNat_and c 0x7
  rw [asciiChar2val, digitOf]
  simp only [UInt8.le_iff_toNat_le]
  change UInt8.toNat (if 0x30 ≤ c.toNat ∧ c.toNat ≤ 0x39 then c - 0x30 else
    if (0x61 ≤ c.toNat ∧ c.toNat ≤ 0x66) ∨ (0x41 ≤ c.toNat ∧ c.toNat ≤ 0x46) then
      (c &&& 0x7) + 9 else 0xFF) = _
  by_cases hdigit : 0x30 ≤ c.toNat ∧ c.toNat ≤ 0x39
  · have hle : (0x30 : UInt8) ≤ c := UInt8.le_iff_toNat_le.mpr hdigit.1
    rw [if_pos hdigit, if_pos hdigit, UInt8.toNat_sub_of_le _ _ hle]
    rfl
  · rw [if_neg hdigit, if_neg hdigit]
    have hval : ((c &&& 0x7) + 9).toNat = c.toNat % 8 + 9 := by
      rw [UInt8.toNat_add, hlow]
      change (c.toNat % 2 ^ 3 + 9) % 2 ^ 8 = _
      omega
    by_cases hupper : 0x41 ≤ c.toNat ∧ c.toNat ≤ 0x46
    · rw [if_pos (Or.inr hupper), if_pos hupper, hval, Option.getD_some]
      omega
    · rw [if_neg hupper]
      by_cases hlower : 0x61 ≤ c.toNat ∧ c.toNat ≤ 0x66
      · rw [if_pos (Or.inl hlower), if_pos hlower, hval, Option.getD_some]
        omega
      · rw [if_neg (fun h => h.elim hlower hupper), if_neg hlower]
        rfl

/-- The test of the loop finds out whether a character is a digit of the base. -/
theorem asciiChar2val_rejected_iff (c : UInt8) :
    (asciiChar2val c = 0xFF ∨ base ≤ asciiChar2val c) ↔ isDigit base c = false := by
  rw [isDigit, ← UInt8.toNat_inj, UInt8.le_iff_toNat_le, toNat_asciiChar2val]
  cases hd : digitOf c with
  | none => simp
  | some d =>
      have hlt := digitOf_lt hd
      simp
      omega

theorem toNat_asciiChar2val_of_isDigit {c : UInt8} (h : isDigit base c = true) :
    (asciiChar2val c).toNat = (digitOf c).getD 0 ∧ (asciiChar2val c).toNat < base.toNat := by
  rw [toNat_asciiChar2val]
  cases hd : digitOf c with
  | none => simp [isDigit, hd] at h
  | some d => exact ⟨rfl, by simpa [isDigit, hd] using h⟩

/-! ## the loop over a text -/

/-- `val` with one more digit. -/
def appendDigit (base : UInt8) (val : UInt32) (c : UInt8) : UInt32 :=
  val * base.toUInt32 + (asciiChar2val c).toUInt32

/-- The loop of `ascii_strn2val` over a list of characters. -/
def numberFrom (base : UInt8) : UInt32 → List UInt8 → UInt32
  | val, [] => val
  | val, c :: cs =>
      if isDigit base c then numberFrom base (appendDigit base val c) cs
      else if val = 0 then numberFrom base val cs else val

/-- One character of the loop. -/
theorem asciiStrn2valLoop_succ (k done : Nat) (val : UInt32) :
    asciiStrn2valLoop str base (k + 1) done val =
      if isDigit base (str done) then
        asciiStrn2valLoop str base k (done + 1) (appendDigit base val (str done))
      else if val = 0 then asciiStrn2valLoop str base k (done + 1) val else (val, done + 1) := by
  rw [asciiStrn2valLoop]
  cases hdigit : isDigit base (str done) with
  | false => exact if_pos (asciiChar2val_rejected_iff _ |>.mpr hdigit)
  | true =>
      refine if_neg fun hrejected => ?_
      rw [asciiChar2val_rejected_iff, hdigit] at hrejected
      cases hrejected

theorem fst_asciiStrn2valLoop (k done : Nat) (val : UInt32) :
    (asciiStrn2valLoop str base k done val).1 = numberFrom base val (slice str done k) := by
  induction k generalizing done val with
  | zero => rfl
  | succ k ih =>
      rw [asciiStrn2valLoop_succ, slice_succ, numberFrom]
      split
      · exact ih _ _
      · split
        · exact ih _ _
        · rfl

theorem asciiStrn2val_eq : asciiStrn2val str base n = numberFrom base 0 (chars str n) :=
  fst_asciiStrn2valLoop n.toNat 0 0

/-- Text without a digit is skipped. -/
theorem numberFrom_skip {before : List UInt8} (h : ∀ c ∈ before, isDigit base c = false)
    (cs : List UInt8) : numberFrom base 0 (before ++ cs) = numberFrom base 0 cs := by
  induction before with
  | nil => rfl
  | cons c before ih =>
      rw [List.cons_append, numberFrom, h c List.mem_cons_self, if_neg Bool.false_ne_true,
        if_pos rfl]
      exact ih fun c' hc' => h c' (List.mem_cons_of_mem c hc')

/-- Digits are added up. -/
theorem numberFrom_digits {run : List UInt8} (h : ∀ c ∈ run, isDigit base c = true)
    (val : UInt32) (cs : List UInt8) :
    numberFrom base val (run ++ cs) = numberFrom base (run.foldl (appendDigit base) val) cs := by
  induction run generalizing val with
  | nil => rfl
  | cons c run ih =>
      rw [List.cons_append, numberFrom, if_pos (h c List.mem_cons_self), List.foldl_cons]
      exact ih (fun c' hc' => h c' (List.mem_cons_of_mem c hc')) _

/-- The loop stops behind a number. -/
theorem numberFrom_stop {after : List UInt8} (h : ∀ c ∈ after.head?, isDigit base c = false)
    {val : UInt32} (hval : val ≠ 0) : numberFrom base val after = val := by
  cases after with
  | nil => rfl
  | cons c cs => rw [numberFrom, h c rfl, if_neg Bool.false_ne_true, if_neg hval]

/-- What the digits add up to. -/
theorem foldl_appendDigit {run : List UInt8} (h : ∀ c ∈ run, isDigit base c = true) :
    run.foldl (appendDigit base) 0 = UInt32.ofNat (runVal base run) := by
  induction run using List.reverseRecOn with
  | nil => rfl
  | append_singleton run c ih =>
      have hdigit : isDigit base c = true := h c (by simp)
      have hval := (toNat_asciiChar2val_of_isDigit hdigit).1
      have hrun : ∀ c' ∈ run, isDigit base c' = true := fun c' hc' => h c' (by simp [hc'])
      rw [List.foldl_append, List.foldl_cons, List.foldl_nil, ih hrun, appendDigit]
      have hlast : runVal base (run ++ [c]) =
          runVal base run * base.toNat + (asciiChar2val c).toNat := by
        rw [runVal, List.map_append, List.map_singleton, numeral_concat, hval, runVal]
      rw [hlast, UInt32.ofNat_add, UInt32.ofNat_mul, UInt32.ofNat_uInt8ToNat,
        UInt32.ofNat_uInt8ToNat]

/-- The number of a text, from its parts. -/
theorem numberFrom_parts {before run after : List UInt8}
    (hbefore : ∀ c ∈ before, isDigit base c = false) (hrun : ∀ c ∈ run, isDigit base c = true) :
    numberFrom base 0 (before ++ (run ++ after)) =
      numberFrom base (UInt32.ofNat (runVal base run)) after := by
  rw [numberFrom_skip hbefore, numberFrom_digits hrun, foldl_appendDigit hrun]

/-! ## what is read -/

/-- A digit of the base that is not zero. -/
def IsNonzeroDigit (base c : UInt8) : Prop := isDigit base c = true ∧ digitOf c ≠ some 0

instance IsNonzeroDigit.decidable (base c : UInt8) : Decidable (IsNonzeroDigit base c) :=
  inferInstanceAs (Decidable (_ ∧ _))

theorem IsNonzeroDigit.pos {c : UInt8} (h : IsNonzeroDigit base c) : 0 < (digitOf c).getD 0 := by
  obtain ⟨hdigit, hne⟩ := h
  cases hd : digitOf c with
  | none => simp [isDigit, hd] at hdigit
  | some d =>
      refine Nat.pos_of_ne_zero fun hzero => hne ?_
      rw [hd]
      exact congrArg some hzero

theorem le_snd_asciiStrn2valLoop (k done : Nat) (val : UInt32) :
    done ≤ (asciiStrn2valLoop str base k done val).2 := by
  induction k generalizing done val with
  | zero => exact Nat.le_refl done
  | succ k ih =>
      have hnext : ∀ val, done ≤ (asciiStrn2valLoop str base k (done + 1) val).2 :=
        fun val => Nat.le_of_succ_le (ih (done + 1) val)
      rw [asciiStrn2valLoop_succ]
      split
      · exact hnext _
      · split
        · exact hnext _
        · exact Nat.le_succ done

theorem snd_asciiStrn2valLoop_le (k done : Nat) (val : UInt32) :
    (asciiStrn2valLoop str base k done val).2 ≤ done + k := by
  induction k generalizing done val with
  | zero => exact Nat.le_refl done
  | succ k ih =>
      have hnext : ∀ val, (asciiStrn2valLoop str base k (done + 1) val).2 ≤ done + (k + 1) := by
        intro val
        have hle := ih (done + 1) val
        omega
      rw [asciiStrn2valLoop_succ]
      split
      · exact hnext _
      · split
        · exact hnext _
        · show done + 1 ≤ done + (k + 1)
          omega

theorem lt_snd_asciiStrn2valLoop {k : Nat} (hk : 0 < k) (done : Nat) (val : UInt32) :
    done < (asciiStrn2valLoop str base k done val).2 := by
  obtain ⟨k, rfl⟩ := Nat.exists_eq_add_one.mpr hk
  have hnext : ∀ val, done < (asciiStrn2valLoop str base k (done + 1) val).2 :=
    fun val => le_snd_asciiStrn2valLoop k (done + 1) val
  rw [asciiStrn2valLoop_succ]
  split
  · exact hnext _
  · split
    · exact hnext _
    · exact Nat.lt_succ_self done

/-- A zero leaves `val` zero. -/
theorem appendDigit_zero {c : UInt8} (h : isDigit base c = true) (hz : ¬ IsNonzeroDigit base c) :
    appendDigit base 0 c = 0 := by
  have hzero : digitOf c = some 0 := by
    by_contra hne
    exact hz ⟨h, hne⟩
  have hval := (toNat_asciiChar2val_of_isDigit h).1
  rw [hzero] at hval
  have hchar : asciiChar2val c = 0 := UInt8.toNat_inj.mp hval
  rw [appendDigit, UInt32.zero_mul, UInt32.zero_add, hchar]
  rfl

/-- As long as there is no digit but zero, the loop goes on. -/
theorem lt_snd_of_no_digit {k done n : Nat} (hle : done ≤ k) (hlt : k < done + n)
    (hno : ∀ i, done ≤ i → i < k → ¬ IsNonzeroDigit base (str i)) :
    k < (asciiStrn2valLoop str base n done 0).2 := by
  induction n generalizing done with
  | zero => omega
  | succ n ih =>
      obtain rfl | hdone := Nat.eq_or_lt_of_le hle
      · exact lt_snd_asciiStrn2valLoop (Nat.succ_pos n) done 0
      · have hrest : k < (asciiStrn2valLoop str base n (done + 1) 0).2 :=
          ih hdone (by omega) fun i hi => hno i (by omega)
        rw [asciiStrn2valLoop_succ]
        split
        · next hdigit => rwa [appendDigit_zero hdigit (hno done (Nat.le_refl done) hdone)]
        · rwa [if_pos rfl]

/-- The value stays within the digits read, as long as these fit. -/
theorem toNat_appendDigit {c : UInt8} {val : UInt32} {done : Nat} (h : isDigit base c = true)
    (hval : val.toNat < base.toNat ^ done) (hfit : base.toNat ^ (done + 1) ≤ 2 ^ 32) :
    (appendDigit base val c).toNat = val.toNat * base.toNat + (digitOf c).getD 0 ∧
      (appendDigit base val c).toNat < base.toNat ^ (done + 1) := by
  obtain ⟨hd, hlt⟩ := toNat_asciiChar2val_of_isDigit h
  have hbound : val.toNat * base.toNat + (asciiChar2val c).toNat < base.toNat ^ (done + 1) := by
    calc
      val.toNat * base.toNat + (asciiChar2val c).toNat
        < val.toNat * base.toNat + base.toNat := Nat.add_lt_add_left hlt _
      _ = (val.toNat + 1) * base.toNat := by rw [Nat.add_mul, Nat.one_mul]
      _ ≤ base.toNat ^ done * base.toNat := Nat.mul_le_mul_right _ hval
      _ = base.toNat ^ (done + 1) := (Nat.pow_succ ..).symm
  have heq : (appendDigit base val c).toNat =
      val.toNat * base.toNat + (asciiChar2val c).toNat := by
    rw [appendDigit, UInt32.toNat_add, UInt32.toNat_mul, UInt8.toNat_toUInt32,
      UInt8.toNat_toUInt32, Nat.mod_add_mod]
    exact Nat.mod_eq_of_lt (Nat.lt_of_lt_of_le hbound hfit)
  rw [heq, ← hd]
  exact ⟨rfl, hbound⟩

/-- Behind a number the loop stops at the first character that is no digit. -/
theorem snd_le_of_digit {k done n : Nat} {val : UInt32} (hle : done ≤ k) (hlt : k < done + n)
    (hlast : isDigit base (str k) = false) (hval : val.toNat < base.toNat ^ done)
    (hfit : ∀ i ≤ done + n, base.toNat ^ i ≤ 2 ^ 32)
    (hdigit : val ≠ 0 ∨ ∃ i, done ≤ i ∧ i < k ∧ IsNonzeroDigit base (str i)) :
    (asciiStrn2valLoop str base n done val).2 ≤ k + 1 := by
  induction n generalizing done val with
  | zero => omega
  | succ n ih =>
      rw [asciiStrn2valLoop_succ]
      split
      · next hhere =>
          have hne : done ≠ k := by
            rintro rfl
            rw [hlast] at hhere
            cases hhere
          obtain ⟨heq, hbound⟩ := toNat_appendDigit hhere hval (hfit (done + 1) (by omega))
          refine ih (by omega) (by omega) hbound (fun i hi => hfit i (by omega)) ?_
          rw [← UInt32.toNat_inj.ne, heq]
          obtain hne' | ⟨i, hi, hik, hdig⟩ := hdigit
          · have hpos : 0 < val.toNat * base.toNat :=
              Nat.mul_pos (Nat.pos_of_ne_zero fun hzero => hne' (UInt32.toNat_inj.mp hzero))
                (Nat.zero_lt_of_lt (toNat_asciiChar2val_of_isDigit hhere).2)
            exact Or.inl (Nat.ne_of_gt (Nat.add_pos_left hpos _))
          · obtain rfl | hlater := Nat.eq_or_lt_of_le hi
            · exact Or.inl (Nat.ne_of_gt (Nat.add_pos_right _ hdig.pos))
            · exact Or.inr ⟨i, hlater, hik, hdig⟩
      · next hhere =>
          split
          · next hzero =>
              obtain hne | ⟨i, hi, hik, hdig⟩ := hdigit
              · exact absurd hzero hne
              · have hne : i ≠ done := by
                  rintro rfl
                  exact hhere hdig.1
                refine ih (by omega) (by omega) ?_ (fun i hi => hfit i (by omega))
                  (Or.inr ⟨i, by omega, hik, hdig⟩)
                rw [hzero]
                exact Nat.pow_pos (Nat.zero_lt_of_lt (toNat_asciiChar2val_of_isDigit hdig.1).2)
          · show done + 1 ≤ k + 1
            omega

/-- Where a character that is no digit stands at `k`, nothing behind it is read exactly when a
number comes before. -/
theorem asciiStrn2valReads_le_iff {k : Nat} (hfit : base.toNat ^ n.toNat ≤ 2 ^ 32)
    (hk : k + 1 < n.toNat) (hlast : isDigit base (str k) = false) :
    asciiStrn2valReads str base n ≤ k + 1 ↔ ∃ i < k + 1, IsNonzeroDigit base (str i) := by
  constructor
  · intro hle
    by_contra hno
    have hlt := @lt_snd_of_no_digit str base (k + 1) 0 n.toNat (Nat.zero_le _) (by omega)
      fun i _ hi hdig => hno ⟨i, hi, hdig⟩
    exact absurd hle (Nat.not_le.mpr hlt)
  · rintro ⟨i, hi, hdig⟩
    have hne : i ≠ k := by
      rintro rfl
      rw [IsNonzeroDigit, hlast] at hdig
      exact Bool.false_ne_true hdig.1
    have hbase := Nat.zero_lt_of_lt (toNat_asciiChar2val_of_isDigit hdig.1).2
    refine snd_le_of_digit (Nat.zero_le k) (by omega) hlast ?_ ?_ ?_
    · exact Nat.pow_pos hbase
    · intro j hj
      exact Nat.le_trans (Nat.pow_le_pow_right hbase (by omega)) hfit
    · exact Or.inr ⟨i, Nat.zero_le i, by omega, hdig⟩

/-! ## when it is the first number -/

/-- The first run of digits is not taken for text before the number: there is none, its
value as an `int` is not zero, or not more than one character follows. -/
def FirstNumberFound (str : Nat → UInt8) (base n : UInt8) : Prop :=
  firstRun (isDigit base) (chars str n) = [] ∨
    runVal base (firstRun (isDigit base) (chars str n)) % 2 ^ 32 ≠ 0 ∨
    (afterRun (isDigit base) (chars str n)).length ≤ 1

@[simp] theorem length_chars (str : Nat → UInt8) (n : UInt8) : (chars str n).length = n.toNat :=
  length_slice str 0 n.toNat

/-- Every text is the text at some address. -/
theorem exists_chars {l : List UInt8} (h : l.length = n.toNat) : ∃ str, chars str n = l := by
  refine ⟨fun i => l.getD i 0, ?_⟩
  rw [chars, ← h, slice_getD l 0 0 l.length (by omega), List.drop_zero, List.take_length]

theorem asciiStrn2val_parts (str : Nat → UInt8) (base n : UInt8) :
    asciiStrn2val str base n =
      numberFrom base (UInt32.ofNat (runVal base (firstRun (isDigit base) (chars str n))))
        (afterRun (isDigit base) (chars str n)) := by
  have hbefore : ∀ c ∈ beforeRun (isDigit base) (chars str n), isDigit base c = false :=
    fun _ => not_of_mem_beforeRun
  have hrun : ∀ c ∈ firstRun (isDigit base) (chars str n), isDigit base c = true :=
    fun _ => of_mem_firstRun
  rw [← numberFrom_parts hbefore hrun, beforeRun_append_firstRun_append_afterRun,
    asciiStrn2val_eq]

theorem ofNat_eq_zero_iff (k : Nat) : UInt32.ofNat k = 0 ↔ k % 2 ^ 32 = 0 := by
  rw [← UInt32.toNat_inj, UInt32.toNat_ofNat']
  rfl

/-- The number found is that of the first run. -/
theorem FirstNumberFound.value (h : FirstNumberFound str base n) :
    asciiStrn2val str base n =
      UInt32.ofNat (runVal base (firstRun (isDigit base) (chars str n))) := by
  have hhead : ∀ c ∈ (afterRun (isDigit base) (chars str n)).head?, isDigit base c = false :=
    fun _ => not_of_head_afterRun
  rw [asciiStrn2val_parts]
  obtain hnone | hval | hshort := h
  · rw [afterRun_of_firstRun_eq_nil hnone]
    rfl
  · exact numberFrom_stop hhead fun hzero => hval ((ofNat_eq_zero_iff _).mp hzero)
  · cases hafter : afterRun (isDigit base) (chars str n) with
    | nil => rfl
    | cons c cs =>
        rw [hafter] at hhead hshort
        obtain rfl : cs = [] := by simpa using hshort
        rw [numberFrom, hhead c rfl, if_neg Bool.false_ne_true]
        simp [numberFrom]

/-- The condition is about the text up to the end of the run, and the length. -/
theorem FirstNumberFound.congr {str' : Nat → UInt8} (h : FirstNumberFound str base n)
    (hbefore : beforeRun (isDigit base) (chars str' n) = beforeRun (isDigit base) (chars str n))
    (hfirst : firstRun (isDigit base) (chars str' n) = firstRun (isDigit base) (chars str n)) :
    FirstNumberFound str' base n := by
  have hlength : ∀ s : Nat → UInt8, (beforeRun (isDigit base) (chars s n)).length +
      ((firstRun (isDigit base) (chars s n)).length +
        (afterRun (isDigit base) (chars s n)).length) = n.toNat := by
    intro s
    rw [← List.length_append, ← List.length_append, beforeRun_append_firstRun_append_afterRun,
      length_chars]
  have hlen := hlength str
  have hlen' := hlength str'
  rw [hbefore, hfirst] at hlen'
  have hafter : (afterRun (isDigit base) (chars str' n)).length =
      (afterRun (isDigit base) (chars str n)).length := by omega
  rw [FirstNumberFound, hfirst, hafter]
  exact h

/-- Another text behind a run with the value zero, whose number is one. -/
theorem exists_other_rest (hbase : base = 10 ∨ base = 16)
    (hnone : firstRun (isDigit base) (chars str n) ≠ [])
    (hval : UInt32.ofNat (runVal base (firstRun (isDigit base) (chars str n))) = 0)
    (hlong : 2 ≤ (afterRun (isDigit base) (chars str n)).length) :
    ∃ str', beforeRun (isDigit base) (chars str' n) = beforeRun (isDigit base) (chars str n) ∧
      firstRun (isDigit base) (chars str' n) = firstRun (isDigit base) (chars str n) ∧
      asciiStrn2val str' base n = 1 := by
  match hafter : afterRun (isDigit base) (chars str n), hlong with
  | c :: d :: rest, _ =>
      have hnot : isDigit base c = false := by
        refine @not_of_head_afterRun _ _ (chars str n) _ ?_
        rw [hafter]
        rfl
      have hbefore : ∀ a ∈ beforeRun (isDigit base) (chars str n), isDigit base a = false :=
        fun _ => not_of_mem_beforeRun
      have hrun : ∀ a ∈ firstRun (isDigit base) (chars str n), isDigit base a = true :=
        fun _ => of_mem_firstRun
      have hone : isDigit base 0x31 = true := by obtain rfl | rfl := hbase <;> rfl
      have hlength := congrArg List.length
        (@beforeRun_append_firstRun_append_afterRun _ (isDigit base) (chars str n))
      rw [length_chars, hafter] at hlength
      have hhead : ∀ a ∈ (c :: 0x31 :: List.replicate rest.length c).head?,
          isDigit base a = false := by
        rintro a ⟨⟩
        exact hnot
      -- the separator stays, and a one stands behind it
      obtain ⟨str', hstr'⟩ := @exists_chars n (beforeRun (isDigit base) (chars str n) ++
        (firstRun (isDigit base) (chars str n) ++ (c :: 0x31 :: List.replicate rest.length c)))
        (by simpa using hlength)
      obtain ⟨hbefore', hfirst'⟩ := beforeRun_firstRun_append hbefore hrun hnone hhead
      have hrest : ∀ a ∈ (List.replicate rest.length c).head?, isDigit base a = false := by
        intro a ha
        rw [List.eq_of_mem_replicate (List.mem_of_mem_head? ha)]
        exact hnot
      have hdigit : appendDigit base 0 0x31 = 1 := by
        rw [appendDigit, UInt32.zero_mul]
        rfl
      refine ⟨str', by rw [hstr', hbefore'], by rw [hstr', hfirst'], ?_⟩
      rw [asciiStrn2val_eq, hstr', numberFrom_parts hbefore hrun, hval, numberFrom, hnot,
        if_neg Bool.false_ne_true, if_pos rfl, numberFrom, if_pos hone, hdigit]
      exact numberFrom_stop hrest (by decide)

/-- `ascii_strn2val` returns the first number exactly when the first run of digits is not
taken for text before it. -/
theorem ascii_strn2val_first_number_iff (hbase : base = 10 ∨ base = 16) :
    ReturnsFirstNumber str base n ↔ FirstNumberFound str base n := by
  constructor
  · intro h
    by_contra hfound
    rw [FirstNumberFound, not_or, not_or] at hfound
    obtain ⟨hnone, hzero, hlong⟩ := hfound
    have hval : UInt32.ofNat (runVal base (firstRun (isDigit base) (chars str n))) = 0 :=
      (ofNat_eq_zero_iff _).mpr (not_not.mp hzero)
    obtain ⟨str', hbefore, hfirst, hone⟩ :=
      exists_other_rest hbase hnone hval (Nat.lt_of_not_le hlong)
    have hsame := h.rest str' hbefore hfirst
    rw [hone, h.value, hval] at hsame
    exact absurd hsame (by decide)
  · intro h
    refine ⟨h.value, fun str' hbefore hfirst => ?_⟩
    rw [(h.congr hbefore hfirst).value, h.value, hfirst]

/-- The two digits of `12 x`. -/
theorem ascii_strn2val_first_number_twelve :
    (10 : UInt8) = 10 ∧ ReturnsFirstNumber (fun i => [0x31, 0x32, 0x20, 0x78].getD i 0) 10 4 :=
  ⟨rfl, (ascii_strn2val_first_number_iff (Or.inl rfl)).mpr (Or.inr (Or.inl (by decide)))⟩

/-- The number of `0 5` is five: the zero is skipped. -/
theorem ascii_strn2val_skips_zero :
    ¬ ∀ str base n, base = 10 ∨ base = 16 → ReturnsFirstNumber str base n := by
  intro h
  have hvalue := (h (fun i => [0x30, 0x20, 0x35].getD i 0) 10 3 (Or.inl rfl)).value
  exact absurd hvalue (by decide)

end Fr5080
