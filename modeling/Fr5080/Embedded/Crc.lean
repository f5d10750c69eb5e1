import Mathlib.Algebra.CharP.Two
import Mathlib.Algebra.Field.ZMod
import Mathlib.Data.List.GetD
import Mathlib.Data.ZMod.Basic
import Mathlib.GroupTheory.OrderOfElement
import Mathlib.RingTheory.AdjoinRoot

/-!
# Embedded.Crc

Cyclic redundancy checks: a shift register that takes the bits of a message one after the other
(`crcBits`), the lowest power of its polynomial in the highest bit.

A register is an element of the polynomials over the two-element field modulo that of the check
(`crcClass`): a step multiplies it by `X` (`crcClass_crcStep`), and a message is added as the
polynomial of its bits (`crcClass_crcBits`).  From that:

* `regPoly_crcBits` — the register is a remainder;
* `crcBits_table` — several bits are taken in at once, with a table;
* `crcBits_inj` — a message tells the register before it from the one behind it;
* `crcBits_burst` — messages that differ within the length of the register are told apart;
* `crcBits_detects` — and those that differ in one or two bits, as far as the order of `X` reaches;
* `orderOf_crcRoot` — which is computed by the register.
-/

namespace Embedded

open Polynomial

variable {w : Nat} {poly c d : BitVec w} {b : Bool} {bits bits' : List Bool} {n : Nat}

/-! ## the register -/

/-- The register is shifted by one bit. -/
def crcStep (poly c : BitVec w) : BitVec w :=
  if c.getLsbD 0 then poly ^^^ (c >>> 1) else c >>> 1

/-- A bit of the message. -/
def crcBit (poly c : BitVec w) (b : Bool) : BitVec w :=
  crcStep poly (c ^^^ if b then 1#w else 0#w)

/-- A message. -/
def crcBits (poly : BitVec w) : BitVec w → List Bool → BitVec w := List.foldl (crcBit poly)

@[simp] theorem crcBits_nil : crcBits poly c [] = c := rfl

@[simp] theorem crcBits_cons : crcBits poly c (b :: bits) = crcBits poly (crcBit poly c b) bits :=
  rfl

@[simp] theorem crcBits_append :
    crcBits poly c (bits ++ bits') = crcBits poly (crcBits poly c bits) bits' := List.foldl_append

/-! ## polynomials -/

/-- The coefficient for a bit. -/
def bitCoeff (b : Bool) : ZMod 2 := if b then 1 else 0

@[simp] theorem bitCoeff_true : bitCoeff true = 1 := rfl

@[simp] theorem bitCoeff_false : bitCoeff false = 0 := rfl

/-- The sum modulo 2 is that of the coefficients. -/
theorem bitCoeff_xor (b b' : Bool) : bitCoeff (b ^^ b') = bitCoeff b + bitCoeff b' := by
  cases b <;> cases b' <;> decide

/-- A bit is its coefficient. -/
theorem bitCoeff_inj {b b' : Bool} : bitCoeff b = bitCoeff b' ↔ b = b' := by
  cases b <;> cases b' <;> decide

/-- The polynomial whose coefficients are the bits, the one of the highest power first. -/
noncomputable def bitsPoly : List Bool → (ZMod 2)[X]
  | [] => 0
  | b :: bits => C (bitCoeff b) * X ^ bits.length + bitsPoly bits

@[simp] theorem bitsPoly_nil : bitsPoly [] = 0 := rfl

@[simp] theorem bitsPoly_cons :
    bitsPoly (b :: bits) = C (bitCoeff b) * X ^ bits.length + bitsPoly bits := rfl

/-- The last bit is the constant coefficient. -/
theorem coeff_bitsPoly (n : Nat) :
    (bitsPoly bits).coeff n = bitCoeff (bits.reverse.getD n false) := by
  induction bits with
  | nil => simp
  | cons b bits ih =>
      rw [bitsPoly_cons, coeff_add, coeff_C_mul_X_pow, ih, List.reverse_cons]
      obtain hlt | rfl | hgt := Nat.lt_trichotomy n bits.length
      · rw [if_neg (Nat.ne_of_lt hlt), zero_add, List.getD_append _ _ _ _ (by simpa using hlt)]
      · simp
      · rw [if_neg (Nat.ne_of_gt hgt), zero_add, List.getD_eq_default _ _ (by simp; omega),
          List.getD_eq_default _ _ (by simp; omega)]

/-- Bits behind a message shift it. -/
theorem bitsPoly_append :
    bitsPoly (bits ++ bits') = bitsPoly bits * X ^ bits'.length + bitsPoly bits' := by
  induction bits with
  | nil => simp
  | cons b bits ih =>
      rw [List.cons_append, bitsPoly_cons, bitsPoly_cons, ih, List.length_append]
      ring

/-- The degree is less than the number of bits. -/
theorem degree_bitsPoly_lt : (bitsPoly bits).degree < bits.length := by
  rw [degree_lt_iff_coeff_zero]
  intro n hn
  rw [coeff_bitsPoly, List.getD_eq_default _ _ (by simpa using hn), bitCoeff_false]

/-- Bits as many as others are told by their polynomial. -/
theorem bitsPoly_inj (hlen : bits.length = bits'.length) :
    bitsPoly bits = bitsPoly bits' ↔ bits = bits' := by
  refine ⟨fun h => List.reverse_injective (List.ext_getElem (by simpa using hlen) fun n hn hn' => ?_),
    fun h => by rw [h]⟩
  have hcoeff := congrArg (fun p => p.coeff n) h
  simp only [coeff_bitsPoly, bitCoeff_inj] at hcoeff
  rwa [List.getD_eq_getElem _ _ hn, List.getD_eq_getElem _ _ hn'] at hcoeff

/-- The bits of a register, the one of the highest power first. -/
def regBits (c : BitVec w) : List Bool := (List.range w).map c.getLsbD

@[simp] theorem length_regBits : (regBits c).length = w := by simp [regBits]

/-- The polynomial of a register. -/
noncomputable def regPoly (c : BitVec w) : (ZMod 2)[X] := bitsPoly (regBits c)

/-- The coefficients are the bits of the register, the highest bit first. -/
theorem coeff_regPoly (n : Nat) : (regPoly c).coeff n = bitCoeff (c.getMsbD n) := by
  rw [regPoly, coeff_bitsPoly]
  by_cases hn : n < w
  · rw [List.getD_eq_getElem _ _ (by simpa using hn), BitVec.getMsbD_eq_getLsbD]
    simp [regBits, hn]
  · rw [List.getD_eq_default _ _ (by simpa using hn), BitVec.getMsbD_of_ge _ _ (Nat.not_lt.mp hn)]

/-- The degree is less than the width. -/
theorem degree_regPoly_lt : (regPoly c).degree < w := by
  have := @degree_bitsPoly_lt (regBits c)
  rwa [length_regBits] at this

/-- A register is its polynomial. -/
theorem regPoly_inj : regPoly c = regPoly d ↔ c = d := by
  refine ⟨fun h => BitVec.eq_of_getMsbD_eq fun n _ => ?_, fun h => by rw [h]⟩
  have hcoeff := congrArg (fun p => p.coeff n) h
  simpa only [coeff_regPoly, bitCoeff_inj] using hcoeff

/-- The sum modulo 2 is that of the polynomials. -/
theorem regPoly_xor : regPoly (c ^^^ d) = regPoly c + regPoly d := by
  ext n
  rw [coeff_add, coeff_regPoly, coeff_regPoly, coeff_regPoly, BitVec.getMsbD_xor, bitCoeff_xor]

/-- The bit that is shifted out is the highest power. -/
theorem X_mul_regPoly :
    X * regPoly c = regPoly (c >>> 1) + C (bitCoeff (c.getLsbD 0)) * X ^ w := by
  ext n
  rw [coeff_add, coeff_C_mul_X_pow, coeff_regPoly, BitVec.getMsbD_ushiftRight]
  obtain _ | n := n
  · rw [mul_coeff_zero, coeff_X_zero, zero_mul]
    by_cases hw : 0 = w
    · subst hw
      simp
    · simp [hw]
  · rw [coeff_X_mul, coeff_regPoly, Nat.add_sub_cancel]
    obtain hlt | rfl | hgt := Nat.lt_trichotomy (n + 1) w
    · rw [if_neg (Nat.ne_of_lt hlt), add_zero]
      simp [hlt]
    · simp [BitVec.getMsbD_eq_getLsbD]
    · rw [if_neg (Nat.ne_of_gt hgt), add_zero, BitVec.getMsbD_of_ge _ _ (by omega)]
      simp

/-- The polynomial of the check, with its highest power. -/
noncomputable def crcModulus (poly : BitVec w) : (ZMod 2)[X] := X ^ w + regPoly poly

/-- The modulus is monic. -/
theorem monic_crcModulus : (crcModulus poly).Monic := monic_X_pow_add degree_regPoly_lt

/-- Its degree is the width. -/
theorem degree_crcModulus : (crcModulus poly).degree = w := by
  rw [crcModulus, degree_add_eq_left_of_degree_lt, degree_X_pow]
  rw [degree_X_pow]
  exact degree_regPoly_lt

/-! ## the register modulo the polynomial -/

/-- `X` modulo the polynomial of the check. -/
noncomputable abbrev crcRoot (poly : BitVec w) : AdjoinRoot (crcModulus poly) :=
  AdjoinRoot.root (crcModulus poly)

/-- A polynomial modulo that of the check. -/
noncomputable abbrev crcMk (poly : BitVec w) : (ZMod 2)[X] →+* AdjoinRoot (crcModulus poly) :=
  AdjoinRoot.mk (crcModulus poly)

@[simp] theorem crcMk_X : crcMk poly X = crcRoot poly := AdjoinRoot.mk_X

/-- A register modulo the polynomial of the check. -/
noncomputable def crcClass (poly c : BitVec w) : AdjoinRoot (crcModulus poly) :=
  crcMk poly (regPoly c)

/-- Two polynomials that are short enough are equal where they are modulo that of the check. -/
theorem crcMk_inj {p q : (ZMod 2)[X]} (hp : p.degree < w) (hq : q.degree < w) :
    crcMk poly p = crcMk poly q ↔ p = q := by
  refine ⟨fun h => sub_eq_zero.mp (eq_zero_of_dvd_of_degree_lt (AdjoinRoot.mk_eq_mk.mp h) ?_),
    fun h => by rw [h]⟩
  rw [degree_crcModulus]
  exact lt_of_le_of_lt (degree_sub_le p q) (max_lt hp hq)

@[simp] theorem crcClass_zero : crcClass poly 0#w = 0 := by
  have hzero : regPoly 0#w = 0 := by
    ext n
    rw [coeff_regPoly, BitVec.getMsbD_zero]
    rfl
  rw [crcClass, hzero, map_zero]

/-- A register is its class. -/
theorem crcClass_inj : crcClass poly c = crcClass poly d ↔ c = d :=
  (crcMk_inj degree_regPoly_lt degree_regPoly_lt).trans regPoly_inj

/-- The sum modulo 2 is that of the classes. -/
theorem crcClass_xor : crcClass poly (c ^^^ d) = crcClass poly c + crcClass poly d := by
  rw [crcClass, regPoly_xor, map_add]
  rfl

/-- Sums are modulo 2. -/
theorem add_self_crcClass (p : AdjoinRoot (crcModulus poly)) : p + p = 0 := by
  obtain ⟨q, rfl⟩ := AdjoinRoot.mk_surjective p
  rw [← map_add, CharTwo.add_self_eq_zero, map_zero]

/-- The highest power is what the polynomial has below it. -/
theorem crcRoot_pow_eq : crcRoot poly ^ w = crcClass poly poly := by
  have hzero : crcMk poly (X ^ w + regPoly poly) = 0 := AdjoinRoot.mk_self
  rw [map_add, map_pow, crcMk_X] at hzero
  exact add_right_cancel (hzero.trans (add_self_crcClass _).symm)

/-- **A step of the register multiplies by `X`.** -/
theorem crcClass_crcStep : crcClass poly (crcStep poly c) = crcRoot poly * crcClass poly c := by
  have hmul : crcRoot poly * crcClass poly c = crcClass poly (c >>> 1) +
      crcMk poly (C (bitCoeff (c.getLsbD 0))) * crcRoot poly ^ w := by
    rw [crcClass, crcClass, ← crcMk_X, ← map_mul, X_mul_regPoly, map_add, map_mul, map_pow]
  rw [hmul, crcStep]
  cases c.getLsbD 0
  · simp
  · simp [crcRoot_pow_eq, crcClass_xor, add_comm]

/-- The lowest bit is the highest power. -/
theorem crcClass_one (hw : 0 < w) : crcClass poly 1#w = crcRoot poly ^ (w - 1) := by
  have hone : regPoly 1#w = X ^ (w - 1) := by
    ext n
    rw [coeff_regPoly, BitVec.getMsbD_one, coeff_X_pow]
    by_cases hn : n = w - 1 <;> simp [hn, hw]
  rw [crcClass, hone, map_pow, crcMk_X]

/-- One round multiplies by `X` and adds the bit. -/
theorem crcClass_crcBit (hw : 0 < w) : crcClass poly (crcBit poly c b) =
    crcRoot poly * crcClass poly c + crcMk poly (C (bitCoeff b)) * crcRoot poly ^ w := by
  have hpow : crcRoot poly * crcRoot poly ^ (w - 1) = crcRoot poly ^ w := by
    rw [← pow_succ', Nat.sub_add_cancel hw]
  rw [crcBit, crcClass_crcStep, crcClass_xor, mul_add]
  cases b
  · simp
  · simp [crcClass_one hw, hpow]

/-- **A message is added as its polynomial**, behind the powers that the register has. -/
theorem crcClass_crcBits (hw : 0 < w) : crcClass poly (crcBits poly c bits) =
    crcRoot poly ^ bits.length * crcClass poly c +
      crcMk poly (bitsPoly bits) * crcRoot poly ^ w := by
  induction bits generalizing c with
  | nil => simp
  | cons b bits ih =>
      rw [crcBits_cons, ih, crcClass_crcBit hw, bitsPoly_cons, map_add, map_mul, map_pow,
        crcMk_X, List.length_cons]
      ring

/-- **The register is the remainder** of the message, multiplied by `X` to the length of the
register, with the register before it in front. -/
theorem regPoly_crcBits (hw : 0 < w) : regPoly (crcBits poly c bits) =
    (X ^ bits.length * regPoly c + bitsPoly bits * X ^ w) %ₘ crcModulus poly := by
  have hclass := @crcClass_crcBits w poly c bits hw
  rw [crcClass, crcClass, ← crcMk_X, ← map_pow, ← map_pow, ← map_mul, ← map_mul, ← map_add,
    AdjoinRoot.mk_eq_mk] at hclass
  rw [← modByMonic_eq_of_dvd_sub monic_crcModulus hclass,
    (modByMonic_eq_self_iff monic_crcModulus).mpr]
  rw [degree_crcModulus]
  exact degree_regPoly_lt

/-! ## tables -/

/-- The bits that are shifted out are the highest powers. -/
theorem X_pow_mul_regPoly (k : Nat) : X ^ k * regPoly c =
    regPoly (c >>> k) + bitsPoly ((List.range k).map c.getLsbD) * X ^ w := by
  induction k with
  | zero => simp
  | succ k ih =>
      have hbit : (c >>> k).getLsbD 0 = c.getLsbD k := by simp
      rw [pow_succ', mul_assoc, ih, mul_add, X_mul_regPoly, hbit, List.range_succ, List.map_append,
        bitsPoly_append, BitVec.shiftRight_add]
      simp
      ring

/-- The sum of two messages, bit by bit. -/
theorem bitsPoly_map_xor {ι : Type*} (f g : ι → Bool) (l : List ι) :
    bitsPoly (l.map fun i => f i ^^ g i) = bitsPoly (l.map f) + bitsPoly (l.map g) := by
  induction l with
  | nil => simp
  | cons i l ih =>
      simp only [List.map_cons, bitsPoly_cons, ih, bitCoeff_xor, List.length_map, map_add]
      ring

/-- **Tables**: the next `k` bits only meet the lowest bits of the register, so what these become
together can be looked up. -/
theorem crcBits_table (hw : 0 < w) (k : Nat) (g : Nat → Bool) :
    crcBits poly c ((List.range k).map g) =
      crcBits poly 0#w ((List.range k).map fun i => c.getLsbD i ^^ g i) ^^^ (c >>> k) := by
  have hshift := congrArg (crcMk poly) (@X_pow_mul_regPoly w c k)
  rw [map_mul, map_pow, crcMk_X, map_add, map_mul, map_pow, crcMk_X] at hshift
  rw [← @crcClass_inj w poly, crcClass_xor, crcClass_crcBits hw, crcClass_crcBits hw,
    crcClass_zero, bitsPoly_map_xor, map_add, List.length_map, List.length_range, crcClass, hshift]
  simp only [mul_zero, zero_add, crcClass]
  ring

/-! ## errors -/

/-- The number of bits that are different. -/
def bitErrors (bits bits' : List Bool) : Nat := (List.zipWith (· ^^ ·) bits bits').count true

/-- Without an error the messages are equal. -/
theorem eq_of_bitErrors_eq_zero (hlen : bits.length = bits'.length)
    (h : bitErrors bits bits' = 0) : bits = bits' := by
  induction bits generalizing bits' with
  | nil => exact (List.eq_nil_of_length_eq_zero hlen.symm).symm
  | cons b bits ih =>
      obtain _ | ⟨b', bits'⟩ := bits'
      · cases hlen
      · rw [bitErrors, List.zipWith_cons_cons, List.count_cons, Nat.add_eq_zero_iff] at h
        rw [ih (Nat.succ.inj hlen) h.1]
        cases b <;> cases b' <;> simp_all

/-- The first bit that is different. -/
theorem exists_of_bitErrors (hlen : bits.length = bits'.length)
    (h : bitErrors bits bits' = n + 1) :
    ∃ u x v v', bits = u ++ x :: v ∧ bits' = u ++ (!x) :: v' ∧ v.length = v'.length ∧
      bitErrors v v' = n := by
  induction bits generalizing bits' with
  | nil => cases h
  | cons b bits ih =>
      obtain _ | ⟨b', bits'⟩ := bits'
      · cases hlen
      · have hlen' : bits.length = bits'.length := Nat.succ.inj hlen
        rw [bitErrors, List.zipWith_cons_cons, List.count_cons] at h
        by_cases hb : b' = !b
        · subst hb
          exact ⟨[], b, bits, bits', rfl, rfl, hlen', by simpa [bitErrors] using h⟩
        · obtain rfl : b' = b := by cases b <;> cases b' <;> simp_all
          obtain ⟨u, x, v, v', rfl, rfl, hv⟩ := ih hlen' (by simpa [bitErrors] using h)
          exact ⟨b' :: u, x, v, v', rfl, rfl, hv⟩

section Errors

variable (hmsb : poly.getMsbD 0 = true)
include hmsb

theorem pos_of_msb : 0 < w :=
  Nat.pos_of_ne_zero fun hw => by
    subst hw
    simp at hmsb

/-- A polynomial with a constant term does not divide powers of `X`. -/
theorem isUnit_crcRoot : IsUnit (crcRoot poly) := by
  have hw := pos_of_msb hmsb
  have hcoeff : (X ^ w + regPoly poly - 1).coeff 0 = 0 := by
    rw [coeff_sub, coeff_add, coeff_regPoly, hmsb, coeff_X_pow, if_neg (Nat.ne_of_lt hw)]
    simp
  obtain ⟨q, hq⟩ := X_dvd_iff.mpr hcoeff
  have hmul : crcRoot poly * crcMk poly q = -1 := by
    have hzero : crcMk poly (X ^ w + regPoly poly) = 0 := AdjoinRoot.mk_self
    rw [← crcMk_X, ← map_mul, ← hq, map_sub, hzero, map_one, zero_sub]
  exact IsUnit.of_mul_eq_one (-crcMk poly q) (by rw [mul_neg, hmul, neg_neg])

/-- **A message tells the register before it from the one behind it.** -/
theorem crcBits_inj : crcBits poly c bits = crcBits poly d bits ↔ c = d := by
  have hw := pos_of_msb hmsb
  rw [← @crcClass_inj w poly, crcClass_crcBits hw, crcClass_crcBits hw, add_left_inj,
    ((isUnit_crcRoot hmsb).pow _).mul_right_inj, crcClass_inj]

/-- Messages of one length are told apart as their polynomials are. -/
theorem crcBits_eq_iff (hlen : bits.length = bits'.length) :
    crcBits poly c bits = crcBits poly c bits' ↔
      crcMk poly (bitsPoly bits) = crcMk poly (bitsPoly bits') := by
  have hw := pos_of_msb hmsb
  rw [← @crcClass_inj w poly, crcClass_crcBits hw, crcClass_crcBits hw, hlen,
    add_right_inj, ((isUnit_crcRoot hmsb).pow _).mul_left_inj]

/-- **Bursts**: messages that differ in bits that are not farther apart than the register is long
leave different registers. -/
theorem crcBits_burst {u v : List Bool} (hlen : bits.length = bits'.length)
    (hle : bits.length ≤ w) (hne : bits ≠ bits') :
    crcBits poly c (u ++ bits ++ v) ≠ crcBits poly c (u ++ bits' ++ v) := by
  rw [crcBits_append, crcBits_append, crcBits_append, crcBits_append, ne_eq, crcBits_inj hmsb,
    crcBits_eq_iff hmsb hlen, crcMk_inj, bitsPoly_inj hlen]
  · exact hne
  · exact lt_of_lt_of_le degree_bitsPoly_lt (by exact_mod_cast hle)
  · exact lt_of_lt_of_le degree_bitsPoly_lt (by exact_mod_cast hlen ▸ hle)

/-- **Two bits**: messages that differ in two bits, one `m.length + 1` behind the other, leave one
register only where `X` to that power is one. -/
theorem crcBits_double_iff {u m v : List Bool} {x y : Bool} :
    crcBits poly c (u ++ x :: (m ++ y :: v)) = crcBits poly c (u ++ (!x) :: (m ++ (!y) :: v)) ↔
      crcRoot poly ^ (m.length + 1) = 1 := by
  have hsplit : ∀ x y : Bool, u ++ x :: (m ++ y :: v) = u ++ (x :: (m ++ [y]) ++ v) := by simp
  have hnot : ∀ b : Bool, bitCoeff (!b) = bitCoeff b + 1 := fun b => by
    rw [← Bool.xor_true, bitCoeff_xor, bitCoeff_true]
  rw [hsplit, hsplit, crcBits_append, crcBits_append, crcBits_append, crcBits_append,
    crcBits_inj hmsb, crcBits_eq_iff hmsb (by simp)]
  simp only [bitsPoly_cons, bitsPoly_append, bitsPoly_nil, hnot, map_add, map_mul, map_pow,
    map_one, crcMk_X, List.length_append, List.length_cons, List.length_nil, zero_add, pow_zero,
    mul_one, add_zero]
  -- both bits are there twice
  have hself : crcRoot poly ^ (m.length + 1) = 1 ↔ crcRoot poly ^ (m.length + 1) + 1 = 0 :=
    ⟨fun h => by rw [h, add_self_crcClass],
      fun h => add_right_cancel (h.trans (add_self_crcClass 1).symm)⟩
  rw [hself, ← sub_eq_zero, ← neg_eq_zero]
  refine Eq.congr ?_ rfl
  ring

/-- **One or two bits**: messages that are not longer than the order of `X`, and differ in one or
two bits, leave different registers. -/
theorem crcBits_detects (hlen : bits.length = bits'.length)
    (horder : bits.length ≤ orderOf (crcRoot poly))
    (herrors : bitErrors bits bits' = 1 ∨ bitErrors bits bits' = 2) :
    crcBits poly c bits ≠ crcBits poly c bits' := by
  obtain hone | htwo := herrors
  · obtain ⟨u, x, v, v', rfl, rfl, hv, hzero⟩ := exists_of_bitErrors hlen hone
    rw [eq_of_bitErrors_eq_zero hv hzero, List.append_cons u x, List.append_cons u (!x)]
    exact crcBits_burst hmsb (rfl : [x].length = [!x].length) (pos_of_msb hmsb) (by simp)
  · obtain ⟨u, x, v, v', rfl, rfl, hv, hone⟩ := exists_of_bitErrors hlen htwo
    obtain ⟨m, y, z, z', rfl, rfl, hz, hzero⟩ := exists_of_bitErrors hv hone
    rw [eq_of_bitErrors_eq_zero hz hzero, ne_eq, crcBits_double_iff hmsb, ← orderOf_dvd_iff_pow_eq_one]
    refine Nat.not_dvd_of_pos_of_lt (Nat.succ_pos _) (lt_of_lt_of_le ?_ horder)
    simp only [List.length_append, List.length_cons]
    omega

end Errors

/-! ## powers of `X` -/

/-- The register that is one. -/
def crcOne (w : Nat) : BitVec w := BitVec.intMin w

/-- The register of the unit. -/
theorem crcClass_crcOne (hw : 0 < w) : crcClass poly (crcOne w) = 1 := by
  have hone : regPoly (crcOne w) = 1 := by
    ext n
    rw [coeff_regPoly, crcOne, BitVec.getMsbD_intMin, coeff_one]
    by_cases hn : n = 0 <;> simp [hn, hw]
  rw [crcClass, hone, map_one]

/-- The product of two registers: the bits of the first one, highest power first, are taken in as
multiples of the second one. -/
def crcMul (poly c d : BitVec w) : BitVec w :=
  (regBits c).foldl (fun acc b => crcStep poly acc ^^^ if b then d else 0#w) 0#w

/-- The product of two registers is that of their classes. -/
theorem crcClass_crcMul : crcClass poly (crcMul poly c d) =
    crcClass poly c * crcClass poly d := by
  have hfold : ∀ (bits : List Bool) (acc : BitVec w), crcClass poly
      (bits.foldl (fun acc b => crcStep poly acc ^^^ if b then d else 0#w) acc) =
      crcRoot poly ^ bits.length * crcClass poly acc +
        crcMk poly (bitsPoly bits) * crcClass poly d := by
    intro bits
    induction bits with
    | nil => simp
    | cons b bits ih =>
        intro acc
        have hbit : crcClass poly (if b then d else 0#w) =
            crcMk poly (C (bitCoeff b)) * crcClass poly d := by
          cases b <;> simp
        rw [List.foldl_cons, ih, crcClass_xor, crcClass_crcStep, hbit, bitsPoly_cons, map_add,
          map_mul, map_pow, crcMk_X, List.length_cons]
        ring
  rw [crcMul, hfold, crcClass_zero, mul_zero, zero_add]
  rfl

/-- The power `n` of `X`, by its binary digits, of which there are `k` at most. -/
def crcPow (poly : BitVec w) : Nat → Nat → BitVec w
  | 0, _ => crcOne w
  | k + 1, n =>
      -- the match has the half computed before it is squared
      match (crcPow poly k (n / 2)).toNat with
      | 0 => 0#w
      | half + 1 =>
          let half := BitVec.ofNat w (half + 1)
          if n % 2 = 1 then crcStep poly (crcMul poly half half) else crcMul poly half half

/-- One squaring, and a multiplication if the bit is set. -/
theorem crcClass_crcPow_succ (k n : Nat) : crcClass poly (crcPow poly (k + 1) n) =
    (if n % 2 = 1 then crcRoot poly else 1) * crcClass poly (crcPow poly k (n / 2)) ^ 2 := by
  rw [crcPow]
  split
  · next hzero =>
      have hzero : crcPow poly k (n / 2) = 0#w := BitVec.eq_of_toNat_eq hzero
      simp [hzero]
  · next half hhalf =>
      have hhalf : BitVec.ofNat w (half + 1) = crcPow poly k (n / 2) := by
        rw [← Nat.succ_eq_add_one, ← hhalf, BitVec.ofNat_toNat, BitVec.setWidth_eq]
      simp only [hhalf]
      split
      · rw [crcClass_crcStep, crcClass_crcMul, sq]
      · rw [crcClass_crcMul, one_mul, sq]

/-- The power by repeated squaring. -/
theorem crcClass_crcPow (hw : 0 < w) {k : Nat} (hn : n < 2 ^ k) :
    crcClass poly (crcPow poly k n) = crcRoot poly ^ n := by
  induction k generalizing n with
  | zero =>
      have hzero : n = 0 := by omega
      rw [hzero, pow_zero]
      exact crcClass_crcOne hw
  | succ k ih =>
      rw [crcClass_crcPow_succ, @ih (n / 2) (by omega), ← pow_mul]
      split
      · next hodd =>
          rw [← pow_succ']
          congr 1
          omega
      · next heven =>
          rw [one_mul]
          congr 1
          omega

/-- **Powers of `X` are computed by the register.** -/
theorem crcRoot_pow_eq_one_iff (hw : 0 < w) {k : Nat} (hn : n < 2 ^ k) :
    crcRoot poly ^ n = 1 ↔ crcPow poly k n = crcOne w := by
  rw [← crcClass_crcPow hw hn, ← crcClass_crcOne hw, crcClass_inj]

/-- The order of `X`, where it is a power that is one, and no smaller one is. -/
theorem orderOf_crcRoot (hw : 0 < w) {k : Nat} (hpos : 0 < n) (hn : n < 2 ^ k)
    (hone : crcPow poly k n = crcOne w)
    (hprime : ∀ p : Nat, p.Prime → p ∣ n → crcPow poly k (n / p) ≠ crcOne w) :
    orderOf (crcRoot poly) = n := by
  refine orderOf_eq_of_pow_and_pow_div_prime hpos ((crcRoot_pow_eq_one_iff hw hn).mpr hone) ?_
  intro p hp hdvd hpow
  have hle : n / p < 2 ^ k := lt_of_le_of_lt (Nat.div_le_self n p) hn
  exact hprime p hp hdvd ((crcRoot_pow_eq_one_iff hw hle).mp hpow)

end Embedded
