import Mathlib.Data.Nat.Digits.Lemmas
import Fr5080.At.Number
import Fr5080.Embedded.Mem

/-!
# Fr5080.Lib.Printi

`printchar`, `prints` and `printi` of `co_printf.c`: a string and a number in a
field of a given width.

`printi` writes the digits into `print_buf` from its end.  The sign of a number
that is padded with zeros is printed before the padding, any other sign goes
into the buffer.
-/

namespace Fr5080

open Embedded

/-! ## the code -/

/-- What `printchar` writes to: the memory from `*str` on, or the UART where `str` is `NULL`. -/
structure PrintOut where
  str : Option Nat
  mem : Nat → UInt8
  uart : List UInt8

/-- `printchar`. -/
def printchar (out : PrintOut) (c : UInt8) : PrintOut :=
  match out.str with
  | some p => { out with str := some (p + 1), mem := Function.update out.mem p c }
  | none => { out with uart := out.uart ++ [c] }

def PAD_RIGHT : UInt32 := 1

def PAD_ZERO : UInt32 := 2

def PRINT_BUF_LEN : Nat := 12

/-- `len` of `prints`.  A string is given by the bytes from its first one to the end of the
memory, so one without a NUL runs into a fault. -/
def printsLen : List UInt8 → Option Nat
  | [] => none
  | c :: cs => if c = 0 then some 0 else (printsLen cs).map (· + 1)

/-- A pad loop of `prints` with `n` rounds to go. -/
def printsPad (padchar : UInt8) : Nat → PrintOut → Nat → PrintOut × Nat
  | 0, out, pc => (out, pc)
  | n + 1, out, pc => printsPad padchar n (printchar out padchar) (pc + 1)

/-- The loop of `prints` over the string. -/
def printsLoop : List UInt8 → PrintOut → Nat → Option (PrintOut × Nat)
  | [], _, _ => none
  | c :: cs, out, pc => if c = 0 then some (out, pc) else printsLoop cs (printchar out c) (pc + 1)

/-- `width` and `padchar` as `prints` sets them up. -/
def printsWidth (string : List UInt8) (width : Int32) (pad : UInt32) : Option (Int32 × UInt8) :=
  if 0 < width then
    (printsLen string).map fun len : Nat =>
      (if width.toInt ≤ len then 0 else width - Int32.ofNat len,
        if pad &&& PAD_ZERO = 0 then 0x20 else 0x30)
  else some (width, 0x20)

/-- `prints`. -/
def prints (out : PrintOut) (string : List UInt8) (width : Int32) (pad : UInt32) :
    Option (PrintOut × Nat) :=
  (printsWidth string width pad).bind fun (width, padchar) =>
    let (out, pc, width) :=
      if pad &&& PAD_RIGHT = 0 then
        let (out, pc) := printsPad padchar width.toInt.toNat out 0
        (out, pc, if 0 < width then 0 else width)
      else (out, 0, width)
    (printsLoop string out pc).map fun (out, pc) => printsPad padchar width.toInt.toNat out pc

/-- The character of `t`, a digit of `printi`. -/
def printiChar (letbase t : UInt32) : UInt8 :=
  ((if 10 ≤ t then t + (letbase - 0x30 - 10) else t) + 0x30).toUInt8

/-- The digit loop of `printi`.  `s` is what `print_buf` has from the pointer `s` on, and
`room` what is left below it. -/
def printiLoop (b letbase : UInt32) : Nat → UInt32 → List UInt8 → Option (List UInt8)
  | 0, u, s => if u = 0 then some s else none
  | room + 1, u, s =>
      if u = 0 then some s else printiLoop b letbase room (u / b) (printiChar letbase (u % b) :: s)

/-- `printi`. -/
def printi (out : PrintOut) (i : Int32) (b : UInt32) (sg : Bool) (width : Int32)
    (pad letbase : UInt32) : Option (PrintOut × Nat) :=
  if i = 0 then prints out [0x30, 0] width pad
  else
    let neg := sg && b == 10 && decide (i < 0)
    let u := if neg then (-i).toUInt32 else i.toUInt32
    (printiLoop b letbase (PRINT_BUF_LEN - 1) u [0]).bind fun s =>
      if neg then
        if width ≠ 0 ∧ pad &&& PAD_ZERO ≠ 0 then
          (prints (printchar out 0x2D) s (width - 1) pad).map fun (out, pc) => (out, 1 + pc)
        else if s.length < PRINT_BUF_LEN then prints out (0x2D :: s) width pad
        else none
      else prints out s width pad

/-! ## what is written -/

/-- `text` written to `out`. -/
def PrintOut.write (out : PrintOut) (text : List UInt8) : PrintOut :=
  match out.str with
  | some p => { out with str := some (p + text.length), mem := store out.mem p text }
  | none => { out with uart := out.uart ++ text }

variable {out : PrintOut} {width : Int32} {pad letbase : UInt32}

@[simp] theorem PrintOut.write_nil (out : PrintOut) : out.write [] = out := by
  obtain ⟨_ | p, mem, uart⟩ := out <;> simp [write]

@[simp] theorem PrintOut.write_write (out : PrintOut) (text text' : List UInt8) :
    (out.write text).write text' = out.write (text ++ text') := by
  obtain ⟨_ | p, mem, uart⟩ := out
  · simp [write]
  · simp [write, store_store_append, Nat.add_assoc]

/-- `printchar` writes a character. -/
theorem printchar_eq (out : PrintOut) (c : UInt8) : printchar out c = out.write [c] := by
  obtain ⟨_ | p, mem, uart⟩ := out
  · rfl
  · have hcell : Function.update mem p c = store mem p [c] := by
      funext a
      by_cases ha : a = p
      · subst ha
        simp [store]
      · rw [Function.update_of_ne ha, store_of_not_mem mem p [c] a]
        rw [List.length_singleton]
        omega
    simp [printchar, PrintOut.write, hcell]

/-- The padding of `prints` for a string of `len` characters. -/
def printsFill (width : Int32) (pad : UInt32) (len : Nat) : List UInt8 :=
  List.replicate (width.toInt - len).toNat (if pad &&& PAD_ZERO = 0 then 0x20 else 0x30)

/-- The text of `prints`. -/
def printsText (width : Int32) (pad : UInt32) (text : List UInt8) : List UInt8 :=
  if pad &&& PAD_RIGHT = 0 then printsFill width pad text.length ++ text
  else text ++ printsFill width pad text.length

/-- A text as long as the width is not filled. -/
theorem printsFill_of_le {len : Nat} (h : width.toInt ≤ len) : printsFill width pad len = [] := by
  have hzero : (width.toInt - len).toNat = 0 := by omega
  rw [printsFill, hzero]
  rfl

section Prints

variable {text : List UInt8} (rest : List UInt8)

/-- The length of a string up to its NUL. -/
theorem printsLen_append (h : 0 ∉ text) : printsLen (text ++ 0 :: rest) = some text.length := by
  induction text with
  | nil => rfl
  | cons c text ih =>
      obtain ⟨hc, htext⟩ := not_or.mp (mt List.mem_cons.mpr h)
      rw [List.cons_append, printsLen, if_neg (Ne.symm hc), ih htext]
      rfl

/-- The string is written up to its NUL. -/
theorem printsLoop_append (h : 0 ∉ text) (out : PrintOut) (pc : Nat) :
    printsLoop (text ++ 0 :: rest) out pc = some (out.write text, pc + text.length) := by
  induction text generalizing out pc with
  | nil => simp [printsLoop]
  | cons c text ih =>
      obtain ⟨hc, htext⟩ := not_or.mp (mt List.mem_cons.mpr h)
      rw [List.cons_append, printsLoop, if_neg (Ne.symm hc), ih htext, printchar_eq,
        PrintOut.write_write, List.length_cons, Nat.add_right_comm, Nat.add_assoc]
      rfl

theorem printsPad_eq (padchar : UInt8) (n : Nat) (out : PrintOut) (pc : Nat) :
    printsPad padchar n out pc = (out.write (List.replicate n padchar), pc + n) := by
  induction n generalizing out pc with
  | zero => simp [printsPad]
  | succ n ih =>
      rw [printsPad, ih, printchar_eq, PrintOut.write_write, Nat.add_right_comm, Nat.add_assoc]
      rfl

/-- The pad loops write the padding. -/
theorem printsWidth_append (h : 0 ∉ text) (width : Int32) (pad : UInt32) :
    ∃ w c, printsWidth (text ++ 0 :: rest) width pad = some (w, c) ∧
      List.replicate w.toInt.toNat c = printsFill width pad text.length := by
  by_cases hpos : 0 < width
  · rw [printsWidth, if_pos hpos, printsLen_append rest h]
    refine ⟨_, _, rfl, ?_⟩
    split
    · next hle => exact (printsFill_of_le hle).symm
    · next hlt =>
        have hmax := width.toInt_lt
        have hlen : (Int32.ofNat text.length).toInt = text.length :=
          Int32.toInt_ofNat_of_lt (by omega)
        have hsub : (width - Int32.ofNat text.length).toInt = width.toInt - text.length := by
          rw [Int32.toInt_sub, hlen]
          exact Int.bmod_eq_of_le (by omega) (by omega)
        rw [printsFill, hsub]
  · have hle : width.toInt ≤ 0 := Int.not_lt.mp fun hlt => hpos (Int32.lt_iff_toInt_lt.mpr hlt)
    refine ⟨width, 0x20, by rw [printsWidth, if_neg hpos], ?_⟩
    rw [printsFill_of_le (by omega), Int.toNat_of_nonpos hle]
    rfl

/-- Nothing is left of the width behind a pad loop. -/
theorem toNat_width_done (w : Int32) : (if 0 < w then 0 else w).toInt.toNat = 0 := by
  split
  · rfl
  · next hle =>
      exact Int.toNat_of_nonpos (Int.not_lt.mp fun hlt => hle (Int32.lt_iff_toInt_lt.mpr hlt))

/-- `prints` writes the string and its padding, and counts them. -/
theorem prints_append (h : 0 ∉ text) (out : PrintOut) (width : Int32) (pad : UInt32) :
    prints out (text ++ 0 :: rest) width pad =
      some (out.write (printsText width pad text), (printsText width pad text).length) := by
  obtain ⟨w, c, hwidth, hfill⟩ := printsWidth_append rest h width pad
  rw [prints, hwidth, Option.bind_some, printsText, ← hfill]
  by_cases hright : pad &&& PAD_RIGHT = 0
  · simp only [if_pos hright, printsPad_eq, printsLoop_append rest h, Option.map_some,
      toNat_width_done, PrintOut.write_write, List.length_append, List.length_replicate,
      List.replicate_zero, List.append_nil, Nat.zero_add, Nat.add_zero]
  · simp only [if_neg hright, printsPad_eq, printsLoop_append rest h, Option.map_some,
      PrintOut.write_write, List.length_append, List.length_replicate, Nat.zero_add]

end Prints

/-! ## the digits -/

/-- The character of a digit. -/
def numberChar (letbase : UInt32) (d : Nat) : UInt8 :=
  UInt8.ofNat (if d < 10 then 0x30 + d else letbase.toNat + (d - 10))

/-- The digits of a number, highest first. -/
def digitsText (letbase : UInt32) (b n : Nat) : List UInt8 :=
  if n = 0 then [0x30] else ((Nat.digits b n).map (numberChar letbase)).reverse

theorem printiChar_eq (letbase t : UInt32) : printiChar letbase t = numberChar letbase t.toNat := by
  apply UInt8.toNat_inj.mp
  rw [printiChar, numberChar, UInt32.toNat_toUInt8, UInt8.toNat_ofNat', UInt32.toNat_add]
  by_cases ht : 10 ≤ t.toNat
  · have hle : (10 : UInt32) ≤ t := UInt32.le_iff_toNat_le.mpr ht
    rw [if_pos hle, if_neg (Nat.not_lt.mpr ht), UInt32.toNat_add, UInt32.toNat_sub,
      UInt32.toNat_sub]
    simp only [UInt32.reduceToNat]
    omega
  · have hnle : ¬ (10 : UInt32) ≤ t := fun hle => ht (UInt32.le_iff_toNat_le.mp hle)
    rw [if_neg hnle, if_pos (Nat.not_le.mp ht)]
    simp only [UInt32.reduceToNat]
    omega

/-- The digit loop, which needs a byte for each digit. -/
theorem printiLoop_eq {b : UInt32} (hb : 1 < b.toNat) (letbase : UInt32) {room : Nat} {u : UInt32}
    (h : (Nat.digits b.toNat u.toNat).length ≤ room) (s : List UInt8) :
    printiLoop b letbase room u s =
      some (((Nat.digits b.toNat u.toNat).map (numberChar letbase)).reverse ++ s) := by
  induction room generalizing u s with
  | zero =>
      have hzero : u = 0 := by
        have hdigits := List.eq_nil_of_length_eq_zero (Nat.le_zero.mp h)
        exact UInt32.toNat_inj.mp (Nat.digits_eq_nil_iff_eq_zero.mp hdigits)
      subst hzero
      simp [printiLoop]
  | succ room ih =>
      rw [printiLoop]
      split
      · next hzero =>
          subst hzero
          simp
      · next hne =>
          have hpos : 0 < u.toNat :=
            Nat.pos_of_ne_zero fun hzero => hne (UInt32.toNat_inj.mp hzero)
          rw [Nat.digits_def' hb hpos] at h ⊢
          have hrest : (Nat.digits b.toNat (u / b).toNat).length ≤ room := by
            rw [UInt32.toNat_div]
            exact Nat.le_of_succ_le_succ h
          rw [ih hrest, printiChar_eq, UInt32.toNat_mod, UInt32.toNat_div]
          simp

/-- Ten digits are enough for 32 bits. -/
theorem length_digits_le {b : Nat} (hb : 10 ≤ b) (u : UInt32) :
    (Nat.digits b u.toNat).length ≤ 10 := by
  rw [Nat.digits_length_le_iff (by omega)]
  calc
    u.toNat < 10 ^ 10 := Nat.lt_trans u.toNat_lt (by decide)
    _ ≤ b ^ 10 := Nat.pow_le_pow_left hb 10

/-- A word has at most ten digits, in base ten and above. -/
theorem length_digitsText_le {b : Nat} (hb : 10 ≤ b) (letbase u : UInt32) :
    (digitsText letbase b u.toNat).length ≤ 10 := by
  rw [digitsText]
  split
  · decide
  · rw [List.length_reverse, List.length_map]
    exact length_digits_le hb u

/-- The number conversions of `print`: `%d`, `%x` and `%X`. -/
def NumberConversion (b : UInt32) (sg : Bool) (letbase : UInt32) : Prop :=
  b = 10 ∧ sg = true ∨ b = 16 ∧ sg = false ∧ (letbase = 0x61 ∨ letbase = 0x41)

/-- The number that `printi` is given. -/
def printiValue (i : Int32) (sg : Bool) : Int := if sg then i.toInt else i.toUInt32.toNat

section Number

variable {b : UInt32} {sg : Bool} (hconv : NumberConversion b sg letbase)
include hconv

/-- The bases of the conversions are ten and sixteen. -/
theorem NumberConversion.ten_le : 10 ≤ b.toNat := by
  obtain ⟨rfl, -⟩ | ⟨rfl, -⟩ := hconv <;> decide

/-- The character of a digit is read back as the digit. -/
theorem NumberConversion.digitOf_numberChar {d : Nat} (hd : d < b.toNat) :
    digitOf (numberChar letbase d) = some d := by
  obtain ⟨rfl, -⟩ | ⟨rfl, -, rfl | rfl⟩ := hconv
  · have hten : d < 10 := hd
    rw [numberChar, if_pos hten]
    revert d
    decide
  · revert d
    decide
  · revert d
    decide

/-- No digit is a NUL. -/
theorem NumberConversion.zero_not_mem_digitsText (n : Nat) :
    0 ∉ digitsText letbase b.toNat n := by
  rw [digitsText]
  split
  · decide
  · rw [List.mem_reverse, List.mem_map]
    rintro ⟨d, hd, hzero⟩
    have hdigit := hconv.digitOf_numberChar (Nat.digits_lt_base (by have := hconv.ten_le; omega) hd)
    rw [hzero] at hdigit
    cases hdigit

/-- `neg` is set exactly for a negative number. -/
theorem NumberConversion.neg_eq (i : Int32) :
    (sg && b == 10 && decide (i < 0)) = decide (printiValue i sg < 0) := by
  obtain ⟨rfl, rfl⟩ | ⟨rfl, rfl, -⟩ := hconv
  · simp [printiValue, Int32.lt_iff_toInt_lt]
  · simp [printiValue]

end Number

/-- The value of a signed word. -/
theorem toInt_eq_bmod (i : Int32) : i.toInt = (i.toUInt32.toNat : Int).bmod (2 ^ 32) :=
  BitVec.toInt_eq_toNat_bmod i.toBitVec

/-- `u` is the magnitude of the number, also that of the lowest one. -/
theorem printi_magnitude (i : Int32) (sg : Bool) :
    (if decide (printiValue i sg < 0) then (-i).toUInt32 else i.toUInt32).toNat =
      (printiValue i sg).natAbs := by
  have hlt := i.toUInt32.toNat_lt
  have hint := toInt_eq_bmod i
  rw [Int.bmod_def] at hint
  cases sg with
  | false =>
      have hnonneg : ¬ printiValue i false < 0 := Int.not_lt.mpr (Int.natCast_nonneg _)
      rw [decide_eq_false hnonneg]
      rfl
  | true =>
      rw [printiValue, if_pos rfl]
      split
      · next hneg =>
          have hneg' := of_decide_eq_true hneg
          have hsize : UInt32.size = 2 ^ 32 := rfl
          rw [Int32.toUInt32_neg, UInt32.toNat_neg, hsize]
          omega
      · next hnonneg =>
          have hnonneg' := mt decide_eq_true hnonneg
          omega

/-! ## the number -/

/-- The sign of a number. -/
def signText (v : Int) : List UInt8 := if v < 0 then [0x2D] else []

/-- The text of `printi`. -/
def printiText (letbase : UInt32) (b : Nat) (v : Int) (width : Int32) (pad : UInt32) :
    List UInt8 :=
  if v < 0 ∧ width ≠ 0 ∧ pad &&& PAD_ZERO ≠ 0 then
    0x2D :: printsText (width - 1) pad (digitsText letbase b v.natAbs)
  else printsText width pad (signText v ++ digitsText letbase b v.natAbs)

/-- Only zero is printed as zero. -/
theorem printiValue_ne_zero {i : Int32} (hi : i ≠ 0) (sg : Bool) : printiValue i sg ≠ 0 := by
  intro hzero
  refine hi (Int32.toInt_inj.mp ?_)
  cases sg with
  | true => exact hzero
  | false =>
      rw [toInt_eq_bmod, show (i.toUInt32.toNat : Int) = 0 from hzero]
      rfl

/-- What the digit loop leaves in `print_buf`. -/
theorem printiLoop_digitsText {b : UInt32} (hb : 10 ≤ b.toNat) (letbase : UInt32) {u : UInt32}
    (hu : u.toNat ≠ 0) :
    printiLoop b letbase (PRINT_BUF_LEN - 1) u [0] =
      some (digitsText letbase b.toNat u.toNat ++ [0]) := by
  have hroom := Nat.le_trans (length_digits_le hb u) (show 10 ≤ PRINT_BUF_LEN - 1 by decide)
  rw [printiLoop_eq (by omega) letbase hroom, digitsText, if_neg hu]

/-- `printi` writes the number, and counts what it writes. -/
theorem printi_eq {b : UInt32} {sg : Bool} (hconv : NumberConversion b sg letbase)
    (out : PrintOut) (i width : Int32) (pad : UInt32) :
    printi out i b sg width pad letbase =
      some (out.write (printiText letbase b.toNat (printiValue i sg) width pad),
        (printiText letbase b.toNat (printiValue i sg) width pad).length) := by
  have hnul := hconv.zero_not_mem_digitsText (printiValue i sg).natAbs
  by_cases hi : i = 0
  · subst hi
    have hzero : printiValue 0 sg = 0 := by cases sg <;> rfl
    rw [printi, if_pos rfl, hzero]
    exact prints_append [] (show 0 ∉ [(0x30 : UInt8)] by decide) out width pad
  · have hmagnitude := printi_magnitude i sg
    have hu := Int.natAbs_ne_zero.mpr (printiValue_ne_zero hi sg)
    have hlength := length_digitsText_le hconv.ten_le letbase
      (if decide (printiValue i sg < 0) then (-i).toUInt32 else i.toUInt32)
    rw [hmagnitude] at hlength
    rw [← hmagnitude] at hu
    rw [printi, if_neg hi]
    simp only [hconv.neg_eq]
    rw [printiLoop_digitsText hconv.ten_le letbase hu, hmagnitude, Option.bind_some, printiText,
      signText]
    by_cases hneg : printiValue i sg < 0
    · rw [decide_eq_true hneg, if_pos rfl, if_pos hneg]
      by_cases hzeros : width ≠ 0 ∧ pad &&& PAD_ZERO ≠ 0
      · rw [if_pos hzeros, if_pos ⟨hneg, hzeros⟩, prints_append [] hnul, printchar_eq,
          Option.map_some, PrintOut.write_write, List.length_cons, Nat.add_comm]
        rfl
      · have hfits : (digitsText letbase b.toNat (printiValue i sg).natAbs ++ [0]).length <
            PRINT_BUF_LEN := by
          rw [List.length_append]
          exact Nat.lt_of_le_of_lt (Nat.add_le_add_right hlength 1) (by decide)
        have hsign : 0 ∉ 0x2D :: digitsText letbase b.toNat (printiValue i sg).natAbs :=
          List.not_mem_cons_of_ne_of_not_mem (by decide) hnul
        rw [if_neg hzeros, if_pos hfits, if_neg (not_and_of_not_right _ hzeros)]
        exact prints_append [] hsign out width pad
    · rw [decide_eq_false hneg, if_neg Bool.false_ne_true, if_neg fun h => hneg h.1, if_neg hneg]
      exact prints_append [] hnul out width pad

/-! ## the field -/

/-- A number without padding. -/
def naturalText (letbase : UInt32) (b : Nat) (v : Int) : List UInt8 :=
  signText v ++ digitsText letbase b v.natAbs

/-- A number in a field: spaces go before the sign, zeros behind it. -/
def fieldText (letbase : UInt32) (b : Nat) (v : Int) (width : Nat) (zeros : Bool) : List UInt8 :=
  let fill := width - (naturalText letbase b v).length
  if zeros then signText v ++ (List.replicate fill 0x30 ++ digitsText letbase b v.natAbs)
  else List.replicate fill 0x20 ++ naturalText letbase b v

/-- The value of a text of digits. -/
def readDigits (base : UInt8) (ds : List UInt8) : Option Nat :=
  if ds ≠ [] ∧ ds.all (isDigit base) then some (runVal base ds) else none

/-- The number in a text: spaces, a sign, and digits up to the end. -/
def readBack (base : UInt8) (text : List UInt8) : Option Int :=
  let body := text.dropWhile (· == 0x20)
  if body.head? = some 0x2D then (readDigits base body.tail).map fun n : Nat => -(n : Int)
  else (readDigits base body).map fun n : Nat => (n : Int)

/-- A field is as wide as its text, and at least its width. -/
theorem length_fieldText (letbase : UInt32) (b : Nat) (v : Int) (width : Nat) (zeros : Bool) :
    (fieldText letbase b v width zeros).length =
      max width (naturalText letbase b v).length := by
  rw [fieldText]
  cases zeros
  · simp
    omega
  · simp [naturalText]
    omega

theorem toNat_sub_natCast (width : Int32) (len : Nat) :
    (width.toInt - len).toNat = width.toInt.toNat - len := by
  omega

theorem printsText_zero (width : Int32) (text : List UInt8) :
    printsText width 0 text =
      List.replicate (width.toInt.toNat - text.length) 0x20 ++ text := by
  rw [printsText, if_pos (by decide), printsFill, toNat_sub_natCast, if_pos (by decide)]

theorem printsText_PAD_ZERO (width : Int32) (text : List UInt8) :
    printsText width PAD_ZERO text =
      List.replicate (width.toInt.toNat - text.length) 0x30 ++ text := by
  rw [printsText, if_pos (by decide), printsFill, toNat_sub_natCast, if_neg (by decide)]

/-- `--width` behind the sign. -/
theorem toNat_width_sub_one (hwidth : 0 ≤ width) (hne : width ≠ 0) :
    (width - 1).toInt.toNat = width.toInt.toNat - 1 := by
  have hle := Int32.le_iff_toInt_le.mp hwidth
  have hne' : width.toInt ≠ 0 := fun hzero => hne (Int32.toInt_inj.mp hzero)
  have hlt := width.toInt_lt
  have hone : (1 : Int32).toInt = 1 := rfl
  have hzero : (0 : Int32).toInt = 0 := rfl
  have hsub : (width - 1).toInt = width.toInt - 1 := by
    rw [Int32.toInt_sub, hone]
    exact Int.bmod_eq_of_le (by omega) (by omega)
  omega

/-- The two pad loops, and the sign that may be printed before them, lay out the field. -/
theorem printiText_eq_fieldText (hwidth : 0 ≤ width) (hpad : pad = 0 ∨ pad = PAD_ZERO) (b : Nat)
    (v : Int) :
    printiText letbase b v width pad =
      fieldText letbase b v width.toInt.toNat (pad == PAD_ZERO) := by
  obtain rfl | rfl := hpad
  · rw [printiText, if_neg fun h => h.2.2 rfl, printsText_zero]
    rfl
  · rw [printiText, fieldText, beq_self_eq_true, if_pos rfl, naturalText, signText]
    by_cases hneg : v < 0
    · by_cases hwidth0 : width = 0
      · subst hwidth0
        rw [if_neg fun h => h.2.1 rfl, if_pos hneg, printsText_PAD_ZERO]
        simp
      · rw [if_pos ⟨hneg, hwidth0, by decide⟩, if_pos hneg, printsText_PAD_ZERO,
          toNat_width_sub_one hwidth hwidth0, Nat.sub_sub, List.length_append]
        rfl
    · rw [if_neg fun h => hneg h.1, if_neg hneg, printsText_PAD_ZERO]
      rfl

/-! ## reading it back -/

/-- A number has a digit. -/
theorem digitsText_ne_nil (letbase : UInt32) (b n : Nat) : digitsText letbase b n ≠ [] := by
  rw [digitsText]
  split
  · decide
  · next hne =>
      intro hnil
      rw [List.reverse_eq_nil_iff, List.map_eq_nil_iff, Nat.digits_eq_nil_iff_eq_zero] at hnil
      exact hne hnil

/-- Zeros before it leave the number as it is. -/
theorem runVal_zeros (base : UInt8) (k : Nat) (ds : List UInt8) :
    runVal base (List.replicate k 0x30 ++ ds) = runVal base ds := by
  have hzero : (digitOf 0x30).getD 0 = 0 := rfl
  rw [runVal, List.map_append, List.map_replicate, hzero, numeral, List.reverse_append,
    List.reverse_replicate, Nat.ofDigits_append_replicate_zero]
  rfl

/-- Spaces, a sign and digits are read back. -/
theorem readBack_append {base : UInt8} {v : Int} {ds : List UInt8} (hne : ds ≠ [])
    (hdigits : ∀ c ∈ ds, isDigit base c = true) (hval : runVal base ds = v.natAbs) (k : Nat) :
    readBack base (List.replicate k 0x20 ++ (signText v ++ ds)) = some v := by
  have hspaces : ∀ c ∈ List.replicate k (0x20 : UInt8), (c == 0x20) = true := by
    intro c hc
    rw [List.eq_of_mem_replicate hc]
    rfl
  have hread : readDigits base ds = some v.natAbs := by
    rw [readDigits, if_pos ⟨hne, List.all_eq_true.mpr hdigits⟩, hval]
  rw [readBack, List.dropWhile_append_of_pos hspaces, signText]
  by_cases hneg : v < 0
  · have hv : -(v.natAbs : Int) = v := by omega
    rw [if_pos hneg]
    show (readDigits base ds).map (fun n : Nat => -(n : Int)) = some v
    rw [hread, Option.map_some, hv]
  · obtain ⟨c, cs, rfl⟩ := List.exists_cons_of_ne_nil hne
    have hc := hdigits c List.mem_cons_self
    have hspace : (c == 0x20) = false := by
      refine beq_false_of_ne ?_
      rintro rfl
      cases hc
    have hminus : (c :: cs).head? ≠ some 0x2D := by
      rintro ⟨⟩
      cases hc
    have hv : (v.natAbs : Int) = v := by omega
    rw [if_neg hneg, List.nil_append, List.dropWhile_cons_of_neg (by rw [hspace]; decide)]
    rw [if_neg hminus, hread, Option.map_some, hv]

section ReadBack

variable {b : UInt32} {sg : Bool} (hconv : NumberConversion b sg letbase)
include hconv

theorem NumberConversion.toNat_base : b.toUInt8.toNat = b.toNat := by
  obtain ⟨rfl, -⟩ | ⟨rfl, -⟩ := hconv <;> rfl

/-- The digits are digits of the base. -/
theorem NumberConversion.isDigit_numberChar {d : Nat} (hd : d < b.toNat) :
    isDigit b.toUInt8 (numberChar letbase d) = true := by
  rw [isDigit, hconv.digitOf_numberChar hd, Option.any_some, hconv.toNat_base]
  exact decide_eq_true hd

/-- The filling zeros are digits. -/
theorem NumberConversion.isDigit_zero : isDigit b.toUInt8 0x30 = true := by
  obtain ⟨rfl, -⟩ | ⟨rfl, -⟩ := hconv <;> rfl

/-- The characters of a number are digits. -/
theorem NumberConversion.isDigit_of_mem {n : Nat} {c : UInt8}
    (hc : c ∈ digitsText letbase b.toNat n) : isDigit b.toUInt8 c = true := by
  rw [digitsText] at hc
  split at hc
  · rw [List.mem_singleton] at hc
    rw [hc]
    exact hconv.isDigit_zero
  · rw [List.mem_reverse, List.mem_map] at hc
    obtain ⟨d, hd, rfl⟩ := hc
    have hbase := hconv.ten_le
    exact hconv.isDigit_numberChar (Nat.digits_lt_base (by omega) hd)

/-- The digits have the value of the number. -/
theorem NumberConversion.runVal_digitsText (n : Nat) :
    runVal b.toUInt8 (digitsText letbase b.toNat n) = n := by
  rw [digitsText]
  split
  · next hzero =>
      rw [hzero]
      rfl
  · have hbase := hconv.ten_le
    have hvalues : ((Nat.digits b.toNat n).map (numberChar letbase)).map
        (fun c => (digitOf c).getD 0) = Nat.digits b.toNat n := by
      rw [List.map_map]
      refine (List.map_congr_left fun d hd => ?_).trans (List.map_id _)
      rw [Function.comp_apply, hconv.digitOf_numberChar (Nat.digits_lt_base (by omega) hd)]
      rfl
    rw [runVal, numeral, List.map_reverse, List.reverse_reverse, hvalues, hconv.toNat_base,
      Nat.ofDigits_digits]

/-- A field is read back as the number. -/
theorem NumberConversion.readBack_fieldText (v : Int) (width : Nat) (zeros : Bool) :
    readBack b.toUInt8 (fieldText letbase b.toNat v width zeros) = some v := by
  have hne := digitsText_ne_nil letbase b.toNat v.natAbs
  have hval := hconv.runVal_digitsText v.natAbs
  have hdigits : ∀ c ∈ digitsText letbase b.toNat v.natAbs, isDigit b.toUInt8 c = true :=
    fun _ => hconv.isDigit_of_mem
  rw [fieldText]
  cases zeros with
  | false => exact readBack_append hne hdigits hval _
  | true =>
      refine readBack_append (List.append_ne_nil_of_right_ne_nil _ hne) ?_ ?_ 0
      · intro c hc
        obtain hc | hc := List.mem_append.mp hc
        · rw [List.eq_of_mem_replicate hc]
          exact hconv.isDigit_zero
        · exact hdigits c hc
      · rw [runVal_zeros, hval]

/-- A number and the NUL behind it fit into `print_buf`. -/
theorem NumberConversion.length_naturalText_lt (i : Int32) :
    (naturalText letbase b.toNat (printiValue i sg)).length < PRINT_BUF_LEN := by
  have hdigits := length_digitsText_le hconv.ten_le letbase
    (if decide (printiValue i sg < 0) then (-i).toUInt32 else i.toUInt32)
  rw [printi_magnitude] at hdigits
  have hsign : (signText (printiValue i sg)).length ≤ 1 := by
    rw [signText]
    split <;> decide
  rw [naturalText, List.length_append]
  exact Nat.lt_of_le_of_lt (Nat.add_le_add hsign hdigits) (by decide)

end ReadBack

/-- The number is written into a field of the width, which is counted and reads back as the
number. -/
theorem printi_format {b : UInt32} {sg : Bool} (hconv : NumberConversion b sg letbase)
    (out : PrintOut) (i : Int32) (hwidth : 0 ≤ width) (hpad : pad = 0 ∨ pad = PAD_ZERO) :
    (naturalText letbase b.toNat (printiValue i sg)).length < PRINT_BUF_LEN ∧
      ∃ text, printi out i b sg width pad letbase = some (out.write text, text.length) ∧
        text = fieldText letbase b.toNat (printiValue i sg) width.toInt.toNat (pad == PAD_ZERO) ∧
        text.length =
          max width.toInt.toNat (naturalText letbase b.toNat (printiValue i sg)).length ∧
        readBack b.toUInt8 text = some (printiValue i sg) := by
  refine ⟨hconv.length_naturalText_lt i, _, ?_, rfl, length_fieldText .., ?_⟩
  · rw [← printiText_eq_fieldText hwidth hpad]
    exact printi_eq hconv out i width pad
  · exact hconv.readBack_fieldText _ _ _

/-- The lowest number, with zeros. -/
theorem printi_format_lowest :
    (0 : Int32) ≤ 14 ∧
      ∃ text, printi ⟨none, fun _ => 0, []⟩ (-2147483648) 10 true 14 PAD_ZERO 0x61 =
          some (PrintOut.write ⟨none, fun _ => 0, []⟩ text, text.length) ∧
        readBack 10 text = some (-2147483648) := by
  obtain ⟨-, text, hprint, -, -, hread⟩ := printi_format (Or.inl ⟨rfl, rfl⟩)
    ⟨none, fun _ => 0, []⟩ (-2147483648) (show (0 : Int32) ≤ 14 by decide) (Or.inr rfl)
  exact ⟨by decide, text, hprint, hread⟩

example : (printi ⟨none, fun _ => 0, []⟩ (-5) 10 true 4 PAD_ZERO 0x61).map (·.1.uart) =
    some [0x2D, 0x30, 0x30, 0x35] := by decide

end Fr5080
