import Mathlib.Data.List.TakeWhile
import Fr5080.Lib.Printi

/-!
# Fr5080.Lib.Print

`print` of `co_printf.c` with `printf` and `sprintf`: how far it reads its format.

The loop over the format tests for the NUL at its head and behind a `%`, but not
behind the digits of a specification.  There the NUL is taken for a conversion
that does not exist, and `++format` steps over it.
-/

namespace Fr5080

open Embedded

/-! ## the code -/

/-- A pointer into a text: the bytes from it to the end of the memory. -/
abbrev CharPtr := List UInt8

/-- The variables of `print`.  `reads` is a history variable, the pointers that `*format` has
been read at. -/
structure PrintRun where
  format : CharPtr
  args : List Int32
  out : PrintOut
  pc : Nat
  reads : List CharPtr

/-- `*format`. -/
def PrintRun.deref (r : PrintRun) : Option (UInt8 × PrintRun) :=
  r.format.head?.map fun c => (c, { r with reads := r.format :: r.reads })

/-- `++format`. -/
def PrintRun.advance (r : PrintRun) : PrintRun := { r with format := r.format.tail }

/-- `printchar (out, *format); ++pc`. -/
def PrintRun.put (r : PrintRun) (c : UInt8) : PrintRun :=
  { r with out := printchar r.out c, pc := r.pc + 1 }

/-- A loop of `print` over the characters that pass `test`: `*format` is read, and where it
passes `body` and `++format` are executed. -/
def charLoop {β : Type*} (test : UInt8 → Bool) (body : β → UInt8 → β) :
    CharPtr → β → List CharPtr → Option (CharPtr × β × List CharPtr)
  | [], _, _ => none
  | c :: cs, x, reads =>
      if test c then charLoop test body cs (body x c) ((c :: cs) :: reads)
      else some (c :: cs, x, (c :: cs) :: reads)

/-- The loop of `print` over the zeros: `format`, `pad` and the pointers read. -/
def printZeros : CharPtr → UInt32 → List CharPtr → Option (CharPtr × UInt32 × List CharPtr) :=
  charLoop (· == 0x30) fun pad _ => pad ||| PAD_ZERO

/-- A digit of the width. -/
def isWidthDigit (c : UInt8) : Bool := decide (0x30 ≤ c ∧ c ≤ 0x39)

/-- The loop of `print` over the digits of the width: `format`, `width` and the pointers read. -/
def printWidth : CharPtr → Int32 → List CharPtr → Option (CharPtr × Int32 × List CharPtr) :=
  charLoop isWidthDigit fun width c => width * 10 + Int32.ofNat (c.toNat - 0x30)

/-- A conversion of the next argument, `va_arg (args, int)`. -/
def PrintRun.convert (r : PrintRun) (f : Int32 → Option (PrintOut × Nat)) : Option PrintRun :=
  match r.args with
  | [] => none
  | a :: args => (f a).map fun (out, n) => { r with args := args, out := out, pc := r.pc + n }

/-- The string `(null)`. -/
def nullText : CharPtr := [0x28, 0x6E, 0x75, 0x6C, 0x6C, 0x29, 0]

/-- The conversions of `print`; `mem` has the text at an address.  Any other character is
skipped. -/
def printConversion (mem : UInt32 → CharPtr) (width : Int32) (pad : UInt32) (c : UInt8)
    (r : PrintRun) : Option PrintRun :=
  if c = 0x73 then
    r.convert fun s => prints r.out (if s = 0 then nullText else mem s.toUInt32) width pad
  else if c = 0x64 then r.convert fun i => printi r.out i 10 true width pad 0x61
  else if c = 0x78 then r.convert fun i => printi r.out i 16 false width pad 0x61
  else if c = 0x58 then r.convert fun i => printi r.out i 16 false width pad 0x41
  else if c = 0x63 then r.convert fun i => prints r.out [i.toUInt32.toUInt8, 0] width pad
  else some r

/-- A specification behind its `%`. -/
def printSpec (mem : UInt32 → CharPtr) (r : PrintRun) : Option PrintRun :=
  (printZeros r.format 0 r.reads).bind fun (format, pad, reads) =>
    (printWidth format 0 reads).bind fun (format, width, reads) =>
      (PrintRun.deref { r with format := format, reads := reads }).bind fun (c, r) =>
        printConversion mem width pad c r

/-- One round of the loop of `print`, and whether the loop ends with it. -/
def printRound (mem : UInt32 → CharPtr) (r : PrintRun) : Option (PrintRun × Bool) :=
  r.deref.bind fun (c, r) =>
    if c = 0 then some (r, true)
    else if c = 0x25 then
      r.advance.deref.bind fun (c, r) =>
        if c = 0 then some (r, true)
        else if c = 0x25 then some ((r.put c).advance, false)
        else (printSpec mem r).map fun r => (r.advance, false)
    else some ((r.put c).advance, false)

/-- The loop of `print`.  A round takes a byte at least, so behind as many rounds as there are
bytes `*format` is outside of the memory. -/
def printLoop (mem : UInt32 → CharPtr) : Nat → PrintRun → Option PrintRun
  | 0, _ => none
  | n + 1, r =>
      (printRound mem r).bind fun (r, stopped) => if stopped then some r else printLoop mem n r

/-- `**out = '\0'` where there is a string. -/
def PrintOut.terminate (out : PrintOut) : PrintOut :=
  match out.str with
  | some p => { out with mem := Function.update out.mem p 0 }
  | none => out

/-- `print`. -/
def print (mem : UInt32 → CharPtr) (out : PrintOut) (format : CharPtr) (args : List Int32) :
    Option PrintRun :=
  (printLoop mem format.length ⟨format, args, out, 0, []⟩).map fun r =>
    { r with out := r.out.terminate }

/-- `printf`. -/
def printf (mem : UInt32 → CharPtr) (ram : Nat → UInt8) (uart : List UInt8) (format : CharPtr)
    (args : List Int32) : Option PrintRun :=
  print mem ⟨none, ram, uart⟩ format args

/-- `sprintf`. -/
def sprintf (mem : UInt32 → CharPtr) (ram : Nat → UInt8) (uart : List UInt8) (dst : Nat)
    (format : CharPtr) (args : List Int32) : Option PrintRun :=
  print mem ⟨some dst, ram, uart⟩ format args

/-! ## formats -/

/-- What a format consists of: characters, and conversion specifications `%ds c`. -/
inductive FormatItem
  | char (c : UInt8)
  | spec (ds : List UInt8) (c : UInt8)

/-- The items of a text behind the open specification `%ds` or behind none, and the
specification that is open at its end. -/
def parseFormat : Option (List UInt8) → List UInt8 → List FormatItem × Option (List UInt8)
  | opened, [] => ([], opened)
  | none, c :: l =>
      if c = 0x25 then parseFormat (some []) l
      else ((.char c :: (parseFormat none l).1), (parseFormat none l).2)
  | some ds, c :: l =>
      if ds = [] ∧ c = 0x25 then ((.char c :: (parseFormat none l).1), (parseFormat none l).2)
      else if isWidthDigit c then parseFormat (some (ds ++ [c])) l
      else ((.spec ds c :: (parseFormat none l).1), (parseFormat none l).2)

/-- The items of a format. -/
def formatItems (l : List UInt8) : List FormatItem := (parseFormat none l).1

/-- The specification that a format ends in. -/
def openSpec (l : List UInt8) : Option (List UInt8) := (parseFormat none l).2

/-- A format is empty or starts with a character, with `%%`, with a specification, or with
one that the format ends in. -/
theorem formatInduction {motive : List UInt8 → Prop} (nil : motive [])
    (char : ∀ c l, c ≠ 0x25 → motive l → motive (c :: l))
    (percent : ∀ l, motive l → motive (0x25 :: 0x25 :: l))
    (spec : ∀ ds c l, (∀ d ∈ ds, isWidthDigit d = true) → isWidthDigit c = false →
      (ds = [] → c ≠ 0x25) → motive l → motive (0x25 :: (ds ++ c :: l)))
    (cut : ∀ ds, (∀ d ∈ ds, isWidthDigit d = true) → motive (0x25 :: ds)) (l : List UInt8) :
    motive l := by
  match l with
  | [] => exact nil
  | c :: l =>
      by_cases hc : c = 0x25
      · subst hc
        have hds : ∀ d ∈ l.takeWhile isWidthDigit, isWidthDigit d = true :=
          fun _ => List.mem_takeWhile_imp
        have hsplit := l.takeWhile_append_dropWhile (p := isWidthDigit)
        have hstop := l.head?_dropWhile_not isWidthDigit
        revert hds hsplit hstop
        generalize l.takeWhile isWidthDigit = ds
        generalize l.dropWhile isWidthDigit = rest
        intro hds hsplit hstop
        match rest with
        | [] =>
            rw [← hsplit, List.append_nil]
            exact cut ds hds
        | c :: rest =>
            have ih := formatInduction nil char percent spec cut rest
            rw [← hsplit]
            by_cases hpercent : ds = [] ∧ c = 0x25
            · obtain ⟨rfl, rfl⟩ := hpercent
              exact percent rest ih
            · exact spec ds c rest hds hstop (not_and.mp hpercent) ih
      · exact char c l hc (formatInduction nil char percent spec cut l)
termination_by l.length
decreasing_by
  · rw [← hsplit]
    simp
    omega
  · simp

section Items

variable {ds l : List UInt8} {c : UInt8}

/-- Digits are gathered. -/
theorem parseFormat_digits (hds : ∀ d ∈ ds, isWidthDigit d = true) (acc rest : List UInt8) :
    parseFormat (some acc) (ds ++ rest) = parseFormat (some (acc ++ ds)) rest := by
  induction ds generalizing acc with
  | nil => rw [List.nil_append, List.append_nil]
  | cons d ds ih =>
      have hd := hds d List.mem_cons_self
      have hpercent : ¬ (acc = [] ∧ d = 0x25) := by
        rintro ⟨-, rfl⟩
        cases hd
      rw [List.cons_append, parseFormat, if_neg hpercent, if_pos hd,
        ih fun d' hd' => hds d' (List.mem_cons_of_mem d hd'), List.append_assoc]
      rfl

/-- A character that is printed as it is. -/
theorem parseFormat_char (hc : c ≠ 0x25) :
    parseFormat none (c :: l) = (.char c :: formatItems l, openSpec l) := by
  rw [parseFormat, if_neg hc]
  rfl

/-- `%%`. -/
theorem parseFormat_percent :
    parseFormat none (0x25 :: 0x25 :: l) = (.char 0x25 :: formatItems l, openSpec l) := rfl

/-- A specification with its conversion. -/
theorem parseFormat_spec (hds : ∀ d ∈ ds, isWidthDigit d = true) (hc : isWidthDigit c = false)
    (hpercent : ds = [] → c ≠ 0x25) :
    parseFormat none (0x25 :: (ds ++ c :: l)) = (.spec ds c :: formatItems l, openSpec l) := by
  rw [parseFormat, if_pos rfl, parseFormat_digits hds, List.nil_append, parseFormat,
    if_neg (not_and.mpr hpercent), if_neg (by rw [hc]; decide)]
  rfl

/-- The format ends inside a specification. -/
theorem parseFormat_cut (hds : ∀ d ∈ ds, isWidthDigit d = true) :
    parseFormat none (0x25 :: ds) = ([], some ds) := by
  have hopen := parseFormat_digits hds [] []
  rw [List.append_nil, List.nil_append] at hopen
  rw [parseFormat, if_pos rfl, hopen, parseFormat]

end Items

/-- A conversion that takes an argument. -/
def takesArg (c : UInt8) : Bool := c ∈ [0x73, 0x64, 0x78, 0x58, 0x63]

/-- The arguments suffice: each conversion has the one it takes, and that of `%s` is `NULL` or
a string with a NUL behind it. -/
def Sufficient (mem : UInt32 → CharPtr) : List FormatItem → List Int32 → Prop
  | [], _ => True
  | .char _ :: items, args => Sufficient mem items args
  | .spec _ c :: items, args =>
      if takesArg c then
        match args with
        | [] => False
        | a :: args => (c = 0x73 → a = 0 ∨ 0 ∈ mem a.toUInt32) ∧ Sufficient mem items args
      else Sufficient mem items args

/-! ## the pointers read -/

/-- The reads are continued at pointers with `n` bytes at least. -/
def ReadsOn (n : Nat) (reads reads' : List CharPtr) : Prop :=
  ∃ new, reads' = new ++ reads ∧ ∀ q ∈ new, n ≤ q.length

section Reads

variable {n : Nat} {reads reads' reads'' : List CharPtr} {q : CharPtr}

/-- One more pointer. -/
theorem ReadsOn.read (h : n ≤ q.length) : ReadsOn n reads (q :: reads) := by
  refine ⟨[q], rfl, fun q' hq' => ?_⟩
  rwa [List.mem_singleton.mp hq']

/-- One part of the code after another. -/
theorem ReadsOn.trans (h : ReadsOn n reads reads') (h' : ReadsOn n reads' reads'') :
    ReadsOn n reads reads'' := by
  obtain ⟨new, rfl, hnew⟩ := h
  obtain ⟨new', rfl, hnew'⟩ := h'
  refine ⟨new' ++ new, (List.append_assoc ..).symm, fun q hq => ?_⟩
  exact (List.mem_append.mp hq).elim (hnew' q) (hnew q)

/-- A weaker bound. -/
theorem ReadsOn.mono {m : Nat} (h : ReadsOn n reads reads') (hle : m ≤ n) :
    ReadsOn m reads reads' := by
  obtain ⟨new, hreads, hnew⟩ := h
  exact ⟨new, hreads, fun q hq => Nat.le_trans hle (hnew q hq)⟩

/-- What has been read stays. -/
theorem ReadsOn.subset (h : ReadsOn n reads reads') (hq : q ∈ reads) : q ∈ reads' := by
  obtain ⟨new, rfl, -⟩ := h
  exact List.mem_append_right new hq

end Reads

variable {mem : UInt32 → CharPtr}

/-- `*format` reads the format and leaves it. -/
theorem PrintRun.deref_eq_some {r r' : PrintRun} {c : UInt8} (h : r.deref = some (c, r')) :
    ∃ cs, r.format = c :: cs ∧ r' = { r with reads := r.format :: r.reads } := by
  rw [deref, Option.map_eq_some_iff] at h
  obtain ⟨c', hhead, hr'⟩ := h
  obtain ⟨rfl, rfl⟩ := Prod.mk.inj hr'
  obtain ⟨cs, hformat⟩ := List.head?_eq_some_iff.mp hhead
  exact ⟨cs, hformat, rfl⟩

/-- A loop reads no pointer behind the one that it ends at. -/
theorem charLoop_reads {β : Type*} {test : UInt8 → Bool} {body : β → UInt8 → β} {cs cs' : CharPtr}
    {x x' : β} {reads reads' : List CharPtr}
    (h : charLoop test body cs x reads = some (cs', x', reads')) :
    cs'.length ≤ cs.length ∧ ReadsOn cs'.length reads reads' := by
  induction cs generalizing x reads with
  | nil => cases h
  | cons c cs ih =>
      rw [charLoop] at h
      split at h
      · obtain ⟨hle, hreads⟩ := ih h
        have hle' : cs'.length ≤ (c :: cs).length := Nat.le_succ_of_le hle
        exact ⟨hle', (ReadsOn.read hle').trans hreads⟩
      · cases h
        exact ⟨Nat.le_refl _, ReadsOn.read (Nat.le_refl _)⟩

/-- Taking an argument reads nothing of the format. -/
theorem PrintRun.convert_eq_some {r r' : PrintRun} {f : Int32 → Option (PrintOut × Nat)}
    (h : r.convert f = some r') : r'.format = r.format ∧ r'.reads = r.reads := by
  rw [convert] at h
  split at h
  · cases h
  · rw [Option.map_eq_some_iff] at h
    obtain ⟨_, -, rfl⟩ := h
    exact ⟨rfl, rfl⟩

/-- A conversion does not touch the format. -/
theorem printConversion_eq_some {width : Int32} {pad : UInt32} {c : UInt8} {r r' : PrintRun}
    (h : printConversion mem width pad c r = some r') :
    r'.format = r.format ∧ r'.reads = r.reads := by
  rw [printConversion] at h
  split_ifs at h
  · exact PrintRun.convert_eq_some h
  · exact PrintRun.convert_eq_some h
  · exact PrintRun.convert_eq_some h
  · exact PrintRun.convert_eq_some h
  · exact PrintRun.convert_eq_some h
  · cases h
    exact ⟨rfl, rfl⟩

/-- A specification is read up to the character of its conversion. -/
theorem printSpec_reads {r r' : PrintRun} (h : printSpec mem r = some r') :
    ∃ c cs, r'.format = c :: cs ∧ cs.length < r.format.length ∧
      ReadsOn (cs.length + 1) r.reads r'.reads := by
  simp only [printSpec, Option.bind_eq_some_iff] at h
  obtain ⟨⟨format, pad, reads⟩, hzeros, ⟨format', width, reads'⟩, hwidth, ⟨c, r₁⟩, hderef,
    hconversion⟩ := h
  obtain ⟨cs, rfl, rfl⟩ := PrintRun.deref_eq_some hderef
  obtain ⟨hle, hreads⟩ := charLoop_reads hzeros
  obtain ⟨hle', hreads'⟩ := charLoop_reads hwidth
  obtain ⟨hformat, hreads''⟩ := printConversion_eq_some hconversion
  refine ⟨c, cs, hformat, Nat.lt_of_succ_le (Nat.le_trans hle' hle), ?_⟩
  rw [hreads'']
  exact (hreads.mono hle').trans (hreads'.trans (ReadsOn.read (Nat.le_refl _)))

/-- A round reads its format first, and nothing behind the byte before the next format. -/
theorem printRound_reads {r r' : PrintRun} {stopped : Bool}
    (h : printRound mem r = some (r', stopped)) :
    r.format ∈ r'.reads ∧
      ReadsOn (r'.format.length + if stopped then 0 else 1) r.reads r'.reads := by
  obtain ⟨format, args, out, pc, reads⟩ := r
  rw [printRound, Option.bind_eq_some_iff] at h
  obtain ⟨⟨c, r₁⟩, hderef, h⟩ := h
  obtain ⟨cs, rfl, rfl⟩ := PrintRun.deref_eq_some hderef
  have hhead : ReadsOn (cs.length + 1) reads ((c :: cs) :: reads) :=
    ReadsOn.read (Nat.le_refl _)
  simp only at h ⊢
  split_ifs at h with hnul hpercent
  · cases h
    exact ⟨List.mem_cons_self, hhead⟩
  · rw [Option.bind_eq_some_iff] at h
    obtain ⟨⟨c', r₂⟩, hderef', h⟩ := h
    obtain ⟨cs', hcs, rfl⟩ := PrintRun.deref_eq_some hderef'
    simp only [PrintRun.advance, List.tail_cons] at hcs h
    subst hcs
    have hnext : ReadsOn (cs'.length + 1) reads ((c' :: cs') :: (c :: c' :: cs') :: reads) :=
      (hhead.mono (Nat.le_succ _)).trans (ReadsOn.read (Nat.le_refl _))
    have hmem : (c :: c' :: cs') ∈ (c' :: cs') :: (c :: c' :: cs') :: reads :=
      List.mem_cons_of_mem _ List.mem_cons_self
    split_ifs at h with hnul' hpercent'
    · cases h
      exact ⟨hmem, hnext⟩
    · cases h
      exact ⟨hmem, hnext⟩
    · rw [Option.map_eq_some_iff] at h
      obtain ⟨r₁, hspec, h⟩ := h
      obtain ⟨c₁, cs₁, hformat, hlt, hreads⟩ := printSpec_reads hspec
      cases h
      simp only [hformat, List.tail_cons]
      exact ⟨hreads.subset hmem, (hnext.mono hlt).trans hreads⟩
  · cases h
    exact ⟨List.mem_cons_self, hhead⟩

/-- The format that the loop is at is read, and what has been read stays. -/
theorem printLoop_reads {n : Nat} {r r' : PrintRun} (h : printLoop mem n r = some r') :
    r.format ∈ r'.reads ∧ ReadsOn 0 r.reads r'.reads := by
  induction n generalizing r with
  | zero => cases h
  | succ n ih =>
      rw [printLoop, Option.bind_eq_some_iff] at h
      obtain ⟨⟨r₁, stopped⟩, hround, h⟩ := h
      obtain ⟨hmem, hreads⟩ := printRound_reads hround
      have hreads₀ := hreads.mono (Nat.zero_le _)
      cases stopped with
      | true =>
          cases h
          exact ⟨hmem, hreads₀⟩
      | false =>
          obtain ⟨-, hrest⟩ := ih h
          exact ⟨hrest.subset hmem, hreads₀.trans hrest⟩

/-! ## one round -/

/-- The round goes on with `format` and `args`. -/
def Continues (mem : UInt32 → CharPtr) (r : PrintRun) (format : CharPtr) (args : List Int32) :
    Prop :=
  ∃ r', printRound mem r = some (r', false) ∧ r'.format = format ∧ r'.args = args

/-- The round is the last one. -/
def Stops (mem : UInt32 → CharPtr) (r : PrintRun) (format : CharPtr) : Prop :=
  ∃ r', printRound mem r = some (r', true) ∧ r'.format = format

section Round

variable {ds : List UInt8} {rest : CharPtr} {c : UInt8} {r : PrintRun}

/-- The NUL ends the loop. -/
theorem stops_nul (hformat : r.format = 0 :: rest) : Stops mem r (0 :: rest) := by
  obtain ⟨format, args, out, pc, reads⟩ := r
  subst hformat
  exact ⟨_, rfl, rfl⟩

/-- So does a NUL right behind a percent sign. -/
theorem stops_percent_nul (hformat : r.format = 0x25 :: 0 :: rest) :
    Stops mem r (0 :: rest) := by
  obtain ⟨format, args, out, pc, reads⟩ := r
  subst hformat
  exact ⟨_, rfl, rfl⟩

/-- Any other character is printed. -/
theorem continues_char (hnul : c ≠ 0) (hc : c ≠ 0x25) (hformat : r.format = c :: rest) :
    Continues mem r rest r.args := by
  obtain ⟨format, args, out, pc, reads⟩ := r
  subst hformat
  have hround : printRound mem ⟨c :: rest, args, out, pc, reads⟩ =
      some (⟨rest, args, printchar out c, pc + 1, (c :: rest) :: reads⟩, false) := by
    rw [printRound, PrintRun.deref, List.head?_cons, Option.map_some, Option.bind_some]
    simp only [if_neg hnul, if_neg hc]
    rfl
  exact ⟨_, hround, rfl, rfl⟩

/-- `%%` is printed as one character. -/
theorem continues_percent (hformat : r.format = 0x25 :: 0x25 :: rest) :
    Continues mem r rest r.args := by
  obtain ⟨format, args, out, pc, reads⟩ := r
  subst hformat
  exact ⟨_, rfl, rfl, rfl⟩

/-- A loop ends in front of a character that does not pass the test. -/
theorem charLoop_append {β : Type*} (test : UInt8 → Bool) (body : β → UInt8 → β)
    (hc : test c = false) (ds : List UInt8) (rest : CharPtr) (x : β) (reads : List CharPtr) :
    ∃ x' reads', charLoop test body (ds ++ c :: rest) x reads =
      some (ds.dropWhile test ++ c :: rest, x', reads') := by
  induction ds generalizing x reads with
  | nil => exact ⟨_, _, if_neg (by rw [hc]; exact Bool.false_ne_true)⟩
  | cons d ds ih =>
      rw [List.cons_append, charLoop, List.dropWhile_cons]
      split
      · exact ih _ _
      · exact ⟨_, _, rfl⟩

/-- What a conversion needs of the arguments. -/
def HasArg (mem : UInt32 → CharPtr) (c : UInt8) (args : List Int32) : Prop :=
  takesArg c = true → ∃ a rest, args = a :: rest ∧ (c = 0x73 → a = 0 ∨ 0 ∈ mem a.toUInt32)

/-- A string with a NUL can be printed. -/
theorem prints_of_mem {string : List UInt8} (h : 0 ∈ string) (out : PrintOut) (width : Int32)
    (pad : UInt32) : ∃ result, prints out string width pad = some result := by
  obtain ⟨text, rest, rfl, hnul⟩ := List.eq_append_cons_of_mem h
  exact ⟨_, prints_append rest hnul out width pad⟩

/-- With an argument the conversion goes on. -/
theorem PrintRun.convert_eq {f : Int32 → Option (PrintOut × Nat)} {a : Int32} {args : List Int32}
    (hargs : r.args = a :: args) (hf : ∃ result, f a = some result) :
    ∃ r', r.convert f = some r' ∧ r'.args = args := by
  obtain ⟨⟨out, n⟩, hf⟩ := hf
  rw [convert, hargs]
  simp only [hf, Option.map_some]
  exact ⟨_, rfl, rfl⟩

/-- A conversion goes on, and takes an argument where it needs one. -/
theorem printConversion_of_hasArg (h : HasArg mem c r.args) (width : Int32) (pad : UInt32) :
    ∃ r', printConversion mem width pad c r = some r' ∧
      r'.args = if takesArg c then r.args.tail else r.args := by
  by_cases htakes : takesArg c = true
  · obtain ⟨a, args, hargs, hstring⟩ := h htakes
    have hten : NumberConversion 10 true 0x61 := Or.inl ⟨rfl, rfl⟩
    have hsixteen : ∀ letbase : UInt32, letbase = 0x61 ∨ letbase = 0x41 →
        NumberConversion 16 false letbase := fun _ hletbase => Or.inr ⟨rfl, rfl, hletbase⟩
    rw [printConversion, if_pos htakes, hargs, List.tail_cons]
    split_ifs with hs hd hx hX hc
    · refine PrintRun.convert_eq hargs (prints_of_mem ?_ _ _ _)
      split
      · decide
      · next hne => exact (hstring hs).resolve_left hne
    · exact PrintRun.convert_eq hargs ⟨_, printi_eq hten _ _ _ _⟩
    · exact PrintRun.convert_eq hargs ⟨_, printi_eq (hsixteen 0x61 (Or.inl rfl)) _ _ _ _⟩
    · exact PrintRun.convert_eq hargs ⟨_, printi_eq (hsixteen 0x41 (Or.inr rfl)) _ _ _ _⟩
    · exact PrintRun.convert_eq hargs (prints_of_mem (by simp) _ _ _)
    · simp [takesArg, hs, hd, hx, hX, hc] at htakes
  · refine ⟨r, ?_, (if_neg htakes).symm⟩
    simp only [takesArg, List.mem_cons, List.not_mem_nil, decide_eq_true_eq, not_or] at htakes
    obtain ⟨hs, hd, hx, hX, hc, -⟩ := htakes
    rw [printConversion, if_neg hs, if_neg hd, if_neg hx, if_neg hX, if_neg hc]

/-- The zeros, the width and the conversion of a specification. -/
theorem printSpec_append (hds : ∀ d ∈ ds, isWidthDigit d = true) (hc : isWidthDigit c = false)
    (hargs : HasArg mem c r.args) (hformat : r.format = ds ++ c :: rest) :
    ∃ r', printSpec mem r = some r' ∧ r'.format = c :: rest ∧
      r'.args = if takesArg c then r.args.tail else r.args := by
  have hzero : (c == 0x30) = false := by
    refine beq_false_of_ne ?_
    rintro rfl
    cases hc
  obtain ⟨pad, reads, hzeros⟩ :=
    charLoop_append (· == 0x30) (fun pad _ => pad ||| PAD_ZERO) hzero ds rest 0 r.reads
  obtain ⟨width, reads', hwidth⟩ :=
    charLoop_append isWidthDigit (fun width c => width * 10 + Int32.ofNat (c.toNat - 0x30)) hc
      (ds.dropWhile (· == 0x30)) rest 0 reads
  have hall : (ds.dropWhile (· == 0x30)).dropWhile isWidthDigit = [] :=
    List.dropWhile_eq_nil_iff.mpr fun d hd => hds d ((List.dropWhile_sublist _).subset hd)
  rw [hall, List.nil_append] at hwidth
  obtain ⟨r', hconversion, hargs'⟩ := @printConversion_of_hasArg mem c
    { r with format := c :: rest, reads := (c :: rest) :: reads' } hargs width pad
  refine ⟨r', ?_, (printConversion_eq_some hconversion).1, hargs'⟩
  rw [printSpec, hformat, printZeros, hzeros, Option.bind_some]
  simp only
  rw [printWidth, hwidth, Option.bind_some]
  exact hconversion

/-- A round over a specification.  Behind digits the character may also be the NUL. -/
theorem continues_spec (hds : ∀ d ∈ ds, isWidthDigit d = true) (hc : isWidthDigit c = false)
    (hother : ds = [] → c ≠ 0 ∧ c ≠ 0x25) (hargs : HasArg mem c r.args)
    (hformat : r.format = 0x25 :: (ds ++ c :: rest)) :
    Continues mem r rest (if takesArg c then r.args.tail else r.args) := by
  obtain ⟨format, args, out, pc, reads⟩ := r
  subst hformat
  obtain ⟨r', hspec, hformat', hargs'⟩ := @printSpec_append mem ds rest c
    ⟨ds ++ c :: rest, args, out, pc, (ds ++ c :: rest) :: (0x25 :: (ds ++ c :: rest)) :: reads⟩
    hds hc hargs rfl
  refine ⟨r'.advance, ?_, by rw [PrintRun.advance, hformat']; rfl, hargs'⟩
  obtain ⟨d, tail, hhead, hnul, hpercent⟩ :
      ∃ d tail, ds ++ c :: rest = d :: tail ∧ d ≠ 0 ∧ d ≠ 0x25 := by
    cases ds with
    | nil => exact ⟨c, rest, rfl, hother rfl⟩
    | cons d ds =>
        have hd := hds d List.mem_cons_self
        refine ⟨d, ds ++ c :: rest, rfl, ?_, ?_⟩
        · rintro rfl
          cases hd
        · rintro rfl
          cases hd
  rw [hhead] at hspec ⊢
  rw [printRound]
  simp only [PrintRun.deref, PrintRun.advance, List.head?_cons, List.tail_cons, Option.map_some,
    Option.bind_some, if_neg hnul, if_neg hpercent, hspec]
  rfl

end Round

/-! ## the whole format -/

/-- The format does not end inside a specification behind digits of it. -/
def SpecsClosed (l : List UInt8) : Prop := openSpec l = none ∨ openSpec l = some []

instance SpecsClosed.decidable (l : List UInt8) : Decidable (SpecsClosed l) :=
  inferInstanceAs (Decidable (_ ∨ _))

/-- `print` returns and has not read behind the NUL, where the memory has `behind`. -/
def StaysWithin (behind : CharPtr) (result : Option PrintRun) : Prop :=
  ∃ r, result = some r ∧ ∀ q ∈ r.reads, behind.length < q.length

/-- The loop goes on with the next round. -/
theorem Continues.loop {r : PrintRun} {format : CharPtr} {args : List Int32}
    (h : Continues mem r format args) :
    ∃ r', r'.format = format ∧ r'.args = args ∧ ReadsOn (format.length + 1) r.reads r'.reads ∧
      ∀ n, printLoop mem (n + 1) r = printLoop mem n r' := by
  obtain ⟨r', hround, rfl, hargs⟩ := h
  refine ⟨r', rfl, hargs, (printRound_reads hround).2, fun n => ?_⟩
  rw [printLoop, hround]
  rfl

/-- The loop ends. -/
theorem Stops.loop {r : PrintRun} {format : CharPtr} (h : Stops mem r format) (n : Nat) :
    ∃ r', printLoop mem (n + 1) r = some r' ∧ ReadsOn format.length r.reads r'.reads := by
  obtain ⟨r', hround, rfl⟩ := h
  refine ⟨r', ?_, (printRound_reads hround).2⟩
  rw [printLoop, hround]
  rfl

/-- The loop over the rest of a format. -/
structure LoopResult (mem : UInt32 → CharPtr) (behind : CharPtr) (l : List UInt8) (n : Nat)
    (r : PrintRun) : Prop where
  closed : SpecsClosed l →
    ∃ r', printLoop mem n r = some r' ∧ ReadsOn (behind.length + 1) r.reads r'.reads
  cut : ¬ SpecsClosed l → ∀ r', printLoop mem n r = some r' → behind ∈ r'.reads

/-- A round that goes on with the rest of a format. -/
theorem Continues.loopResult {behind : CharPtr} {l l' : List UInt8} {n : Nat} {r : PrintRun}
    {args : List Int32} (h : Continues mem r (l' ++ 0 :: behind) args)
    (hopen : openSpec l = openSpec l')
    (ih : ∀ r', r'.format = l' ++ 0 :: behind → r'.args = args → LoopResult mem behind l' n r') :
    LoopResult mem behind l (n + 1) r := by
  obtain ⟨r', hformat, hargs, hreads, hloop⟩ := h.loop
  obtain ⟨hclosed, hcut⟩ := ih r' hformat hargs
  have hiff : SpecsClosed l ↔ SpecsClosed l' := by rw [SpecsClosed, SpecsClosed, hopen]
  have hle : behind.length + 1 ≤ (l' ++ 0 :: behind).length + 1 := by
    rw [List.length_append, List.length_cons]
    omega
  constructor
  · intro hl
    obtain ⟨r'', hresult, hreads'⟩ := hclosed (hiff.mp hl)
    exact ⟨r'', by rw [hloop, hresult], (hreads.mono hle).trans hreads'⟩
  · intro hl r'' hresult
    rw [hloop] at hresult
    exact hcut (mt hiff.mpr hl) r'' hresult

/-- A round that the loop ends with. -/
theorem Stops.loopResult {behind : CharPtr} {l : List UInt8} {r : PrintRun}
    (h : Stops mem r (0 :: behind)) (hclosed : SpecsClosed l) (n : Nat) :
    LoopResult mem behind l (n + 1) r := by
  obtain ⟨r', hresult, hreads⟩ := h.loop n
  exact ⟨fun _ => ⟨r', hresult, hreads⟩, fun hcut => absurd hclosed hcut⟩

/-- A specification that the format ends in: the NUL is skipped. -/
theorem loopResult_cut {behind : CharPtr} {ds : List UInt8} {r : PrintRun}
    (hds : ∀ d ∈ ds, isWidthDigit d = true) (hne : ds ≠ [])
    (hformat : r.format = 0x25 :: (ds ++ 0 :: behind)) (n : Nat) :
    LoopResult mem behind (0x25 :: ds) (n + 1) r := by
  have hopen : openSpec (0x25 :: ds) = some ds := by rw [openSpec, parseFormat_cut hds]
  have harg : HasArg mem 0 r.args := fun htakes => by cases htakes
  have hround := continues_spec hds rfl (fun hnil => absurd hnil hne) harg hformat
  obtain ⟨r', hformat', -, -, hloop⟩ := hround.loop
  constructor
  · intro hclosed
    rw [SpecsClosed, hopen] at hclosed
    obtain h | h := hclosed
    · cases h
    · exact absurd (Option.some.inj h) hne
  · intro _ r'' hresult
    rw [hloop] at hresult
    rw [← hformat']
    exact (printLoop_reads hresult).1

/-- The arguments of a specification, and of what is behind it. -/
theorem Sufficient.spec {ds : List UInt8} {c : UInt8} {items : List FormatItem}
    {args : List Int32} (h : Sufficient mem (.spec ds c :: items) args) :
    HasArg mem c args ∧ Sufficient mem items (if takesArg c then args.tail else args) := by
  unfold Sufficient at h
  by_cases htakes : takesArg c = true
  · rw [if_pos htakes] at h ⊢
    match args, h with
    | a :: args, ⟨hstring, hrest⟩ => exact ⟨fun _ => ⟨a, args, rfl, hstring⟩, hrest⟩
  · rw [if_neg htakes] at h ⊢
    exact ⟨fun h' => absurd h' htakes, h⟩

/-- The loop, by the form of the format. -/
theorem printLoop_format (behind : CharPtr) (l : List UInt8) :
    ∀ (n : Nat) (r : PrintRun), 0 ∉ l → r.format = l ++ 0 :: behind → l.length < n →
      Sufficient mem (formatItems l) r.args → LoopResult mem behind l n r := by
  induction l using formatInduction with
  | nil =>
      intro n r _ hformat hn _
      obtain ⟨n, rfl⟩ := Nat.exists_eq_add_one.mpr hn
      exact (stops_nul hformat).loopResult (Or.inl rfl) n
  | char c l hc ih =>
      intro n r hnul hformat hn hargs
      obtain ⟨hc0, hl⟩ := not_or.mp (mt List.mem_cons.mpr hnul)
      obtain ⟨n, rfl⟩ := Nat.exists_eq_add_one.mpr (Nat.zero_lt_of_lt hn)
      rw [formatItems, parseFormat_char hc] at hargs
      have hopen : openSpec (c :: l) = openSpec l := by rw [openSpec, parseFormat_char hc]
      refine (continues_char (Ne.symm hc0) hc hformat).loopResult hopen fun r' hformat' hargs' => ?_
      refine ih n r' hl hformat' (Nat.lt_of_succ_lt_succ hn) ?_
      rw [hargs']
      exact hargs
  | percent l ih =>
      intro n r hnul hformat hn hargs
      obtain ⟨n, rfl⟩ := Nat.exists_eq_add_one.mpr (Nat.zero_lt_of_lt hn)
      rw [formatItems, parseFormat_percent] at hargs
      have hopen : openSpec (0x25 :: 0x25 :: l) = openSpec l := by
        rw [openSpec, parseFormat_percent]
      refine (continues_percent hformat).loopResult hopen fun r' hformat' hargs' => ?_
      refine ih n r' (fun hmem => hnul ?_) hformat' ?_ ?_
      · exact List.mem_cons_of_mem _ (List.mem_cons_of_mem _ hmem)
      · simp only [List.length_cons] at hn
        omega
      · rw [hargs']
        exact hargs
  | spec ds c l hds hc hpercent ih =>
      intro n r hnul hformat hn hargs
      obtain ⟨n, rfl⟩ := Nat.exists_eq_add_one.mpr (Nat.zero_lt_of_lt hn)
      rw [formatItems, parseFormat_spec hds hc hpercent] at hargs
      have hopen : openSpec (0x25 :: (ds ++ c :: l)) = openSpec l := by
        rw [openSpec, parseFormat_spec hds hc hpercent]
      obtain ⟨harg, hrest⟩ := Sufficient.spec hargs
      have hc0 : c ≠ 0 := by
        rintro rfl
        exact hnul (by simp)
      rw [List.cons_append, List.append_assoc, List.cons_append] at hformat
      refine (continues_spec hds hc (fun hnil => ⟨hc0, hpercent hnil⟩) harg hformat).loopResult
        hopen fun r' hformat' hargs' => ?_
      refine ih n r' (fun hmem => hnul (by simp [hmem])) hformat' ?_ ?_
      · simp only [List.length_cons, List.length_append] at hn
        omega
      · rw [hargs']
        exact hrest
  | cut ds hds =>
      intro n r hnul hformat hn hargs
      obtain ⟨n, rfl⟩ := Nat.exists_eq_add_one.mpr (Nat.zero_lt_of_lt hn)
      by_cases hne : ds = []
      · subst hne
        exact (stops_percent_nul hformat).loopResult (Or.inr rfl) n
      · exact loopResult_cut hds hne hformat n

/-- `print` stays within its format exactly when that does not end inside a specification
behind digits of it, and so do `printf` and `sprintf`. -/
theorem print_stays_within_iff {l : List UInt8} (hl : 0 ∉ l) {args : List Int32}
    (hargs : Sufficient mem (formatItems l) args) (behind : CharPtr) :
    (∀ out, StaysWithin behind (print mem out (l ++ 0 :: behind) args) ↔ SpecsClosed l) ∧
      (∀ ram uart,
        StaysWithin behind (printf mem ram uart (l ++ 0 :: behind) args) ↔ SpecsClosed l) ∧
      ∀ ram uart dst,
        StaysWithin behind (sprintf mem ram uart dst (l ++ 0 :: behind) args) ↔ SpecsClosed l := by
  have hprint : ∀ out,
      StaysWithin behind (print mem out (l ++ 0 :: behind) args) ↔ SpecsClosed l := by
    intro out
    have hfuel : l.length < (l ++ 0 :: behind).length := by simp
    have hloop := printLoop_format behind l (l ++ 0 :: behind).length
      ⟨l ++ 0 :: behind, args, out, 0, []⟩ hl rfl hfuel hargs
    constructor
    · rintro ⟨r, hresult, hwithin⟩
      by_contra hcut
      rw [print, Option.map_eq_some_iff] at hresult
      obtain ⟨r', hresult, rfl⟩ := hresult
      exact Nat.lt_irrefl _ (hwithin behind (hloop.cut hcut r' hresult))
    · intro hclosed
      obtain ⟨r, hresult, new, hreads, hnew⟩ := hloop.closed hclosed
      rw [List.append_nil] at hreads
      refine ⟨{ r with out := r.out.terminate }, by rw [print, hresult]; rfl, fun q hq => ?_⟩
      rw [hreads] at hq
      exact hnew q hq
  exact ⟨hprint, fun ram uart => hprint _, fun ram uart dst => hprint _⟩

/-- A number in a field. -/
theorem print_stays_within_iff_number :
    0 ∉ [(0x25 : UInt8), 0x34, 0x64] ∧
      Sufficient (fun _ => []) (formatItems [0x25, 0x34, 0x64]) [7] ∧
      ∀ out, StaysWithin [0x21] (print (fun _ => []) out [0x25, 0x34, 0x64, 0, 0x21] [7]) := by
  have hargs : Sufficient (fun _ => []) (formatItems [0x25, 0x34, 0x64]) [7] :=
    ⟨fun hs => absurd hs (by decide), trivial⟩
  have hnul : 0 ∉ [(0x25 : UInt8), 0x34, 0x64] := by decide
  exact ⟨hnul, hargs, fun out =>
    ((print_stays_within_iff hnul hargs [0x21]).1 out).mpr (by decide)⟩

/-- Behind `%0` the text after the NUL is printed. -/
theorem print_runs_behind_nul :
    ¬ ∀ (mem : UInt32 → CharPtr) (l : List UInt8) (args : List Int32) (behind : CharPtr)
      (out : PrintOut), 0 ∉ l → Sufficient mem (formatItems l) args →
        StaysWithin behind (print mem out (l ++ 0 :: behind) args) := by
  intro h
  obtain ⟨r, hresult, hwithin⟩ := h (fun _ => []) [0x25, 0x30] [] [0x41, 0] ⟨none, fun _ => 0, []⟩
    (by decide) trivial
  have hrun : (print (fun _ => []) ⟨none, fun _ => 0, []⟩ [0x25, 0x30, 0, 0x41, 0] []).map
      (fun r => (r.reads.contains [0x41, 0], r.out.uart)) = some (true, [0x41]) := by decide
  rw [show print _ _ [0x25, 0x30, 0, 0x41, 0] [] = some r from hresult, Option.map_some] at hrun
  have hread : [0x41, 0] ∈ r.reads := by
    rw [← List.contains_iff_mem]
    exact (Prod.mk.inj (Option.some.inj hrun)).1
  exact Nat.lt_irrefl 2 (hwithin _ hread)

end Fr5080
