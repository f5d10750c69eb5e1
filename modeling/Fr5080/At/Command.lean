import Fr5080.At.Framing
import Fr5080.At.Number

/-!
# Fr5080.At.Command

The handlers of a posted AT command (`app_at.c`): `app_at_cmd_recv_handler` and
`app_at_recv_cmd_A`.

The fields of a command are at fixed offsets of the message, however long it
is.  `reads` are the bytes of the message that have been read, a history
variable; what lies behind the message in memory is not known.
-/

namespace Fr5080

open Embedded

/-! ## the code -/

/-- What a command leads to. -/
inductive AtAction
  | ignore
  /-- `counter` times a delay and the check of the playback interrupt -/
  | delay (counter counterSingle : UInt8)
  | hello
  /-- the word at `addr` is printed -/
  | show (addr : UInt32)
  /-- `val` is written to the word at `addr` -/
  | write (addr val : UInt32)
  /-- `count` words from `ptr` on are printed -/
  | dump (ptr : UInt32) (count : UInt8)
deriving DecidableEq, Repr

/-- `ascii_strn2val(&data[off], base, n)`, and what is read of `data`. -/
def atField (data : Nat → UInt8) (off : Nat) (base n : UInt8) : UInt32 × List Nat :=
  let str := fun i => data (off + i)
  (asciiStrn2val str base n, (List.range (asciiStrn2valReads str base n)).map (off + ·))

/-- `app_at_recv_cmd_A`, and what is read of `data`. -/
def appAtRecvCmdA (subCmd : UInt8) (data : Nat → UInt8) : AtAction × List Nat :=
  match subCmd with
  | 0x41 =>
      let (counter, reads) := atField data 0 10 2
      let (counterSingle, reads') := atField data 3 10 2
      (.delay counter.toUInt8 counterSingle.toUInt8, reads ++ reads')
  | 0x47 => (.hello, [])
  | 0x48 =>
      let (addr, reads) := atField data 0 16 8
      (.show addr, reads)
  | 0x49 =>
      let (addr, reads) := atField data 0 16 8
      let (val, reads') := atField data 9 16 8
      (.write addr val, reads ++ reads')
  | 0x55 =>
      let (ptr, reads) := atField data 0 16 8
      let (count, reads') := atField data 9 16 2
      (.dump (ptr &&& ~~~3) count.toUInt8, reads ++ reads')
  | _ => (.ignore, [])

/-- `app_at_cmd_recv_handler`, and what is read of `msg->param`. -/
def appAtCmdRecvHandler (param : Nat → UInt8) : AtAction × List Nat :=
  match param 0 with
  | 0x41 =>
      let (action, reads) := appAtRecvCmdA (param 1) (fun i => param (2 + i))
      (action, [0, 1] ++ reads.map (2 + ·))
  | _ => (.ignore, [0])

/-! ## the fields -/

/-- A number at a fixed offset of the message. -/
structure AtField where
  off : Nat
  base : UInt8
  n : UInt8
deriving DecidableEq, Repr

/-- The fields of a sub-command. -/
def atFields : UInt8 → List AtField
  | 0x41 => [⟨2, 10, 2⟩, ⟨5, 10, 2⟩]
  | 0x48 => [⟨2, 16, 8⟩]
  | 0x49 => [⟨2, 16, 8⟩, ⟨11, 16, 8⟩]
  | 0x55 => [⟨2, 16, 8⟩, ⟨11, 16, 2⟩]
  | _ => []

/-- What is read of a field. -/
def AtField.reads (f : AtField) (param : Nat → UInt8) : List Nat :=
  (List.range (asciiStrn2valReads (fun i => param (f.off + i)) f.base f.n)).map (f.off + ·)

/-- The field ends within the message, or a number in it does: a digit other than zero is
there, and the newline ends the number. -/
def AtField.Inside (f : AtField) (msg : AtMsg) : Prop :=
  f.off + f.n.toNat ≤ msg.paramLen ∨
    ∃ i < msg.paramLen, f.off ≤ i ∧ IsNonzeroDigit f.base (msg.param.getD i 0)

instance (f : AtField) (msg : AtMsg) : Decidable (f.Inside msg) :=
  inferInstanceAs (Decidable (f.off + f.n.toNat ≤ msg.paramLen ∨
    ∃ i < msg.paramLen, f.off ≤ i ∧ IsNonzeroDigit f.base (msg.param.getD i 0)))

/-- All fields of the command are inside of the message. -/
def AtMsg.FieldsInside (msg : AtMsg) : Prop :=
  msg.param.getD 0 0 = 0x41 → ∀ f ∈ atFields (msg.param.getD 1 0), f.Inside msg

instance : DecidablePred AtMsg.FieldsInside := fun msg =>
  inferInstanceAs (Decidable
    (msg.param.getD 0 0 = 0x41 → ∀ f ∈ atFields (msg.param.getD 1 0), f.Inside msg))

variable {param : Nat → UInt8} {msg : AtMsg} {f : AtField} {stream : List UInt8}

theorem snd_atField (off : Nat) (base n : UInt8) :
    (atField (fun i => param (2 + i)) off base n).2.map (2 + ·) =
      AtField.reads ⟨2 + off, base, n⟩ param := by
  simp [atField, AtField.reads, Nat.add_assoc, Function.comp_def]

theorem snd_appAtRecvCmdA (subCmd : UInt8) :
    (appAtRecvCmdA subCmd fun i => param (2 + i)).2.map (2 + ·) =
      (atFields subCmd).flatMap fun f => f.reads param := by
  unfold appAtRecvCmdA atFields
  split <;> simp [snd_atField]

/-- A command reads its two letters and its fields. -/
theorem snd_appAtCmdRecvHandler (param : Nat → UInt8) :
    (appAtCmdRecvHandler param).2 =
      if param 0 = 0x41 then [0, 1] ++ (atFields (param 1)).flatMap fun f => f.reads param
      else [0] := by
  rw [← snd_appAtRecvCmdA, appAtCmdRecvHandler]
  split
  · next ha => rw [if_pos ha]
  · next ha => rw [if_neg ha]

/-- A field is at most as long as it may be in a full message, and its number fits. -/
theorem atFields_fit {subCmd : UInt8} (hf : f ∈ atFields subCmd) :
    0 < f.n.toNat ∧ f.off + f.n.toNat ≤ 32 ∧ f.base.toNat ^ f.n.toNat ≤ 2 ^ 32 := by
  unfold atFields at hf
  split at hf
  all_goals
    simp only [List.mem_cons, List.not_mem_nil, or_false] at hf
  · obtain rfl | rfl := hf <;> decide
  · subst hf
    decide
  · obtain rfl | rfl := hf <;> decide
  · obtain rfl | rfl := hf <;> decide

theorem forall_mem_reads_iff {len : Nat} (hpos : 0 < f.n.toNat) :
    (∀ i ∈ f.reads param, i < len) ↔
      f.off + asciiStrn2valReads (fun i => param (f.off + i)) f.base f.n ≤ len := by
  have hread : 0 < asciiStrn2valReads (fun i => param (f.off + i)) f.base f.n :=
    lt_snd_asciiStrn2valLoop hpos 0 0
  simp only [AtField.reads, List.mem_map, List.mem_range, forall_exists_index, and_imp,
    forall_apply_eq_imp_iff₂]
  constructor
  · intro h
    have hlast := h (asciiStrn2valReads (fun i => param (f.off + i)) f.base f.n - 1) (by omega)
    omega
  · intro h i hi
    omega

/-- A message that is not full ends with a newline. -/
theorem AtMsg.Framed.newline (h : msg.Framed) {k : Nat} (hk : msg.paramLen = k + 1)
    (hshort : msg.paramLen ≠ 32) : msg.param.getD k 0 = 0x0A := by
  have hlast := h.last.resolve_left hshort
  rw [hk, Nat.add_sub_cancel] at hlast
  rw [List.getD_eq_getElem?_getD, hlast]
  rfl

/-- A message of one byte is a newline. -/
theorem AtMsg.Framed.one_lt (h : msg.Framed) (ha : msg.param.getD 0 0 = 0x41) :
    1 < msg.paramLen := by
  by_contra hone
  have hpos := h.pos
  rw [h.newline (by omega : msg.paramLen = 0 + 1) (by omega)] at ha
  exact absurd ha (by decide)

/-- A field of a message is read inside of it exactly when it is inside. -/
theorem AtField.reads_inside_iff (hmsg : msg.Framed)
    (hparam : ∀ i < msg.paramLen, param i = msg.param.getD i 0) (hpos : 0 < f.n.toNat)
    (hfit : f.base.toNat ^ f.n.toNat ≤ 2 ^ 32) (hlen : f.off + f.n.toNat ≤ 32) :
    (∀ i ∈ f.reads param, i < msg.paramLen) ↔ f.Inside msg := by
  rw [forall_mem_reads_iff hpos, AtField.Inside]
  have hread : 0 < asciiStrn2valReads (fun i => param (f.off + i)) f.base f.n :=
    lt_snd_asciiStrn2valLoop hpos 0 0
  have hreads : asciiStrn2valReads (fun i => param (f.off + i)) f.base f.n ≤ f.n.toNat := by
    have hle := @snd_asciiStrn2valLoop_le (fun i => param (f.off + i)) f.base f.n.toNat 0 0
    rwa [Nat.zero_add] at hle
  by_cases hends : f.off + f.n.toNat ≤ msg.paramLen
  · exact iff_of_true (by omega) (Or.inl hends)
  · rw [or_iff_right hends]
    by_cases hoff : f.off < msg.paramLen
    · -- the newline is where the number ends at the latest
      obtain ⟨k, hk⟩ := Nat.exists_eq_add_of_lt hoff
      have hshort : msg.paramLen ≠ 32 := by omega
      have hnewline : param (f.off + k) = 0x0A := by
        rw [hparam (f.off + k) (by omega)]
        exact hmsg.newline hk hshort
      have hstop : isDigit f.base (param (f.off + k)) = false := by
        rw [hnewline]
        rfl
      have hiff := @asciiStrn2valReads_le_iff (fun i => param (f.off + i)) f.base f.n k hfit
        (by omega) hstop
      have hsum : f.off + asciiStrn2valReads (fun i => param (f.off + i)) f.base f.n ≤
            msg.paramLen ↔
          asciiStrn2valReads (fun i => param (f.off + i)) f.base f.n ≤ k + 1 := by omega
      rw [hsum, hiff]
      constructor
      · rintro ⟨i, hi, hdigit⟩
        rw [hparam (f.off + i) (by omega)] at hdigit
        exact ⟨f.off + i, by omega, Nat.le_add_right _ _, hdigit⟩
      · rintro ⟨i, hi, hle, hdigit⟩
        obtain ⟨j, rfl⟩ := Nat.exists_eq_add_of_le hle
        rw [← hparam (f.off + j) hi] at hdigit
        exact ⟨j, by omega, hdigit⟩
    · refine iff_of_false (by omega) ?_
      rintro ⟨i, hi, hle, -⟩
      omega

/-- The bytes of a posted message that the handlers read are inside of it exactly when the
fields are. -/
theorem at_reads_command_iff (hposted : msg ∈ (uartReceive AtRecv.init stream).2)
    (hparam : slice param 0 msg.paramLen = msg.param) :
    (∀ i ∈ (appAtCmdRecvHandler param).2, i < msg.paramLen) ↔ msg.FieldsInside := by
  have hmsg := framed_of_posted hposted
  have hbyte : ∀ i < msg.paramLen, param i = msg.param.getD i 0 := by
    intro i hi
    simp [← hparam, hi]
  rw [snd_appAtCmdRecvHandler, AtMsg.FieldsInside, ← hbyte 0 hmsg.pos]
  split
  · next ha =>
      rw [forall_prop_of_true ha]
      have htwo := hmsg.one_lt (hbyte 0 hmsg.pos ▸ ha)
      rw [← hbyte 1 htwo, List.forall_mem_append]
      have hletters : ∀ i ∈ [0, 1], i < msg.paramLen := by
        intro i hi
        simp only [List.mem_cons, List.not_mem_nil, or_false] at hi
        omega
      rw [and_iff_right hletters, List.forall_mem_flatMap]
      refine forall₂_congr fun f hf => ?_
      obtain ⟨hpos, hlen, hfit⟩ := atFields_fit hf
      exact AtField.reads_inside_iff hmsg hbyte hpos hfit hlen
  · next ha =>
      refine iff_of_true ?_ (fun ha' => absurd ha' ha)
      intro i hi
      rw [List.mem_singleton.mp hi]
      exact hmsg.pos

/-- `AT#AH12345678` and a newline: the address is inside of the message. -/
theorem at_reads_command_iff_show :
    ⟨11, [0x41, 0x48, 0x31, 0x32, 0x33, 0x34, 0x35, 0x36, 0x37, 0x38, 0x0A]⟩ ∈
        (uartReceive AtRecv.init [0x41, 0x54, 0x23, 0x41, 0x48, 0x31, 0x32, 0x33, 0x34, 0x35, 0x36,
          0x37, 0x38, 0x0A]).2 ∧
      ∀ i ∈ (appAtCmdRecvHandler fun i =>
        [0x41, 0x48, 0x31, 0x32, 0x33, 0x34, 0x35, 0x36, 0x37, 0x38, 0x0A].getD i 0).2, i < 11 := by
  have hposted : ⟨11, [0x41, 0x48, 0x31, 0x32, 0x33, 0x34, 0x35, 0x36, 0x37, 0x38, 0x0A]⟩ ∈
      (uartReceive AtRecv.init [0x41, 0x54, 0x23, 0x41, 0x48, 0x31, 0x32, 0x33, 0x34, 0x35, 0x36,
        0x37, 0x38, 0x0A]).2 := by decide
  exact ⟨hposted, (at_reads_command_iff hposted (by decide)).mpr (by decide +kernel)⟩

/-- `AT#AH` and a newline: eight characters are read behind the two letters. -/
theorem at_reads_behind_command :
    ¬ ∀ stream msg param, msg ∈ (uartReceive AtRecv.init stream).2 →
      slice param 0 msg.paramLen = msg.param →
      ∀ i ∈ (appAtCmdRecvHandler param).2, i < msg.paramLen := by
  intro h
  have hall := h [0x41, 0x54, 0x23, 0x41, 0x48, 0x0A] ⟨3, [0x41, 0x48, 0x0A]⟩
    (fun i => [0x41, 0x48, 0x0A].getD i 0) (by decide) (by decide)
  exact absurd (hall 9) (by decide)

end Fr5080
