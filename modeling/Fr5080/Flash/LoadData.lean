import Fr5080.Embedded.Word

/-!
# Fr5080.Flash.LoadData

`flash_load_data` of `main.c`: it copies with word accesses if both addresses
are word addresses, and the bytes behind the last whole word, or all bytes, one
by one.

Addresses are those of the machine, 32 bits that wrap.  A word access to an
address that is not a multiple of four faults.
-/

namespace Fr5080

open Embedded

/-- The memory; `written` are the addresses that have been written, a history variable. -/
structure LoadMem where
  cells : UInt32 → UInt8
  written : List UInt32

/-- One access that moves `n` bytes: they are all read before they are written. -/
def LoadMem.move (n : Nat) (dst src : UInt32) (m : LoadMem) : LoadMem where
  cells a := if (a - dst).toNat < n then m.cells (src + (a - dst)) else m.cells a
  written := m.written ++ (List.range n).map fun i => dst + UInt32.ofNat i

/-- A loop of `count` accesses of `n` bytes, `*dst++ = *src++`: the memory and the two
pointers. -/
def loadLoop (n : Nat) :
    Nat → UInt32 → UInt32 → LoadMem → Option (LoadMem × UInt32 × UInt32)
  | 0, dst, src, m => some (m, dst, src)
  | count + 1, dst, src, m =>
      if dst.toNat % n = 0 ∧ src.toNat % n = 0 then
        loadLoop n count (dst + UInt32.ofNat n) (src + UInt32.ofNat n) (m.move n dst src)
      else none

/-- `flash_load_data`; `none` is a fault. -/
def flashLoadData (dst src length : UInt32) (m : LoadMem) : Option LoadMem :=
  if (dst ||| src) &&& 0x03 = 0 then
    let transLength := length >>> 2
    match loadLoop 4 transLength.toNat dst src m with
    | none => none
    | some (m, ptrDst, ptrSrc) =>
        let length := length - (transLength <<< 2)
        (loadLoop 1 length.toNat ptrDst ptrSrc m).map Prod.fst
  else (loadLoop 1 length.toNat dst src m).map Prod.fst

/-- The two ranges have no address in common. -/
def Apart (dst src length : UInt32) : Prop :=
  ∀ i < length, ∀ j < length, dst + i ≠ src + j

/-- The first `k` bytes have been copied, and nothing else written. -/
structure Loaded (dst src : UInt32) (k : Nat) (m m' : LoadMem) : Prop where
  cells : ∀ a, m'.cells a = if (a - dst).toNat < k then m.cells (src + (a - dst)) else m.cells a
  written : m'.written = m.written ++ (List.range k).map fun i => dst + UInt32.ofNat i

/-- What `memcpy` is for: the bytes are there, and nothing outside is written. -/
structure CopiedLikeMemcpy (dst src length : UInt32) (m m' : LoadMem) : Prop where
  copied : ∀ i < length, m'.cells (dst + i) = m.cells (src + i)
  kept : ∀ a, (∀ i < length, a ≠ dst + i) → m'.cells a = m.cells a
  inside : ∃ addrs, m'.written = m.written ++ addrs ∧ ∀ a ∈ addrs, ∃ i < length, a = dst + i

variable {dst src length : UInt32} {m m' : LoadMem}

theorem Loaded.zero : Loaded dst src 0 m m := by
  constructor <;> simp

theorem toNat_count {k : Nat} (h : k ≤ length.toNat) : (UInt32.ofNat k).toNat = k := by
  have hlength := length.toNat_lt
  rw [UInt32.toNat_ofNat']
  omega

/-- The distance from a pointer that has moved on. -/
theorem toNat_sub_moved {a : UInt32} {k n : Nat} (h : k + n ≤ length.toNat) :
    (a - (dst + UInt32.ofNat k)).toNat < n ↔
      k ≤ (a - dst).toNat ∧ (a - dst).toNat < k + n := by
  have hlength := length.toNat_lt
  have ha := a.toNat_lt
  have hdst := dst.toNat_lt
  have hk : (UInt32.ofNat k).toNat = k := toNat_count (Nat.le_trans (Nat.le_add_right k n) h)
  simp only [UInt32.toNat_sub, UInt32.toNat_add, hk]
  omega

/-- The place in the source of a place in the destination. -/
theorem add_sub_moved (a : UInt32) (k : Nat) :
    src + UInt32.ofNat k + (a - (dst + UInt32.ofNat k)) = src + (a - dst) := by
  grind

/-- An access moves bytes that have not been written. -/
theorem Loaded.move (hapart : Apart dst src length) {k n : Nat} (hk : k + n ≤ length.toNat)
    (h : Loaded dst src k m m') :
    Loaded dst src (k + n) m
      (m'.move n (dst + UInt32.ofNat k) (src + UInt32.ofNat k)) := by
  constructor
  · intro a
    simp only [LoadMem.move, toNat_sub_moved hk, add_sub_moved]
    by_cases hin : (a - dst).toNat < k + n
    · rw [if_pos hin]
      split
      · -- the source of a byte is not behind `dst`
        have hfar : ¬ (src + (a - dst) - dst).toNat < k := by
          intro hlt
          refine hapart (src + (a - dst) - dst) ?_ (a - dst) ?_ ?_
          · exact UInt32.lt_iff_toNat_lt.mpr (by omega)
          · exact UInt32.lt_iff_toNat_lt.mpr (by omega)
          · grind
        rw [h.cells, if_neg hfar]
      · next hnot =>
          have hlt : (a - dst).toNat < k := by omega
          rw [h.cells, if_pos hlt]
    · have hnot : ¬ (a - dst).toNat < k := by omega
      have hout : ¬ (k ≤ (a - dst).toNat ∧ (a - dst).toNat < k + n) := fun hin' => hin hin'.2
      rw [if_neg hin, if_neg hout, h.cells, if_neg hnot]
  · have hadd : ∀ i, dst + UInt32.ofNat k + UInt32.ofNat i = dst + UInt32.ofNat (k + i) := by
      intro i
      rw [UInt32.ofNat_add, UInt32.add_assoc]
    simp only [LoadMem.move, h.written, List.range_add, List.map_append, List.map_map,
      List.append_assoc, hadd, Function.comp_def]

/-- A loop of aligned accesses goes on with the copy. -/
theorem Loaded.loop (hapart : Apart dst src length) {k n count : Nat}
    (hk : k + n * count ≤ length.toNat)
    (halign : ∀ i, (dst + UInt32.ofNat (k + n * i)).toNat % n = 0 ∧
      (src + UInt32.ofNat (k + n * i)).toNat % n = 0)
    (h : Loaded dst src k m m') :
    ∃ m'', loadLoop n count (dst + UInt32.ofNat k) (src + UInt32.ofNat k) m' =
        some (m'', dst + UInt32.ofNat (k + n * count), src + UInt32.ofNat (k + n * count)) ∧
      Loaded dst src (k + n * count) m m'' := by
  induction count generalizing k m' with
  | zero => exact ⟨m', rfl, h⟩
  | succ count ih =>
      have hhere : (dst + UInt32.ofNat k).toNat % n = 0 ∧ (src + UInt32.ofNat k).toNat % n = 0 :=
        halign 0
      have hsucc : ∀ i, k + n * (i + 1) = k + n + n * i := by
        intro i
        rw [Nat.mul_succ, Nat.add_comm (n * i), ← Nat.add_assoc]
      rw [hsucc] at hk ⊢
      have hnext := h.move hapart (Nat.le_trans (Nat.le_add_right (k + n) (n * count)) hk)
      obtain ⟨m'', hloop, hloaded⟩ := ih hk (fun i => hsucc i ▸ halign (i + 1)) hnext
      refine ⟨m'', ?_, hloaded⟩
      rw [loadLoop, if_pos hhere, UInt32.add_assoc, UInt32.add_assoc, ← UInt32.ofNat_add]
      exact hloop

/-- The bytes behind the last whole word. -/
theorem toNat_tail (length : UInt32) :
    (length - (length >>> 2) <<< 2).toNat = length.toNat % 4 := by
  have hlength := length.toNat_lt
  have hwords : ((length >>> 2) <<< 2).toNat = length.toNat / 4 * 4 := by
    rw [UInt32.toNat_shiftLeft, UInt32.toNat_shiftRight]
    simp [Nat.shiftRight_eq_div_pow, Nat.shiftLeft_eq]
    omega
  rw [UInt32.toNat_sub, hwords]
  omega

/-- Both pointers are word addresses if the word path is taken, and stay so. -/
theorem toNat_add_word_mod {a b : UInt32} (h : (a ||| b) &&& 0x03 = 0) (i : Nat) :
    (a + UInt32.ofNat (0 + 4 * i)).toNat % 4 = 0 ∧
      (b + UInt32.ofNat (0 + 4 * i)).toNat % 4 = 0 := by
  have hmod : (a.toNat ||| b.toNat) % 2 ^ 2 = 0 := by
    rw [← Nat.and_two_pow_sub_one_eq_mod, ← UInt32.toNat_or]
    exact congrArg UInt32.toNat h
  rw [Nat.or_mod_two_pow, Nat.or_eq_zero_iff] at hmod
  simp only [UInt32.toNat_add, UInt32.toNat_ofNat']
  omega

/-- All bytes are loaded. -/
theorem loaded_flashLoadData (hapart : Apart dst src length) (m : LoadMem) :
    ∃ m', flashLoadData dst src length m = some m' ∧ Loaded dst src length.toNat m m' := by
  have hzero : ∀ p : UInt32, p + UInt32.ofNat 0 = p := fun p => UInt32.add_zero p
  rw [flashLoadData]
  split
  · next haligned =>
      have hwords : (length >>> 2).toNat = length.toNat / 4 := by
        rw [UInt32.toNat_shiftRight]
        exact Nat.shiftRight_eq_div_pow _ _
      have hsum : 0 + 4 * (length.toNat / 4) + 1 * (length.toNat % 4) = length.toNat := by omega
      obtain ⟨m1, hloop1, hloaded1⟩ := (@Loaded.zero dst src m).loop hapart
        (by omega : 0 + 4 * (length.toNat / 4) ≤ length.toNat) (toNat_add_word_mod haligned)
      obtain ⟨m2, hloop2, hloaded2⟩ := hloaded1.loop hapart (Nat.le_of_eq hsum)
        (fun i => ⟨Nat.mod_one _, Nat.mod_one _⟩)
      rw [hzero, hzero] at hloop1
      rw [hsum] at hloaded2
      simp only [hwords, toNat_tail, hloop1, hloop2]
      exact ⟨m2, rfl, hloaded2⟩
  · obtain ⟨m1, hloop, hloaded⟩ := (@Loaded.zero dst src m).loop hapart
      (by omega : 0 + 1 * length.toNat ≤ length.toNat)
      (fun i => ⟨Nat.mod_one _, Nat.mod_one _⟩)
    rw [hzero, hzero, Nat.zero_add, Nat.one_mul] at hloop
    rw [Nat.zero_add, Nat.one_mul] at hloaded
    rw [hloop]
    exact ⟨m1, rfl, hloaded⟩

/-- A place in the destination is found from its address. -/
theorem toNat_add_sub (i : UInt32) : (dst + i - dst).toNat = i.toNat := by
  rw [UInt32.add_comm, UInt32.add_sub_cancel]

/-- `flash_load_data` returns, and agrees with `memcpy`. -/
theorem flash_load_data_copies (hapart : Apart dst src length) (m : LoadMem) :
    ∃ m', flashLoadData dst src length m = some m' ∧ CopiedLikeMemcpy dst src length m m' := by
  obtain ⟨m', hload, hloaded⟩ := loaded_flashLoadData hapart m
  refine ⟨m', hload, ?_, ?_, ?_⟩
  · intro i hi
    have hlt : (dst + i - dst).toNat < length.toNat := by
      rw [toNat_add_sub]
      exact UInt32.lt_iff_toNat_lt.mp hi
    rw [hloaded.cells, if_pos hlt, UInt32.add_comm dst, UInt32.add_sub_cancel]
  · intro a hout
    have hfar : ¬ (a - dst).toNat < length.toNat := by
      intro hlt
      refine hout (a - dst) (UInt32.lt_iff_toNat_lt.mpr hlt) ?_
      rw [UInt32.add_comm, UInt32.sub_add_cancel]
    rw [hloaded.cells, if_neg hfar]
  · refine ⟨_, hloaded.written, ?_⟩
    intro a ha
    obtain ⟨k, hk, rfl⟩ := List.mem_map.mp ha
    have hklt := List.mem_range.mp hk
    refine ⟨UInt32.ofNat k, ?_, rfl⟩
    rw [UInt32.lt_iff_toNat_lt, toNat_count (Nat.le_of_lt hklt)]
    exact hklt

/-- Seven bytes, from one word address to another. -/
theorem flash_load_data_copies_seven :
    ∃ m', flashLoadData 0x100 0x200 7 ⟨fun a => a.toUInt8, []⟩ = some m' ∧
      CopiedLikeMemcpy 0x100 0x200 7 ⟨fun a => a.toUInt8, []⟩ m' :=
  flash_load_data_copies
    (fun i hi j hj => by
      have hi7 : i.toNat < 7 := UInt32.lt_iff_toNat_lt.mp hi
      have hj7 : j.toNat < 7 := UInt32.lt_iff_toNat_lt.mp hj
      intro heq
      have h := congrArg UInt32.toNat heq
      simp only [UInt32.toNat_add] at h
      simp at h
      omega) _

end Fr5080
