import Mathlib.Algebra.Ring.Int.Defs
import Fr5080.Embedded.Mem

/-!
# Embedded.Word

Words in a flat memory of bytes, lowest byte first: `word16` and `word32` read a word,
`bytes16` and `bytes32` are the bytes that a word is stored as.
-/

namespace Embedded

/-- A 16-bit word in memory. -/
def word16 (m : Nat → UInt8) (off : Nat) : UInt16 :=
  UInt16.ofNat ((m off).toNat + (m (off + 1)).toNat * 2 ^ 8)

/-- The bytes of a 16-bit word, lowest byte first. -/
def bytes16 (v : UInt16) : List UInt8 := [v.toUInt8, (v >>> 8).toUInt8]

/-- The 32-bit word at `off`, lowest byte first. -/
def word32 (m : Nat → UInt8) (off : Nat) : UInt32 :=
  UInt32.ofNat ((m off).toNat + (m (off + 1)).toNat * 2 ^ 8 + (m (off + 2)).toNat * 2 ^ 16 +
    (m (off + 3)).toNat * 2 ^ 24)

/-- The bytes of a 32-bit word, lowest byte first. -/
def bytes32 (v : UInt32) : List UInt8 :=
  [v.toUInt8, (v >>> 8).toUInt8, (v >>> 16).toUInt8, (v >>> 24).toUInt8]

@[simp] theorem length_bytes16 (v : UInt16) : (bytes16 v).length = 2 := rfl

@[simp] theorem length_bytes32 (v : UInt32) : (bytes32 v).length = 4 := rfl

theorem word32_congr {m m' : Nat → UInt8} {a a' : Nat} (h : ∀ i < 4, m (a + i) = m' (a' + i)) :
    word32 m a = word32 m' a' := by
  have h0 := h 0 (by decide)
  rw [Nat.add_zero, Nat.add_zero] at h0
  rw [word32, word32, h0, h 1 (by decide), h 2 (by decide), h 3 (by decide)]

/-- A 16-bit word at the front of a store is read as it was written. -/
theorem word16_store_bytes16 (m : Nat → UInt8) (off : Nat) (ys : List UInt8) (v : UInt16) :
    word16 (store m off (bytes16 v ++ ys)) off = v := by
  have hlen : (bytes16 v ++ ys).length = 2 + ys.length := by
    rw [List.length_append, length_bytes16]
  have h0 := store_add m off (bytes16 v ++ ys) 0 (by rw [hlen]; omega)
  have h1 := store_add m off (bytes16 v ++ ys) 1 (by rw [hlen]; omega)
  rw [Nat.add_zero] at h0
  rw [word16, h0, h1, ← UInt16.toNat_inj]
  have hlt := v.toNat_lt
  simp [bytes16, Nat.shiftRight_eq_div_pow]
  omega

/-- A word is read as it was written. -/
theorem word32_store_bytes32 (m : Nat → UInt8) (off : Nat) (xs ys : List UInt8) (v : UInt32) :
    word32 (store m off (xs ++ (bytes32 v ++ ys))) (off + xs.length) = v := by
  have hbyte : ∀ i < 4, ∀ b, (bytes32 v)[i]? = some b →
      store m off (xs ++ (bytes32 v ++ ys)) (off + xs.length + i) = b := by
    intro i hi b hb
    have hlt : i < (bytes32 v).length := hi
    rw [Nat.add_assoc, store_add _ _ _ _ (by simp; omega), List.getElem_append_right (by omega)]
    simp only [Nat.add_sub_cancel_left, List.getElem_append_left hlt]
    exact Option.some.inj ((List.getElem?_eq_getElem hlt).symm.trans hb)
  have hzero := hbyte 0 (by decide) _ rfl
  rw [Nat.add_zero] at hzero
  rw [word32, hzero, hbyte 1 (by decide) _ rfl, hbyte 2 (by decide) _ rfl,
    hbyte 3 (by decide) _ rfl, ← UInt32.toNat_inj]
  have hlt := v.toNat_lt
  simp [Nat.shiftRight_eq_div_pow]
  omega

/-- A mask of all bits from `k` on cuts an address down to a multiple of `2 ^ k`. -/
theorem toNat_and_highMask {k : Nat} {mask : UInt32}
    (hmask : ∀ i (hi : i < 32), mask.toBitVec[i] = decide (k ≤ i)) (v : UInt32) :
    (v &&& mask).toNat = v.toNat / 2 ^ k * 2 ^ k := by
  have hshift : v.toBitVec &&& mask.toBitVec = v.toBitVec >>> k <<< k := by
    ext i hi
    rw [BitVec.getElem_and, hmask i hi]
    by_cases hk : i < k
    · simp [hk]
    · simp [hk, Nat.not_lt.mp hk, BitVec.getLsbD_eq_getElem hi]
  have hlt : v.toNat / 2 ^ k * 2 ^ k < 2 ^ 32 :=
    Nat.lt_of_le_of_lt (Nat.div_mul_le_self _ _) v.toNat_lt
  rw [← UInt32.toNat_toBitVec, UInt32.toBitVec_and, hshift, BitVec.toNat_shiftLeft,
    BitVec.toNat_ushiftRight, UInt32.toNat_toBitVec, Nat.shiftRight_eq_div_pow,
    Nat.shiftLeft_eq, Nat.mod_eq_of_lt hlt]

/-- A number that is converted to `uint32_t`. -/
theorem toNat_ofInt (x : Int) : (UInt32.ofInt x).toNat = (x % 2 ^ 32).toNat := by
  simp [UInt32.ofInt]
  omega

/-- The number of words in a number of bytes, as `x >> 2` gives it. -/
theorem toNat_ofInt_words (x : Int) :
    (UInt32.ofInt (x >>> (2 : Nat))).toNat = (x / 4 % 2 ^ 32).toNat := by
  rw [toNat_ofInt, Int.shiftRight_eq_div_pow]
  rfl

end Embedded
