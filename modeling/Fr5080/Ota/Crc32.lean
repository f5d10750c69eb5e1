import Mathlib.Tactic.NormNum.Prime
import Fr5080.Embedded.Crc
import Fr5080.Ota.Erase

/-!
# Fr5080.Ota.Crc32

The checksum of the OTA service: `crc32.c`, and the request to check it.

`crc32` takes eight bytes in a round and looks each one up in a table; it computes the remainder
of the message (`crc32_eq_remainder`).  The service starts it with `0xffffffff`, that is with a
register that is zero, so its answer tells whether the two messages are the same polynomial modulo
that of the check (`otaCheckCrc_ok_iff`): a change of the image within 32 bits, or of one or two
bits anywhere, is found (`otaCheckCrc_error`), zero bytes in front of it are not.
-/

namespace Fr5080

open Embedded Polynomial

/-! ## the code -/

/-- `crc_table`. -/
def crcTable : List UInt32 := [
  0x00000000, 0x77073096, 0xee0e612c, 0x990951ba, 0x076dc419, 0x706af48f, 0xe963a535,
  0x9e6495a3, 0x0edb8832, 0x79dcb8a4, 0xe0d5e91e, 0x97d2d988, 0x09b64c2b, 0x7eb17cbd,
  0xe7b82d07, 0x90bf1d91, 0x1db71064, 0x6ab020f2, 0xf3b97148, 0x84be41de, 0x1adad47d,
  0x6ddde4eb, 0xf4d4b551, 0x83d385c7, 0x136c9856, 0x646ba8c0, 0xfd62f97a, 0x8a65c9ec,
  0x14015c4f, 0x63066cd9, 0xfa0f3d63, 0x8d080df5, 0x3b6e20c8, 0x4c69105e, 0xd56041e4,
  0xa2677172, 0x3c03e4d1, 0x4b04d447, 0xd20d85fd, 0xa50ab56b, 0x35b5a8fa, 0x42b2986c,
  0xdbbbc9d6, 0xacbcf940, 0x32d86ce3, 0x45df5c75, 0xdcd60dcf, 0xabd13d59, 0x26d930ac,
  0x51de003a, 0xc8d75180, 0xbfd06116, 0x21b4f4b5, 0x56b3c423, 0xcfba9599, 0xb8bda50f,
  0x2802b89e, 0x5f058808, 0xc60cd9b2, 0xb10be924, 0x2f6f7c87, 0x58684c11, 0xc1611dab,
  0xb6662d3d, 0x76dc4190, 0x01db7106, 0x98d220bc, 0xefd5102a, 0x71b18589, 0x06b6b51f,
  0x9fbfe4a5, 0xe8b8d433, 0x7807c9a2, 0x0f00f934, 0x9609a88e, 0xe10e9818, 0x7f6a0dbb,
  0x086d3d2d, 0x91646c97, 0xe6635c01, 0x6b6b51f4, 0x1c6c6162, 0x856530d8, 0xf262004e,
  0x6c0695ed, 0x1b01a57b, 0x8208f4c1, 0xf50fc457, 0x65b0d9c6, 0x12b7e950, 0x8bbeb8ea,
  0xfcb9887c, 0x62dd1ddf, 0x15da2d49, 0x8cd37cf3, 0xfbd44c65, 0x4db26158, 0x3ab551ce,
  0xa3bc0074, 0xd4bb30e2, 0x4adfa541, 0x3dd895d7, 0xa4d1c46d, 0xd3d6f4fb, 0x4369e96a,
  0x346ed9fc, 0xad678846, 0xda60b8d0, 0x44042d73, 0x33031de5, 0xaa0a4c5f, 0xdd0d7cc9,
  0x5005713c, 0x270241aa, 0xbe0b1010, 0xc90c2086, 0x5768b525, 0x206f85b3, 0xb966d409,
  0xce61e49f, 0x5edef90e, 0x29d9c998, 0xb0d09822, 0xc7d7a8b4, 0x59b33d17, 0x2eb40d81,
  0xb7bd5c3b, 0xc0ba6cad, 0xedb88320, 0x9abfb3b6, 0x03b6e20c, 0x74b1d29a, 0xead54739,
  0x9dd277af, 0x04db2615, 0x73dc1683, 0xe3630b12, 0x94643b84, 0x0d6d6a3e, 0x7a6a5aa8,
  0xe40ecf0b, 0x9309ff9d, 0x0a00ae27, 0x7d079eb1, 0xf00f9344, 0x8708a3d2, 0x1e01f268,
  0x6906c2fe, 0xf762575d, 0x806567cb, 0x196c3671, 0x6e6b06e7, 0xfed41b76, 0x89d32be0,
  0x10da7a5a, 0x67dd4acc, 0xf9b9df6f, 0x8ebeeff9, 0x17b7be43, 0x60b08ed5, 0xd6d6a3e8,
  0xa1d1937e, 0x38d8c2c4, 0x4fdff252, 0xd1bb67f1, 0xa6bc5767, 0x3fb506dd, 0x48b2364b,
  0xd80d2bda, 0xaf0a1b4c, 0x36034af6, 0x41047a60, 0xdf60efc3, 0xa867df55, 0x316e8eef,
  0x4669be79, 0xcb61b38c, 0xbc66831a, 0x256fd2a0, 0x5268e236, 0xcc0c7795, 0xbb0b4703,
  0x220216b9, 0x5505262f, 0xc5ba3bbe, 0xb2bd0b28, 0x2bb45a92, 0x5cb36a04, 0xc2d7ffa7,
  0xb5d0cf31, 0x2cd99e8b, 0x5bdeae1d, 0x9b64c2b0, 0xec63f226, 0x756aa39c, 0x026d930a,
  0x9c0906a9, 0xeb0e363f, 0x72076785, 0x05005713, 0x95bf4a82, 0xe2b87a14, 0x7bb12bae,
  0x0cb61b38, 0x92d28e9b, 0xe5d5be0d, 0x7cdcefb7, 0x0bdbdf21, 0x86d3d2d4, 0xf1d4e242,
  0x68ddb3f8, 0x1fda836e, 0x81be16cd, 0xf6b9265b, 0x6fb077e1, 0x18b74777, 0x88085ae6,
  0xff0f6a70, 0x66063bca, 0x11010b5c, 0x8f659eff, 0xf862ae69, 0x616bffd3, 0x166ccf45,
  0xa00ae278, 0xd70dd2ee, 0x4e048354, 0x3903b3c2, 0xa7672661, 0xd06016f7, 0x4969474d,
  0x3e6e77db, 0xaed16a4a, 0xd9d65adc, 0x40df0b66, 0x37d83bf0, 0xa9bcae53, 0xdebb9ec5,
  0x47b2cf7f, 0x30b5ffe9, 0xbdbdf21c, 0xcabac28a, 0x53b39330, 0x24b4a3a6, 0xbad03605,
  0xcdd70693, 0x54de5729, 0x23d967bf, 0xb3667a2e, 0xc4614ab8, 0x5d681b02, 0x2a6f2b94,
  0xb40bbe37, 0xc30c8ea1, 0x5a05df1b, 0x2d02ef8d]

/-- `poly` of `make_crc_table`, from the terms of the polynomial. -/
def crcTablePoly : UInt32 :=
  ([0, 1, 2, 4, 5, 7, 8, 10, 11, 12, 16, 22, 23, 26] : List UInt32).foldl
    (fun poly p => poly ||| (1 : UInt32) <<< (31 - p)) 0

/-- The inner loop of `make_crc_table`. -/
def makeCrcEntry : Nat → UInt32 → UInt32
  | 0, c => c
  | k + 1, c => makeCrcEntry k (if c &&& 1 ≠ 0 then crcTablePoly ^^^ (c >>> 1) else c >>> 1)

/-- `make_crc_table`. -/
def makeCrcTable : List UInt32 := (List.range 256).map fun n => makeCrcEntry 8 (UInt32.ofNat n)

/-- `DO1`. -/
def crcDo1 (crc : UInt32) (b : UInt8) : UInt32 :=
  crcTable.getD ((crc ^^^ b.toUInt32) &&& 0xff).toNat 0 ^^^ (crc >>> 8)

/-- `DO2`. -/
def crcDo2 (crc : UInt32) (b0 b1 : UInt8) : UInt32 := crcDo1 (crcDo1 crc b0) b1

/-- `DO4`. -/
def crcDo4 (crc : UInt32) (b0 b1 b2 b3 : UInt8) : UInt32 := crcDo2 (crcDo2 crc b0 b1) b2 b3

/-- `DO8`. -/
def crcDo8 (crc : UInt32) (b0 b1 b2 b3 b4 b5 b6 b7 : UInt8) : UInt32 :=
  crcDo4 (crcDo4 crc b0 b1 b2 b3) b4 b5 b6 b7

/-- `while (len >= 8)`, and what is left of the buffer. -/
def crc32Rounds : UInt32 → List UInt8 → UInt32 × List UInt8
  | crc, b0 :: b1 :: b2 :: b3 :: b4 :: b5 :: b6 :: b7 :: buf =>
      crc32Rounds (crcDo8 crc b0 b1 b2 b3 b4 b5 b6 b7) buf
  | crc, buf => (crc, buf)

/-- `if (len) do ... while (--len)`. -/
def crc32Rest : UInt32 → List UInt8 → UInt32
  | crc, [] => crc
  | crc, b :: buf => crc32Rest (crcDo1 crc b) buf

/-- `crc32`; the buffer is `none` for `Z_NULL`. -/
def crc32 (crc : UInt32) : Option (List UInt8) → UInt32
  | none => 0
  | some buf =>
      let (crc, buf) := crc32Rounds (crc ^^^ 0xffffffff) buf
      crc32Rest crc buf ^^^ 0xffffffff

/-! ## the table -/

/-- The table in the source is the one that `make_crc_table` makes. -/
theorem crcTable_eq : crcTable = makeCrcTable := by
  decide +kernel

/-! ## bits -/

/-- The bits of a byte, lowest first. -/
def byteBits (b : UInt8) : List Bool := (List.range 8).map b.toBitVec.getLsbD

/-- The bits of a message. -/
def messageBits (buf : List UInt8) : List Bool := buf.flatMap byteBits

@[simp] theorem messageBits_nil : messageBits [] = [] := rfl

@[simp] theorem messageBits_cons (b : UInt8) (buf : List UInt8) :
    messageBits (b :: buf) = byteBits b ++ messageBits buf := rfl

@[simp] theorem length_messageBits (buf : List UInt8) :
    (messageBits buf).length = 8 * buf.length := by
  induction buf with
  | nil => rfl
  | cons b buf ih =>
      rw [messageBits_cons, List.length_append, ih, List.length_cons]
      simp only [byteBits, List.length_map, List.length_range]
      omega

/-- The polynomial of the check, lowest power first and without the highest one. -/
def crcPoly : BitVec 32 := 0xEDB88320#32

/-- The constant coefficient of the polynomial is 1. -/
theorem crcPoly_msb : crcPoly.getMsbD 0 = true := by decide

/-- What is looked up for a byte is what becomes of it in the register. -/
theorem toBitVec_crcTable (n : Nat) (hn : n < 256) : (crcTable.getD n 0).toBitVec =
    crcBits crcPoly 0#32 ((List.range 8).map (BitVec.ofNat 8 n).getLsbD) := by
  have hall : ∀ n < 256, (crcTable.getD n 0).toBitVec =
      crcBits crcPoly 0#32 ((List.range 8).map (BitVec.ofNat 8 n).getLsbD) := by
    decide +kernel
  exact hall n hn

/-- A byte is looked up. -/
theorem toBitVec_crcDo1 (crc : UInt32) (b : UInt8) :
    (crcDo1 crc b).toBitVec = crcBits crcPoly crc.toBitVec (byteBits b) := by
  have hmask : ((crc ^^^ b.toUInt32) &&& 0xff).toNat = (crc ^^^ b.toUInt32).toNat % 2 ^ 8 := by
    rw [UInt32.toNat_and]
    exact Nat.and_two_pow_sub_one_eq_mod _ 8
  have hindex : (List.range 8).map
      (BitVec.ofNat 8 ((crc ^^^ b.toUInt32) &&& 0xff).toNat).getLsbD =
      (List.range 8).map fun i => crc.toBitVec.getLsbD i ^^ b.toBitVec.getLsbD i := by
    refine List.map_congr_left fun i hi => ?_
    have hi := List.mem_range.mp hi
    rw [hmask, BitVec.getLsbD_ofNat, Nat.testBit_mod_two_pow, ← UInt32.toNat_toBitVec,
      BitVec.testBit_toNat]
    have hi' : i < 32 := by omega
    simp [hi, hi']
  have hlt : ((crc ^^^ b.toUInt32) &&& 0xff).toNat < 256 := by
    rw [hmask]
    exact Nat.mod_lt _ (by decide)
  have hlookup := @crcBits_table 32 crcPoly crc.toBitVec (by decide) 8 b.toBitVec.getLsbD
  rw [crcDo1, UInt32.toBitVec_xor, toBitVec_crcTable _ hlt, hindex, byteBits, hlookup]
  rfl

/-! ## the rounds -/

/-- The second loop takes one byte a round. -/
theorem crc32Rest_eq (crc : UInt32) (buf : List UInt8) :
    crc32Rest crc buf = buf.foldl crcDo1 crc := by
  induction buf generalizing crc with
  | nil => rfl
  | cons b buf ih => rw [crc32Rest, ih, List.foldl_cons]

/-- The first loop takes eight. -/
theorem crc32Rounds_eq (crc : UInt32) (buf : List UInt8) :
    (crc32Rounds crc buf).2.foldl crcDo1 (crc32Rounds crc buf).1 = buf.foldl crcDo1 crc := by
  induction crc, buf using crc32Rounds.induct with
  | case1 crc b0 b1 b2 b3 b4 b5 b6 b7 buf ih =>
      simp only [crcDo8, crcDo4, crcDo2] at ih
      simp only [crc32Rounds, ih, List.foldl_cons, crcDo8, crcDo4, crcDo2]
  | case2 crc buf hshort => rw [crc32Rounds]; exact hshort

/-- The rounds of eight bytes are those of one. -/
theorem crc32_some (crc : UInt32) (buf : List UInt8) :
    crc32 crc (some buf) = buf.foldl crcDo1 (crc ^^^ 0xffffffff) ^^^ 0xffffffff := by
  rw [← crc32Rounds_eq, ← crc32Rest_eq]
  rfl

/-- The table is the register, bit by bit. -/
theorem toBitVec_foldl_crcDo1 (crc : UInt32) (buf : List UInt8) :
    (buf.foldl crcDo1 crc).toBitVec = crcBits crcPoly crc.toBitVec (messageBits buf) := by
  induction buf generalizing crc with
  | nil => rfl
  | cons b buf ih =>
      rw [List.foldl_cons, ih, toBitVec_crcDo1, messageBits_cons, crcBits_append]

theorem toBitVec_xor_ones (crc : UInt32) : (crc ^^^ 0xffffffff).toBitVec = ~~~ crc.toBitVec := by
  rw [UInt32.toBitVec_xor]
  exact BitVec.xor_allOnes

/-- The checksum is that of the register, bit by bit. -/
theorem toBitVec_crc32 (crc : UInt32) (buf : List UInt8) :
    (crc32 crc (some buf)).toBitVec = ~~~ crcBits crcPoly (~~~ crc.toBitVec) (messageBits buf) := by
  rw [crc32_some, toBitVec_xor_ones, toBitVec_foldl_crcDo1, toBitVec_xor_ones]

/-! ## the remainder -/

/-- The polynomial in the comment of `crc32.c`. -/
theorem crcModulus_crcPoly : crcModulus crcPoly =
    X ^ 32 + X ^ 26 + X ^ 23 + X ^ 22 + X ^ 16 + X ^ 12 + X ^ 11 + X ^ 10 + X ^ 8 + X ^ 7 + X ^ 5 +
      X ^ 4 + X ^ 2 + X + 1 := by
  have hbits : regBits crcPoly = [false, false, false, false, false, true, false, false, true,
      true, false, false, false, false, false, true, false, false, false, true, true, true, false,
      true, true, false, true, true, false, true, true, true] := by decide
  rw [crcModulus, regPoly, hbits]
  simp
  ring

/-- **`crc32` computes the remainder**: up to the complement in front and behind, its result is
the message times `X ^ 32`, with the start value in front, modulo the polynomial. -/
theorem crc32_eq_remainder (crc : UInt32) (buf : List UInt8) :
    regPoly (~~~ (crc32 crc (some buf)).toBitVec) =
      (X ^ (8 * buf.length) * regPoly (~~~ crc.toBitVec) + bitsPoly (messageBits buf) * X ^ 32) %ₘ
        (X ^ 32 + X ^ 26 + X ^ 23 + X ^ 22 + X ^ 16 + X ^ 12 + X ^ 11 + X ^ 10 + X ^ 8 + X ^ 7 +
          X ^ 5 + X ^ 4 + X ^ 2 + X + 1) := by
  rw [toBitVec_crc32, BitVec.not_not, regPoly_crcBits (by decide), length_messageBits,
    crcModulus_crcPoly]

/-! ## the request to check -/

/-- The primes of `2 ^ 32 - 1`. -/
theorem prime_dvd_order {p : Nat} (hp : p.Prime) (hdvd : p ∣ 4294967295) :
    p ∈ [3, 5, 17, 257, 65537] := by
  have hfactors : 4294967295 = 3 * (5 * (17 * (257 * 65537))) := by norm_num
  rw [hfactors, hp.dvd_mul, hp.dvd_mul, hp.dvd_mul, hp.dvd_mul,
    Nat.prime_dvd_prime_iff_eq hp (by norm_num), Nat.prime_dvd_prime_iff_eq hp (by norm_num),
    Nat.prime_dvd_prime_iff_eq hp (by norm_num), Nat.prime_dvd_prime_iff_eq hp (by norm_num),
    Nat.prime_dvd_prime_iff_eq hp (by norm_num)] at hdvd
  simpa using hdvd

/-- `X` has the order that no polynomial of that degree exceeds. -/
theorem orderOf_crcPoly : orderOf (crcRoot crcPoly) = 4294967295 := by
  have hfactor : ∀ q ∈ [3, 5, 17, 257, 65537],
      (crcPow crcPoly 32 (4294967295 / q) == crcOne 32) = false := by decide +kernel
  refine orderOf_crcRoot (k := 32) (by decide) (by decide) (by decide) (by decide +kernel)
    fun p hp hdvd heq => ?_
  have := hfactor p (prime_dvd_order hp hdvd)
  rw [heq, beq_self_eq_true] at this
  cases this

section CheckCrc

variable {chip : FlashChip} {regs : Nat → UInt32} {localFlashOp chn : Nat} {s : OtaSys}
  {image data : List UInt8}

/-- The service with the checksum of `crc32.c`. -/
def otaRecvIpcMsgCrc (chip : FlashChip) (regs : Nat → UInt32) (localFlashOp chn : Nat)
    (s : OtaSys) : OtaSys :=
  otaRecvIpcMsg chip regs (fun crc buf => crc32 crc (some buf)) localFlashOp chn s

/-- What the request to check reads. -/
def checkedData (chip : FlashChip) (chn : Nat) (s : OtaSys) : List UInt8 :=
  let buffer := ipcGetBufferOffset .mcu2dsp chn
  flashRead chip (word32 s.ipc.shm (buffer + 8)) (word32 s.ipc.shm (buffer + 4)).toNat s.flash

/-- The reply to it. -/
def checkReply (localFlashOp chn : Nat) (status : IpcMsgFlashStatus) (s : OtaSys) : OtaSys :=
  let buffer := ipcGetBufferOffset .mcu2dsp chn
  let length := word32 s.ipc.shm (buffer + 4)
  let offset := word32 s.ipc.shm (buffer + 8)
  { s with ipc := otaReply localFlashOp .checkCrcAck status length offset s.ipc }

/-- From the start value `0xffffffff` the register is zero. -/
theorem crc32_ones_inj : crc32 0xffffffff (some data) = crc32 0xffffffff (some image) ↔
    crcMk crcPoly (bitsPoly (messageBits data)) = crcMk crcPoly (bitsPoly (messageBits image)) := by
  have hzero : ~~~ (0xffffffff : UInt32).toBitVec = 0#32 := by decide
  rw [← UInt32.toBitVec_inj, toBitVec_crc32, toBitVec_crc32, BitVec.not_inj, hzero,
    ← @crcClass_inj 32 crcPoly, crcClass_crcBits (by decide), crcClass_crcBits (by decide),
    crcClass_zero, mul_zero, zero_add, mul_zero, zero_add,
    ((isUnit_crcRoot crcPoly_msb).pow _).mul_left_inj]

/-- Equal checksums: the difference of the messages is a multiple of the polynomial. -/
theorem crc32_ones_dvd : crc32 0xffffffff (some data) = crc32 0xffffffff (some image) ↔
    X ^ 32 + X ^ 26 + X ^ 23 + X ^ 22 + X ^ 16 + X ^ 12 + X ^ 11 + X ^ 10 + X ^ 8 + X ^ 7 + X ^ 5 +
      X ^ 4 + X ^ 2 + X + 1 ∣ bitsPoly (messageBits data) - bitsPoly (messageBits image) := by
  rw [← crcModulus_crcPoly]
  exact crc32_ones_inj.trans AdjoinRoot.mk_eq_mk

/-- The answer compares the two checksums. -/
theorem otaRecvIpcMsgCrc_eq
    (hopcode : s.ipc.shm (ipcGetBufferOffset .mcu2dsp chn) = IpcMsgFlashOpcode.checkCrc.code)
    (hp : word32 s.ipc.shm (ipcGetBufferOffset .mcu2dsp chn + 12) =
      crc32 0xffffffff (some image)) :
    otaRecvIpcMsgCrc chip regs localFlashOp chn s =
      checkReply localFlashOp chn
        (if crc32 0xffffffff (some (checkedData chip chn s)) = crc32 0xffffffff (some image)
          then .ok else .error) s := by
  simp only [otaRecvIpcMsgCrc, otaRecvIpcMsg, hopcode]
  rw [if_neg (by decide), if_neg (by decide), if_neg (by decide), if_neg (by decide),
    if_pos trivial, hp]
  rfl

/-- **What the check tells**: the answer to the checksum of an image is `IPC_MSG_FLASH_OK` exactly
where image and flash are the same polynomial modulo that of the check, be they equally long
or not. -/
theorem otaCheckCrc_ok_iff
    (hopcode : s.ipc.shm (ipcGetBufferOffset .mcu2dsp chn) = IpcMsgFlashOpcode.checkCrc.code)
    (hp : word32 s.ipc.shm (ipcGetBufferOffset .mcu2dsp chn + 12) =
      crc32 0xffffffff (some image)) :
    ∃ status, otaRecvIpcMsgCrc chip regs localFlashOp chn s =
        checkReply localFlashOp chn status s ∧
      (status = .ok ↔
        X ^ 32 + X ^ 26 + X ^ 23 + X ^ 22 + X ^ 16 + X ^ 12 + X ^ 11 + X ^ 10 + X ^ 8 + X ^ 7 +
            X ^ 5 + X ^ 4 + X ^ 2 + X + 1 ∣
          bitsPoly (messageBits (checkedData chip chn s)) - bitsPoly (messageBits image)) := by
  have hreply := @otaRecvIpcMsgCrc_eq chip regs localFlashOp chn s image hopcode hp
  have hdvd := @crc32_ones_dvd image (checkedData chip chn s)
  by_cases heq : crc32 0xffffffff (some (checkedData chip chn s)) = crc32 0xffffffff (some image)
  · rw [if_pos heq] at hreply
    exact ⟨.ok, hreply, iff_of_true rfl (hdvd.mp heq)⟩
  · rw [if_neg heq] at hreply
    exact ⟨.error, hreply, iff_of_false (by decide) fun h => heq (hdvd.mpr h)⟩

/-- The request to check the first four bytes of a blank chip, which should be `image`. -/
def OtaSys.checked (image : List UInt8) : OtaSys :=
  .received .checkCrc 4 0 (crc32 0xffffffff (some image)) .blank

theorem opcode_checked (image : List UInt8) :
    (OtaSys.checked image).ipc.shm (ipcGetBufferOffset .mcu2dsp 0) =
      IpcMsgFlashOpcode.checkCrc.code := by
  rw [OtaSys.checked, shm_received, opcode_otaRequest]

theorem p_checked (image : List UInt8) :
    word32 (OtaSys.checked image).ipc.shm (ipcGetBufferOffset .mcu2dsp 0 + 12) =
      crc32 0xffffffff (some image) := by
  rw [OtaSys.checked, shm_received, p_otaRequest]

theorem otaCheckCrc_ok_iff_blank :
    ∃ status, otaRecvIpcMsgCrc flashChip1M (fun _ => 0) 0 0 (.checked [0, 1, 2, 3]) =
        checkReply 0 0 status (.checked [0, 1, 2, 3]) ∧
      (status = .ok ↔
        X ^ 32 + X ^ 26 + X ^ 23 + X ^ 22 + X ^ 16 + X ^ 12 + X ^ 11 + X ^ 10 + X ^ 8 + X ^ 7 +
            X ^ 5 + X ^ 4 + X ^ 2 + X + 1 ∣
          bitsPoly (messageBits (checkedData flashChip1M 0 (.checked [0, 1, 2, 3]))) -
            bitsPoly (messageBits [0, 1, 2, 3])) :=
  otaCheckCrc_ok_iff (opcode_checked _) (p_checked _)

/-- **What the check finds**: where the flash has not the image, but something as long that
differs from it within 32 bits, or in one or two bits of less than half a gigabyte, the
answer is `IPC_MSG_FLASH_ERROR`. -/
theorem otaCheckCrc_error
    (hopcode : s.ipc.shm (ipcGetBufferOffset .mcu2dsp chn) = IpcMsgFlashOpcode.checkCrc.code)
    (hp : word32 s.ipc.shm (ipcGetBufferOffset .mcu2dsp chn + 12) =
      crc32 0xffffffff (some image))
    (hdiffer : (∃ u a b v, messageBits (checkedData chip chn s) = u ++ a ++ v ∧
        messageBits image = u ++ b ++ v ∧ a.length = b.length ∧ a.length ≤ 32 ∧ a ≠ b) ∨
      ((checkedData chip chn s).length = image.length ∧ image.length < 2 ^ 29 ∧
        (bitErrors (messageBits (checkedData chip chn s)) (messageBits image) = 1 ∨
          bitErrors (messageBits (checkedData chip chn s)) (messageBits image) = 2))) :
    otaRecvIpcMsgCrc chip regs localFlashOp chn s = checkReply localFlashOp chn .error s := by
  rw [otaRecvIpcMsgCrc_eq hopcode hp, if_neg]
  rw [← UInt32.toBitVec_inj, toBitVec_crc32, toBitVec_crc32, BitVec.not_inj]
  obtain ⟨u, a, b, v, hdata, himage, hlen, hle, hne⟩ | ⟨hlen, hlt, herrors⟩ := hdiffer
  · rw [hdata, himage]
    exact crcBits_burst crcPoly_msb hlen hle hne
  · refine crcBits_detects crcPoly_msb ?_ ?_ herrors
    · rw [length_messageBits, length_messageBits, hlen]
    · rw [length_messageBits, orderOf_crcPoly, hlen]
      omega

/-- A blank chip differs in one bit. -/
theorem otaCheckCrc_error_blank :
    otaRecvIpcMsgCrc flashChip1M (fun _ => 0) 0 0 (.checked [0xff, 0xff, 0xff, 0xfe]) =
      checkReply 0 0 .error (.checked [0xff, 0xff, 0xff, 0xfe]) := by
  have hread : checkedData flashChip1M 0 (.checked [0xff, 0xff, 0xff, 0xfe]) =
      [0xff, 0xff, 0xff, 0xff] := by decide +kernel
  refine otaCheckCrc_error (opcode_checked _) (p_checked _) (Or.inr ⟨?_, by decide, Or.inl ?_⟩)
  · rw [hread]
    rfl
  · rw [hread]
    decide

end CheckCrc

end Fr5080
