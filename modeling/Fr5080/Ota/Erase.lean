import Fr5080.Ipc.Run
import Fr5080.Ota.Service

/-!
# Fr5080.Ota.Erase

Which sectors an OTA request erases.

The target of a request, rounded out, is the sectors from `sectorStart` to
`sectorEnd`.  An erase request calls `qspi_flash_erase` once for every 4 KB of
its length, starting with the sector of its offset (`log_otaEraseLoop`); a copy
request calls it whenever its destination has come to a sector
(`otaFlashCopyLoop_erases`).  Each call erases as many sectors as its size
argument says, which `ota.c` does not pass.
-/

namespace Fr5080

open Embedded

/-! ## targets -/

/-- The number of the first sector of a target. -/
def sectorStart (offset : UInt32) : Nat := offset.toNat / flashSectorSize

/-- The number of the sector behind a target. -/
def sectorEnd (offset length : UInt32) : Nat :=
  (offset.toNat + length.toNat + 0xFFF) / flashSectorSize

/-- Sector `k` intersects `[offset, offset + length)`. -/
def FlashChip.Targets (chip : FlashChip) (offset length : UInt32) (k : Nat) : Prop :=
  ∃ i < length.toNat, k = chip.geometry.sectorOf (offset.toNat + i)

/-- The sector an operation works on. -/
def FlashOp.sector (chip : FlashChip) : FlashOp → Nat
  | .erase sector _ => sector
  | .program offset _ _ => chip.geometry.sectorOf offset.toNat

/-- The operations between two states of the flash. -/
def flashOps (f f' : Flash) : List FlashOp := f'.log.drop f.log.length

/-- Every sector of the target is erased, and no other is touched. -/
def ErasesExactly (chip : FlashChip) (offset length : UInt32) (ops : List FlashOp) : Prop :=
  (∀ k, chip.Targets offset length k → ∃ status, Unprotected status ∧ .erase k status ∈ ops) ∧
    ∀ op ∈ ops, chip.Targets offset length (op.sector chip)

/-- No sector outside of the target is erased. -/
def ErasesWithin (chip : FlashChip) (offset length : UInt32) (ops : List FlashOp) : Prop :=
  ∀ k status, .erase k status ∈ ops → chip.Targets offset length k

variable {chip : FlashChip} {regs : Nat → UInt32}

theorem flashOps_of_append {f f' : Flash} {ops : List FlashOp} (h : f'.log = f.log ++ ops) :
    flashOps f f' = ops := by
  rw [flashOps, h, List.drop_left]

/-- The sectors of a target, by their numbers. -/
theorem targets_iff {offset length : UInt32} (hlength : length ≠ 0) (k : Nat) :
    chip.Targets offset length k ↔
      ∃ i < sectorEnd offset length - sectorStart offset, k = chip.sectorAt offset i := by
  have hpos : 0 < length.toNat := Nat.pos_of_ne_zero fun h => hlength (UInt32.toNat_inj.mp h)
  have hsector : ∀ i, chip.geometry.sectorOf (offset.toNat + i) =
      chip.sectorAt offset ((offset.toNat + i) / 4096 - offset.toNat / 4096) := by
    intro i
    have hle : offset.toNat / 4096 ≤ (offset.toNat + i) / 4096 :=
      Nat.div_le_div_right (Nat.le_add_right _ _)
    rw [NorGeometry.sectorOf_eq, FlashChip.geometry_sectors, FlashChip.sectorAt]
    show (offset.toNat + i) / 4096 % _ = (offset.toNat / 4096 + _) % _
    rw [Nat.add_sub_cancel' hle]
  simp only [FlashChip.Targets, hsector, sectorEnd, sectorStart]
  show _ ↔ ∃ i < (offset.toNat + length.toNat + 4095) / 4096 - offset.toNat / 4096, _
  constructor
  · rintro ⟨i, hi, rfl⟩
    exact ⟨_, by omega, rfl⟩
  · rintro ⟨i, hi, rfl⟩
    -- the first byte of the target in the sector
    refine ⟨max offset.toNat ((offset.toNat / 4096 + i) * 4096) - offset.toNat, by omega, ?_⟩
    congr 1
    omega

/-! ## the erase request -/

/-- The number of calls of `qspi_flash_erase` for an erase request. -/
def otaEraseCalls (length : UInt32) : Nat := (length.toNat + 0xFFF) / flashSectorSize

/-- An erase request erases sectors only: call `k` starts `k` sectors behind its
offset. -/
theorem log_otaEraseLoop (calls : Nat) (offset length : UInt32) (f : Flash) :
    (otaEraseLoop chip regs calls offset length f).log =
      f.log ++ (List.range (otaEraseCalls length)).flatMap fun k =>
        (List.range (flashEraseCount (regs (calls + k)))).map fun j =>
          .erase (chip.sectorAt offset (k + j)) (unprotectedStatus f.status) := by
  induction calls, offset, length, f using otaEraseLoop.induct chip regs with
  | case1 calls offset f => simp [otaEraseLoop, otaEraseCalls, flashSectorSize]
  | case2 calls offset length f hne hgt ih =>
      have hlt : 4096 < length.toNat := UInt32.lt_iff_toNat_lt.mp hgt
      have hcalls : otaEraseCalls length = otaEraseCalls (length - 0x1000) + 1 := by
        simp only [otaEraseCalls]
        rw [UInt32.toNat_sub_of_le _ _ (UInt32.le_of_lt hgt)]
        show (length.toNat + 4095) / 4096 = (length.toNat - 4096 + 4095) / 4096 + 1
        omega
      rw [otaEraseLoop, if_neg hne, if_pos hgt, ih, hcalls, log_qspiFlashErase,
        status_qspiFlashErase, List.range_succ_eq_map, List.flatMap_cons, List.flatMap_map,
        List.append_assoc]
      have hnext : ∀ k j, chip.sectorAt (offset + 0x1000) (k + j) =
          chip.sectorAt offset (k + 1 + j) := by
        intro k j
        rw [FlashChip.sectorAt_add_sector, Nat.add_right_comm]
      simp only [hnext, Nat.zero_add, Nat.add_zero, Nat.succ_eq_add_one, Nat.add_assoc,
        Nat.add_comm 1]
  | case3 calls offset length f hne hle =>
      have hpos : 0 < length.toNat := Nat.pos_of_ne_zero fun h => hne (UInt32.toNat_inj.mp h)
      have hle' : length.toNat ≤ 4096 :=
        Nat.not_lt.mp fun hlt => hle (UInt32.lt_iff_toNat_lt.mpr hlt)
      have hcalls : otaEraseCalls length = 1 := by
        show (length.toNat + 4095) / 4096 = 1
        omega
      rw [otaEraseLoop, if_neg hne, if_neg hle, hcalls, log_qspiFlashErase]
      simp

/-- The state of the flash after an erase request. -/
theorem flash_otaRecvIpcMsg_erase {crc32 : UInt32 → List UInt8 → UInt32} {localFlashOp chn : Nat}
    {s : OtaSys}
    (hopcode : s.ipc.shm (ipcGetBufferOffset .mcu2dsp chn) = IpcMsgFlashOpcode.erase.code) :
    (otaRecvIpcMsg chip regs crc32 localFlashOp chn s).flash =
      otaEraseLoop chip regs 0
        (word32 s.ipc.shm (ipcGetBufferOffset .mcu2dsp chn + 8) &&& 0xFFFFF000)
        (word32 s.ipc.shm (ipcGetBufferOffset .mcu2dsp chn + 4)) s.flash := by
  simp only [otaRecvIpcMsg, hopcode, if_true]

/-- What an erase request adds to the log. -/
theorem mem_otaErase {offset length : UInt32} {f : Flash} {op : FlashOp} :
    op ∈ flashOps f (otaEraseLoop chip regs 0 (offset &&& 0xFFFFF000) length f) ↔
      ∃ k < otaEraseCalls length, ∃ j < flashEraseCount (regs k),
        op = .erase (chip.sectorAt offset (k + j)) (unprotectedStatus f.status) := by
  rw [flashOps_of_append (log_otaEraseLoop 0 _ length f)]
  simp only [List.mem_flatMap, List.mem_range, List.mem_map, FlashChip.sectorAt_mask, Nat.zero_add,
    eq_comm]

theorem otaEraseCalls_le (offset length : UInt32) (h : length ≠ 0) :
    0 < otaEraseCalls length ∧
      otaEraseCalls length ≤ sectorEnd offset length - sectorStart offset := by
  have hpos : 0 < length.toNat := Nat.pos_of_ne_zero fun hz => h (UInt32.toNat_inj.mp hz)
  show 0 < (length.toNat + 4095) / 4096 ∧ (length.toNat + 4095) / 4096 ≤
    (offset.toNat + length.toNat + 4095) / 4096 - offset.toNat / 4096
  omega

theorem sectorAt_eq (offset : UInt32) (n : Nat) :
    chip.sectorAt offset n = (sectorStart offset + n) % chip.geometry.sectors := by
  rw [FlashChip.geometry_sectors, FlashChip.sectorAt, sectorStart]

/-- With one sector for each call, what is erased is always within the target; it is all of it
if the sectors of the length alone reach the end. -/
theorem otaErase_exact_iff {offset length : UInt32} (hlength : length ≠ 0) (f : Flash) :
    ErasesExactly chip offset length (flashOps f
        (otaEraseLoop chip (fun _ => 0x1000) 0 (offset &&& 0xFFFFF000) length f)) ↔
      chip.sectors ≤ otaEraseCalls length ∨
        sectorEnd offset length - sectorStart offset ≤ otaEraseCalls length := by
  have hcount : flashEraseCount 0x1000 = 1 := by simp [flashEraseCount, flashSectorSize]
  have hmem : ∀ op, op ∈ flashOps f
      (otaEraseLoop chip (fun _ => 0x1000) 0 (offset &&& 0xFFFFF000) length f) ↔
        ∃ k < otaEraseCalls length,
          op = .erase (chip.sectorAt offset k) (unprotectedStatus f.status) := by
    intro op
    rw [mem_otaErase, hcount]
    simp
  obtain ⟨hpos, hle⟩ := otaEraseCalls_le offset length hlength
  have hwithin : ∀ op ∈ flashOps f
      (otaEraseLoop chip (fun _ => 0x1000) 0 (offset &&& 0xFFFFF000) length f),
      chip.Targets offset length (op.sector chip) := by
    intro op hop
    obtain ⟨k, hk, rfl⟩ := (hmem op).mp hop
    exact (targets_iff hlength _).mpr ⟨k, Nat.lt_of_lt_of_le hk hle, rfl⟩
  have hamong := chip.geometry.sectors_among_iff (b := sectorStart offset)
    (c := sectorEnd offset length - sectorStart offset) hpos
  rw [FlashChip.geometry_sectors, Nat.zero_add] at hamong
  rw [← hamong, ErasesExactly, and_iff_left hwithin]
  constructor
  · intro h j hj
    obtain ⟨status, -, herase⟩ := h _ ((targets_iff hlength _).mpr ⟨j, hj, rfl⟩)
    obtain ⟨i, hi, heq⟩ := (hmem _).mp herase
    have hsector := (FlashOp.erase.inj heq).1
    rw [sectorAt_eq, sectorAt_eq, FlashChip.geometry_sectors] at hsector
    exact ⟨i, hi, by rw [Nat.add_zero]; exact hsector⟩
  · intro h k hk
    obtain ⟨j, hj, rfl⟩ := (targets_iff hlength _).mp hk
    obtain ⟨i, hi, heq⟩ := h j hj
    have hsector : chip.sectorAt offset j = chip.sectorAt offset i := by
      rw [sectorAt_eq, sectorAt_eq, FlashChip.geometry_sectors]
      rwa [Nat.add_zero] at heq
    refine ⟨_, unprotected_unprotectedStatus f.status, (hmem _).mpr ⟨i, hi, ?_⟩⟩
    rw [hsector]

/-- With one sector for each call, an erase request erases exactly its target if and only if
the target, rounded out, has as many sectors as the length alone, or the request reaches
round the chip. -/
theorem ota_erase_exact_iff {crc32 : UInt32 → List UInt8 → UInt32} {localFlashOp chn : Nat}
    {s : OtaSys} {length offset : UInt32}
    (hopcode : s.ipc.shm (ipcGetBufferOffset .mcu2dsp chn) = IpcMsgFlashOpcode.erase.code)
    (hlength : word32 s.ipc.shm (ipcGetBufferOffset .mcu2dsp chn + 4) = length)
    (hoffset : word32 s.ipc.shm (ipcGetBufferOffset .mcu2dsp chn + 8) = offset)
    (hpos : length ≠ 0) :
    ErasesExactly chip offset length
        (flashOps s.flash (otaRecvIpcMsg chip (fun _ => 0x1000) crc32 localFlashOp chn s).flash) ↔
      offset.toNat % flashSectorSize + (length.toNat - 1) % flashSectorSize < flashSectorSize ∨
        chip.sectors ≤ otaEraseCalls length := by
  rw [flash_otaRecvIpcMsg_erase hopcode, hlength, hoffset, otaErase_exact_iff hpos, or_comm]
  refine or_congr_left ?_
  have hlen : 0 < length.toNat := Nat.pos_of_ne_zero fun h => hpos (UInt32.toNat_inj.mp h)
  unfold sectorEnd sectorStart otaEraseCalls flashSectorSize
  omega

/-- The state in which a request has come in on channel 0. -/
def OtaSys.received (opcode : IpcMsgFlashOpcode) (length offset p : UInt32) (flash : Flash) :
    OtaSys where
  ipc := (ipcStart (fun _ => 0) (otaRequest 0 opcode length offset p) fun _ => ⟨0, 0, 0, 0⟩).ipc
  flash := flash

theorem shm_received (opcode : IpcMsgFlashOpcode) (length offset p : UInt32) (f : Flash) :
    (OtaSys.received opcode length offset p f).ipc.shm = otaRequest 0 opcode length offset p := rfl

/-- A blank chip with protected blocks. -/
def Flash.blank : Flash := ⟨fun _ => 0xFF, flashBlockProtect, false, []⟩

/-- Two sectors from the start of one. -/
theorem ota_erase_exact_iff_aligned :
    ErasesExactly flashChip1M 0x3000 0x1800 (flashOps .blank
      (otaRecvIpcMsg flashChip1M (fun _ => 0x1000) (fun _ _ => 0) 0 0
        (.received .erase 0x1800 0x3000 0 .blank)).flash) :=
  (ota_erase_exact_iff (s := .received .erase 0x1800 0x3000 0 .blank) (opcode_otaRequest ..)
    (length_otaRequest ..) (offset_otaRequest ..) (by decide)).mpr (Or.inl (by decide))

/-- The state of the flash after an erase request on channel 0. -/
theorem flash_received_erase (crc32 : UInt32 → List UInt8 → UInt32) (localFlashOp : Nat)
    (length offset p : UInt32) (f : Flash) :
    (otaRecvIpcMsg chip regs crc32 localFlashOp 0 (.received .erase length offset p f)).flash =
      otaEraseLoop chip regs 0 (offset &&& 0xFFFFF000) length f := by
  rw [flash_otaRecvIpcMsg_erase (opcode_otaRequest 0 .erase length offset p), shm_received,
    length_otaRequest, offset_otaRequest]
  rfl

/-- Two bytes on both sides of a sector boundary: the second sector is not erased. -/
theorem ota_erase_misses_last_sector :
    ¬ ErasesExactly flashChip1M 0xFFF 2 (flashOps .blank
      (otaRecvIpcMsg flashChip1M (fun _ => 0x1000) (fun _ _ => 0) 0 0
        (.received .erase 2 0xFFF 0 .blank)).flash) := by
  rw [flash_received_erase, otaErase_exact_iff (by decide)]
  decide

/-! ## any size argument -/

/-- Sector `k` is erased. -/
def Erases (ops : List FlashOp) (k : Nat) : Prop := ∃ status, .erase k status ∈ ops

theorem erases_append (ops ops' : List FlashOp) (k : Nat) :
    Erases (ops ++ ops') k ↔ Erases ops k ∨ Erases ops' k := by
  simp [Erases, exists_or]

theorem erasesWithin_iff {offset length : UInt32} {ops : List FlashOp} :
    ErasesWithin chip offset length ops ↔ ∀ k, Erases ops k → chip.Targets offset length k := by
  simp [ErasesWithin, Erases]

/-- What a call erases, `p` sectors behind the start of a target: it stays within the target
if it ends with it, or if the target is the whole chip. -/
theorem call_within_iff {offset length : UInt32} {p c : Nat} (hlength : length ≠ 0)
    (hp : sectorStart offset + p < sectorEnd offset length) :
    (∀ j < c, chip.Targets offset length (chip.sectorAt offset (p + j))) ↔
      chip.sectors ≤ sectorEnd offset length - sectorStart offset ∨
        sectorStart offset + p + c ≤ sectorEnd offset length := by
  have hamong := chip.geometry.sectors_among_iff (b := sectorStart offset) (c := c)
    (p := p) (m := sectorEnd offset length - sectorStart offset) (by omega)
  have hle : sectorStart offset + p + c ≤ sectorEnd offset length ↔
      p + c ≤ sectorEnd offset length - sectorStart offset := by omega
  rw [hle, ← chip.geometry_sectors, ← hamong]
  simp only [targets_iff hlength, sectorAt_eq, Nat.add_assoc]

/-- Calls that begin inside of a target stay within it if each of them does. -/
theorem calls_within_iff {offset length : UInt32} {ops : List FlashOp} {I : Nat → Prop}
    {p c : Nat → Nat}
    (hcalls : ∀ k, Erases ops k ↔ ∃ i, I i ∧ ∃ j < c i, k = chip.sectorAt offset (p i + j))
    (hbegin : ∀ i, I i → length ≠ 0 ∧ sectorStart offset + p i < sectorEnd offset length) :
    ErasesWithin chip offset length ops ↔
      chip.sectors ≤ sectorEnd offset length - sectorStart offset ∨
        ∀ i, I i → sectorStart offset + p i + c i ≤ sectorEnd offset length := by
  have hcall : ∀ i, I i →
      ((∀ j < c i, chip.Targets offset length (chip.sectorAt offset (p i + j))) ↔
      chip.sectors ≤ sectorEnd offset length - sectorStart offset ∨
        sectorStart offset + p i + c i ≤ sectorEnd offset length) :=
    fun i hi => call_within_iff (hbegin i hi).1 (hbegin i hi).2
  have hsplit : ErasesWithin chip offset length ops ↔
      ∀ i, I i → ∀ j < c i, chip.Targets offset length (chip.sectorAt offset (p i + j)) := by
    simp only [erasesWithin_iff, hcalls]
    grind
  rw [hsplit, ← forall_or_left]
  refine forall_congr' fun i => ?_
  by_cases hi : I i
  · simp [hi, hcall]
  · simp [hi]

/-- An erase request stays within its target if each of its calls does. -/
theorem otaErase_within_iff (offset length : UInt32) (f : Flash) :
    ErasesWithin chip offset length (flashOps f
        (otaEraseLoop chip regs 0 (offset &&& 0xFFFFF000) length f)) ↔
      chip.sectors ≤ sectorEnd offset length - sectorStart offset ∨
        ∀ k < otaEraseCalls length,
          sectorStart offset + k + flashEraseCount (regs k) ≤ sectorEnd offset length := by
  refine calls_within_iff (fun k => ?_) fun i hi => ?_
  · simp only [Erases, mem_otaErase, FlashOp.erase.injEq]
    simp
  · have hlength : length ≠ 0 := by
      rintro rfl
      exact absurd hi (by simp [otaEraseCalls, flashSectorSize])
    have := otaEraseCalls_le offset length hlength
    exact ⟨hlength, by omega⟩

/-! ## the copy request -/

/-- The number of the first sector that starts at or behind an address. -/
def sectorAlign (a : Nat) : Nat := (a + 0xFFF) / flashSectorSize

/-- Sector `k` is erased by a copy to `[a, a + length)`, after `calls` calls: a call is made
for each sector that starts there, if a page does. -/
def CopyErases (chip : FlashChip) (regs : Nat → UInt32) (calls a length k : Nat) : Prop :=
  a % flashPageSize = 0 ∧ ∃ c, sectorAlign a + c < sectorAlign (a + length) ∧
    ∃ j < flashEraseCount (regs (calls + c)), k = (sectorAlign a + c + j) % chip.sectors

/-- One pass of the loop. -/
theorem copyErases_step {calls a length k : Nat} (hpos : 0 < length) :
    CopyErases chip regs calls a length k ↔
      (a % flashSectorSize = 0 ∧ ∃ j < flashEraseCount (regs calls),
          k = (a / flashSectorSize + j) % chip.sectors) ∨
        CopyErases chip regs (if a % flashSectorSize = 0 then calls + 1 else calls)
          (a + min length 0x100) (length - min length 0x100) k := by
  have hend : a + min length 0x100 + (length - min length 0x100) = a + length := by omega
  simp only [CopyErases, hend, sectorAlign, flashSectorSize, flashPageSize]
  by_cases hsector : a % 4096 = 0
  · have hpage : a % 256 = 0 := by omega
    have hstart : (a + 4095) / 4096 = a / 4096 := by omega
    simp only [hsector, hpage, hstart, if_true, true_and]
    constructor
    · rintro ⟨c, hc, j, hj, rfl⟩
      cases c with
      | zero => exact Or.inl ⟨j, hj, rfl⟩
      | succ c =>
          have hmin : min length 256 = 256 := by omega
          have hnext : (a + 256 + 4095) / 4096 = a / 4096 + 1 := by omega
          rw [hmin, hnext]
          refine Or.inr ⟨by omega, c, by omega, j, ?_, ?_⟩
          · rwa [Nat.add_right_comm, Nat.add_assoc]
          · congr 1
            omega
    · rintro (⟨j, hj, rfl⟩ | ⟨hpage', c, hc, j, hj, rfl⟩)
      · exact ⟨0, by omega, j, hj, rfl⟩
      · have hmin : min length 256 = 256 := by omega
        have hnext : (a + 256 + 4095) / 4096 = a / 4096 + 1 := by omega
        rw [hmin, hnext] at *
        refine ⟨c + 1, by omega, j, ?_, ?_⟩
        · rwa [Nat.add_right_comm, Nat.add_assoc] at hj
        · congr 1
          omega
  · simp only [hsector, if_false, false_and, false_or]
    by_cases hlong : 256 < length
    · have hmin : min length 256 = 256 := by omega
      have hpage : (a + 256) % 256 = a % 256 := by omega
      rw [hmin, hpage]
      refine and_congr_right fun hpage => ?_
      have hnext : (a + 256 + 4095) / 4096 = (a + 4095) / 4096 := by omega
      rw [hnext]
    · -- the last page ends in the sector it starts in
      refine iff_of_false ?_ ?_
      · rintro ⟨hpage, c, hc, -⟩
        omega
      · rintro ⟨-, c, hc, -⟩
        omega

/-- `dst & 0xfff`. -/
theorem toNat_and_fff (dst : UInt32) : dst &&& 0xFFF = 0 ↔ dst.toNat % flashSectorSize = 0 := by
  rw [← UInt32.toNat_inj, UInt32.toNat_and]
  exact Eq.congr_left (Nat.and_two_pow_sub_one_eq_mod dst.toNat 12)

theorem toNat_otaSubLength (length : UInt32) :
    (otaSubLength length).toNat = min length.toNat 0x100 := by
  have hgt : length > 0x100 ↔ 0x100 < length.toNat := UInt32.lt_iff_toNat_lt
  simp only [otaSubLength, hgt]
  split
  · next hlt => exact (Nat.min_eq_right (Nat.le_of_lt hlt)).symm
  · next hle => exact (Nat.min_eq_left (Nat.not_lt.mp hle)).symm

/-- What `otaEraseDst` erases. -/
theorem otaEraseDst_erases (calls : Nat) (dst : UInt32) (f : Flash) :
    (otaEraseDst chip regs calls dst f).1 =
        (if dst.toNat % flashSectorSize = 0 then calls + 1 else calls) ∧
      ∃ ops, (otaEraseDst chip regs calls dst f).2.log = f.log ++ ops ∧
        ∀ k, Erases ops k ↔ dst.toNat % flashSectorSize = 0 ∧
          ∃ j < flashEraseCount (regs calls), k = chip.sectorAt dst j := by
  by_cases hsector : dst.toNat % flashSectorSize = 0
  · have hand := (toNat_and_fff dst).mpr hsector
    simp only [otaEraseDst, hand, hsector, if_true, true_and]
    refine ⟨_, log_qspiFlashErase dst (regs calls) f, fun k => ?_⟩
    simp [Erases, eq_comm]
  · have hand := mt (toNat_and_fff dst).mp hsector
    simp only [otaEraseDst, hand, hsector, if_false, false_and, true_and]
    exact ⟨[], by simp, by simp [Erases]⟩

/-- What a copy to the address `a` erases. -/
theorem otaFlashCopyLoop_erases (calls : Nat) (src dst length : UInt32) (f : Flash) (a : Nat)
    (ha : dst.toNat = a % 2 ^ 32) :
    ∃ ops, (otaFlashCopyLoop chip regs calls src dst length f).log = f.log ++ ops ∧
      ∀ k, Erases ops k ↔ CopyErases chip regs calls a length.toNat k := by
  induction calls, src, dst, length, f using otaFlashCopyLoop.induct chip regs generalizing a with
  | case1 calls src dst f =>
      refine ⟨[], by simp [otaFlashCopyLoop], fun k => ?_⟩
      simp [Erases, CopyErases]
  | case2 calls src dst length f hne erased buffer ih =>
      have hpos : 0 < length.toNat := Nat.pos_of_ne_zero fun h => hne (UInt32.toNat_inj.mp h)
      have hsub := toNat_otaSubLength length
      obtain ⟨hcalls, ops, hlog, hops⟩ := @otaEraseDst_erases chip regs calls dst f
      obtain ⟨writes, hwrites, hprogram, -⟩ := @log_qspiFlashWrite chip dst buffer erased.2
      obtain ⟨rest, hrest, herases⟩ := ih (a + min length.toNat 0x100) (by
        rw [UInt32.toNat_add, hsub, ha, Nat.mod_add_mod])
      refine ⟨ops ++ writes ++ rest, ?_, fun k => ?_⟩
      · rw [otaFlashCopyLoop, if_neg hne]
        show (otaFlashCopyLoop chip regs erased.1 _ _ _ _).log = _
        rw [hrest, hwrites, hlog]
        simp
      · have hwrite : ¬ Erases writes k := by
          rintro ⟨status, hmem⟩
          obtain ⟨_, _, heq⟩ := hprogram _ hmem
          cases heq
        have hmod : dst.toNat % flashSectorSize = a % flashSectorSize := by
          rw [ha]
          exact Nat.mod_mod_of_dvd a (by decide)
        have hleft : (length - otaSubLength length).toNat =
            length.toNat - min length.toNat 0x100 := by
          rw [UInt32.toNat_sub_of_le _ _ (UInt32.le_iff_toNat_le.mpr (by omega)), hsub]
        have hfst : erased.1 = if a % flashSectorSize = 0 then calls + 1 else calls := by
          rw [← hmod]
          exact hcalls
        rw [erases_append, erases_append, hops, herases, copyErases_step hpos, hleft, hfst, hmod]
        simp only [hwrite, or_false, chip.sectorAt_of_toNat ha]

/-- A copy stays within its target if it does not start a page, or if each of its calls stays
there. -/
theorem otaCopy_within_iff (src dst length : UInt32) (f : Flash) :
    ErasesWithin chip dst length (flashOps f (otaFlashCopyLoop chip regs 0 src dst length f)) ↔
      chip.sectors ≤ sectorEnd dst length - sectorStart dst ∨ dst.toNat % flashPageSize ≠ 0 ∨
        ∀ k, sectorAlign dst.toNat + k < sectorEnd dst length →
          sectorAlign dst.toNat + k + flashEraseCount (regs k) ≤ sectorEnd dst length := by
  obtain ⟨ops, hlog, hops⟩ := @otaFlashCopyLoop_erases chip regs 0 src dst length f dst.toNat
    (Nat.mod_eq_of_lt dst.toNat_lt).symm
  have hstart : sectorStart dst ≤ sectorAlign dst.toNat :=
    Nat.div_le_div_right (Nat.le_add_right _ _)
  have hskip : ∀ c, sectorStart dst + (sectorAlign dst.toNat - sectorStart dst + c) =
      sectorAlign dst.toNat + c := by
    intro c
    omega
  have hwithin := @calls_within_iff chip dst length ops
    (fun c => dst.toNat % flashPageSize = 0 ∧ sectorAlign dst.toNat + c < sectorEnd dst length)
    (fun c => sectorAlign dst.toNat - sectorStart dst + c) (fun c => flashEraseCount (regs c))
    (fun k => ?_) fun c hc => ?_
  · rw [flashOps_of_append hlog, hwithin]
    simp only [hskip]
    by_cases hpage : dst.toNat % flashPageSize = 0
    · simp [hpage]
    · simp [hpage]
  · have hsector : ∀ c j, chip.sectorAt dst (sectorAlign dst.toNat - sectorStart dst + c + j) =
        (sectorAlign dst.toNat + c + j) % chip.sectors := by
      intro c j
      rw [sectorAt_eq, FlashChip.geometry_sectors, ← Nat.add_assoc, hskip]
    rw [hops, CopyErases]
    simp only [hsector, Nat.zero_add, and_assoc, exists_and_left]
    rfl
  · have hlength : length ≠ 0 := by
      rintro rfl
      exact absurd hc.2 (by simp [sectorEnd, sectorAlign])
    exact ⟨hlength, by rw [hskip]; exact hc.2⟩

/-- The state of the flash after a copy request. -/
theorem flash_otaRecvIpcMsg_copy {crc32 : UInt32 → List UInt8 → UInt32} {localFlashOp chn : Nat}
    {s : OtaSys}
    (hopcode : s.ipc.shm (ipcGetBufferOffset .mcu2dsp chn) = IpcMsgFlashOpcode.copy.code) :
    (otaRecvIpcMsg chip regs crc32 localFlashOp chn s).flash =
      otaFlashCopyLoop chip regs 0 (word32 s.ipc.shm (ipcGetBufferOffset .mcu2dsp chn + 8))
        (word32 s.ipc.shm (ipcGetBufferOffset .mcu2dsp chn + 12))
        (word32 s.ipc.shm (ipcGetBufferOffset .mcu2dsp chn + 4)) s.flash := by
  have hne : IpcMsgFlashOpcode.copy.code ≠ IpcMsgFlashOpcode.erase.code ∧
      IpcMsgFlashOpcode.copy.code ≠ IpcMsgFlashOpcode.read.code ∧
      IpcMsgFlashOpcode.copy.code ≠ IpcMsgFlashOpcode.write.code := by decide
  simp only [otaRecvIpcMsg, hopcode, hne, if_true, if_false]

/-- Whatever the size arguments are, a request erases nothing outside of its target if and
only if every call ends within it, or the target is the whole chip.  A copy whose destination
does not start a page makes no call. -/
theorem ota_erases_within_iff (crc32 : UInt32 → List UInt8 → UInt32) (localFlashOp chn : Nat)
    (s : OtaSys) :
    let buffer := ipcGetBufferOffset .mcu2dsp chn
    let opcode := s.ipc.shm buffer
    let length := word32 s.ipc.shm (buffer + 4)
    let offset := word32 s.ipc.shm (buffer + 8)
    let dst := word32 s.ipc.shm (buffer + 12)
    let ops := flashOps s.flash (otaRecvIpcMsg chip regs crc32 localFlashOp chn s).flash
    (opcode = IpcMsgFlashOpcode.erase.code → (ErasesWithin chip offset length ops ↔
      chip.sectors ≤ sectorEnd offset length - sectorStart offset ∨
        ∀ k < otaEraseCalls length,
          sectorStart offset + k + flashEraseCount (regs k) ≤ sectorEnd offset length)) ∧
    (opcode = IpcMsgFlashOpcode.copy.code → (ErasesWithin chip dst length ops ↔
      chip.sectors ≤ sectorEnd dst length - sectorStart dst ∨ dst.toNat % flashPageSize ≠ 0 ∨
        ∀ k, sectorAlign dst.toNat + k < sectorEnd dst length →
          sectorAlign dst.toNat + k + flashEraseCount (regs k) ≤ sectorEnd dst length)) := by
  refine ⟨fun hopcode => ?_, fun hopcode => ?_⟩
  · rw [flash_otaRecvIpcMsg_erase hopcode]
    exact otaErase_within_iff _ _ _
  · rw [flash_otaRecvIpcMsg_copy hopcode]
    exact otaCopy_within_iff _ _ _ _

/-- An erase request for two sectors, and a copy that starts a page behind a sector. -/
theorem ota_erases_within_iff_requests :
    ErasesWithin flashChip1M 0 0x2000 (flashOps .blank
      (otaRecvIpcMsg flashChip1M (fun _ => 0x1000) (fun _ _ => 0) 0 0
        (.received .erase 0x2000 0 0 .blank)).flash) ∧
    ErasesWithin flashChip1M 0x100 0x2000 (flashOps .blank
      (otaRecvIpcMsg flashChip1M (fun _ => 0x1000) (fun _ _ => 0) 0 0
        (.received .copy 0x2000 0x80000 0x100 .blank)).flash) := by
  have herase := (@ota_erases_within_iff flashChip1M (fun _ => 0x1000) (fun _ _ => 0) 0 0
    (.received .erase 0x2000 0 0 .blank)).1 (opcode_otaRequest 0 .erase 0x2000 0 0)
  have hcopy := (@ota_erases_within_iff flashChip1M (fun _ => 0x1000) (fun _ _ => 0) 0 0
    (.received .copy 0x2000 0x80000 0x100 .blank)).2
      (opcode_otaRequest 0 .copy 0x2000 0x80000 0x100)
  simp only [shm_received, length_otaRequest, offset_otaRequest] at herase
  simp only [shm_received, length_otaRequest, p_otaRequest] at hcopy
  have hend : sectorEnd 0x100 0x2000 = 3 ∧ sectorAlign (0x100 : UInt32).toNat = 1 ∧
      flashEraseCount 0x1000 = 1 := by decide
  refine ⟨herase.mpr (by decide), hcopy.mpr (Or.inr (Or.inr fun k hk => ?_))⟩
  rw [hend.1, hend.2.1] at hk
  rw [hend.1, hend.2.1, hend.2.2]
  omega

/-- A request for the first sector, while the register holds `0x2000`: the second sector is
erased too. -/
theorem ota_erases_behind_target :
    ¬ ErasesWithin flashChip1M 0 0x1000 (flashOps .blank
      (otaRecvIpcMsg flashChip1M (fun _ => 0x2000) (fun _ _ => 0) 0 0
        (.received .erase 0x1000 0 0 .blank)).flash) := by
  rw [flash_received_erase, otaErase_within_iff]
  decide

end Fr5080
