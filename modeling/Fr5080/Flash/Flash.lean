import Fr5080.Embedded.Nor
import Fr5080.Embedded.Task
import Fr5080.Embedded.Word

/-!
# Fr5080.Flash.Flash

The flash of the DSP and its driver: the commands of the chip, `flash_erase`
of the ROM code (`flash.c`), block protection (`driver_flash.c`) and the
functions of `qspi.c` that put both together.

`qspi_flash_erase` and `qspi_flash_write` mask interrupts only around the
erase and around each page, so their code is a list of statements
(`FlashStmt`).  Executed without interrupts it is the sequential function
(`qspiFlashErase`, `qspiFlashWrite`).

The chip has 4 KB sectors and 256-byte pages.  It is addressed with three
bytes, of which it uses as many bits as it has; its size is left open.
-/

namespace Fr5080

open Embedded

/-! ## the chip -/

/-- A flash chip, by the number of its sectors. -/
structure FlashChip where
  sectors : Nat
  sectors_dvd : sectors ∣ 2 ^ 12

/-- A chip of 1 MB. -/
def flashChip1M : FlashChip := ⟨256, by decide⟩

/-- `FLASH_PAGE_SIZE`. -/
def flashPageSize : Nat := 0x100

/-- The size of a sector. -/
def flashSectorSize : Nat := 0x1000

/-- The sizes of the chip. -/
def FlashChip.geometry (chip : FlashChip) : NorGeometry where
  page := flashPageSize
  sector := flashSectorSize
  size := chip.sectors * flashSectorSize
  page_pos := by decide
  size_pos := Nat.mul_pos (Nat.pos_of_dvd_of_pos chip.sectors_dvd (by decide)) (by decide)
  page_dvd := by decide
  sector_dvd := Nat.dvd_mul_left _ _

/-- The array operations of the chip, in the order of their execution, with
the status register at the time. -/
inductive FlashOp
  | erase (sector : Nat) (status : BitVec 8)
  | program (offset : UInt32) (bytes : List UInt8) (status : BitVec 8)
deriving DecidableEq

/-- The state of the chip.  `volatileEnabled` is set by the command 0x50 and
admits one write of the status register; `log` is a history variable. -/
structure Flash where
  cells : Nat → UInt8
  status : BitVec 8
  volatileEnabled : Bool
  log : List FlashOp

/-- The block protection bits of the status register, `0x1F << 2`. -/
def flashBlockProtect : BitVec 8 := 0x1F#8 <<< 2

/-- No block is protected. -/
abbrev Unprotected (status : BitVec 8) : Prop := status &&& flashBlockProtect = 0

namespace Flash

/-- `write_enable_cmd` and `sector_erase_cmd`: a protected sector is not erased. -/
def sectorErase (chip : FlashChip) (offset : UInt32) (f : Flash) : Flash :=
  { f with
    cells :=
      if Unprotected f.status then chip.geometry.eraseSector offset.toNat f.cells else f.cells
    volatileEnabled := false
    log := f.log ++ [.erase (chip.geometry.sectorOf offset.toNat) f.status] }

/-- A write to the memory-mapped flash: the controller programs one page. -/
def pageProgram (chip : FlashChip) (offset : UInt32) (bytes : List UInt8) (f : Flash) : Flash :=
  { f with
    cells :=
      if Unprotected f.status then chip.geometry.program offset.toNat bytes f.cells else f.cells
    volatileEnabled := false
    log := f.log ++ [.program offset bytes f.status] }

/-- `write_volatile_enable_cmd`. -/
def writeVolatileEnable (f : Flash) : Flash := { f with volatileEnabled := true }

/-- `write_status_cmd`, once the write is complete; the two lowest bits tell of
writes in progress and are not written. -/
def writeStatus (status : BitVec 8) (f : Flash) : Flash :=
  { f with
    status := if f.volatileEnabled then status &&& 0xFC else f.status
    volatileEnabled := false }

end Flash

/-! ## `flash.c` -/

/-- The loop of `flash_erase`. -/
def flashEraseLoop (chip : FlashChip) (offset size : UInt32) (f : Flash) : Flash :=
  if size = 0 then f
  else
    flashEraseLoop chip (offset + 0x1000) (if size > 0x1000 then size - 0x1000 else 0)
      (f.sectorErase chip offset)
termination_by size.toNat
decreasing_by
  next hne =>
    have hpos : 0 < size.toNat := by
      refine Nat.pos_of_ne_zero fun hzero => hne ?_
      exact UInt32.toNat_inj.mp hzero
    split
    · next hgt => exact UInt32.lt_iff_toNat_lt.mp (UInt32.sub_lt (by decide) (UInt32.le_of_lt hgt))
    · exact hpos

/-- `flash_erase`. -/
def flashErase (chip : FlashChip) (offset size : UInt32) (f : Flash) : Flash :=
  let size := if size = 0 then 0x1000 else size
  flashEraseLoop chip (offset &&& 0xFFFFF000) size f

/-- `flash_read`: the window at `QSPI1_DAC_ADDRESS` shows the chip. -/
def flashRead (chip : FlashChip) (offset : UInt32) (length : Nat) (f : Flash) : List UInt8 :=
  (List.range length).map fun i =>
    f.cells (chip.geometry.cell ((offset ||| 0x20000000).toNat + i))

/-! ## `qspi.c` -/

/-- The chip, and the local variable `status` of the protection functions. -/
structure FlashCtx where
  flash : Flash
  status : BitVec 8

/-- The statements of the flash functions: `erase` and `page` are the regions in which
interrupts are masked, `flash_erase` and `qspi_flash_write_sub`. -/
inductive FlashStmt
  | readStatus
  | volatileEnable
  | writeStatus (protect : BitVec 8)
  | erase (offset size : UInt32)
  | page (offset : UInt32) (bytes : List UInt8)

/-- One statement. -/
def FlashStmt.exec (chip : FlashChip) : FlashStmt → FlashCtx → FlashCtx × Bool
  | .readStatus, c => ({ c with status := c.flash.status }, true)
  | .volatileEnable, c => ({ c with flash := c.flash.writeVolatileEnable }, true)
  | .writeStatus protect, c =>
      ({ c with flash := c.flash.writeStatus (c.status &&& 0x83 ||| protect) }, true)
  | .erase offset size, c => ({ c with flash := flashErase chip offset size c.flash }, true)
  | .page offset bytes, c => ({ c with flash := c.flash.pageProgram chip offset bytes }, true)

/-- `flash_protect_disable`. -/
def flashProtectDisable : List FlashStmt := [.readStatus, .volatileEnable, .writeStatus 0]

/-- `flash_protect_enable`. -/
def flashProtectEnable : List FlashStmt :=
  [.readStatus, .volatileEnable, .writeStatus flashBlockProtect]

/-- `qspi_flash_erase`. -/
def qspiFlashEraseCode (offset size : UInt32) : List FlashStmt :=
  flashProtectDisable ++ [.erase offset size] ++ flashProtectEnable

/-- `while(length)` in `qspi_flash_write`: the pieces behind the first. -/
def qspiFlashWriteLoop (offset : UInt32) (buffer : List UInt8) : List FlashStmt :=
  if buffer = [] then []
  else
    let subLength := if buffer.length > 0x100 then 0x100 else buffer.length
    .page offset (buffer.take subLength) ::
      qspiFlashWriteLoop (offset + UInt32.ofNat subLength) (buffer.drop subLength)
termination_by buffer.length
decreasing_by
  next hne =>
    have hpos : 0 < buffer.length := List.length_pos_of_ne_nil hne
    rw [List.length_drop]
    split <;> omega

/-- The calls of `qspi_flash_write_sub`: the first piece ends with its page. -/
def qspiFlashWritePages (offset : UInt32) (buffer : List UInt8) : List FlashStmt :=
  let firstPageLeft := (0x100 - (offset &&& 0xFF)).toNat
  let subLength := if buffer.length > firstPageLeft then firstPageLeft else buffer.length
  .page offset (buffer.take subLength) ::
    qspiFlashWriteLoop (offset + UInt32.ofNat subLength) (buffer.drop subLength)

/-- `qspi_flash_write`, of `length` bytes that are in `buffer`. -/
def qspiFlashWriteCode (offset : UInt32) (buffer : List UInt8) : List FlashStmt :=
  flashProtectDisable ++ qspiFlashWritePages offset buffer ++ flashProtectEnable

/-- Code of the flash functions that nothing interrupts. -/
def runFlashCode (chip : FlashChip) (code : List FlashStmt) (f : Flash) : Flash :=
  (execBlock (FlashStmt.exec chip) code ⟨f, 0⟩).flash

/-- `qspi_flash_erase`, not interrupted. -/
def qspiFlashErase (chip : FlashChip) (offset size : UInt32) (f : Flash) : Flash :=
  runFlashCode chip (qspiFlashEraseCode offset size) f

/-- `qspi_flash_write`, not interrupted. -/
def qspiFlashWrite (chip : FlashChip) (offset : UInt32) (buffer : List UInt8) (f : Flash) :
    Flash :=
  runFlashCode chip (qspiFlashWriteCode offset buffer) f

/-! ## addresses -/

namespace FlashChip

variable (chip : FlashChip)

/-- The number of the sector `n` sectors behind the one of `offset`. -/
def sectorAt (offset : UInt32) (n : Nat) : Nat :=
  (offset.toNat / flashSectorSize + n) % chip.sectors

theorem sectors_pos : 0 < chip.sectors := Nat.pos_of_dvd_of_pos chip.sectors_dvd (by decide)

theorem geometry_sectors : chip.geometry.sectors = chip.sectors :=
  Nat.mul_div_cancel _ (by decide)

/-- Offsets of 24 bits wrap at a multiple of the size. -/
theorem size_dvd : chip.geometry.size ∣ 2 ^ 24 :=
  Nat.mul_dvd_mul_right chip.sectors_dvd flashSectorSize

/-- The sector of an offset. -/
theorem sectorOf_toNat (offset : UInt32) :
    chip.geometry.sectorOf offset.toNat = chip.sectorAt offset 0 := by
  rw [NorGeometry.sectorOf_eq, geometry_sectors]
  rfl

/-- Offsets wrap at a multiple of the size. -/
theorem cell_mod (n : Nat) : chip.geometry.cell (n % 2 ^ 32) = chip.geometry.cell n :=
  Nat.mod_mod_of_dvd n (Nat.dvd_trans chip.size_dvd (by decide))

/-- The sectors behind an offset that may have wrapped. -/
theorem sectorAt_of_toNat {offset : UInt32} {a : Nat} (h : offset.toNat = a % 2 ^ 32) (n : Nat) :
    chip.sectorAt offset n = (a / flashSectorSize + n) % chip.sectors := by
  have hdiv : offset.toNat / flashSectorSize = a / flashSectorSize % 2 ^ 20 := by
    rw [h]
    show a % 2 ^ 32 / 4096 = a / 4096 % 2 ^ 20
    omega
  have hdvd : chip.sectors ∣ 2 ^ 20 := Nat.dvd_trans chip.sectors_dvd (by decide)
  rw [sectorAt, hdiv, Nat.add_mod, Nat.mod_mod_of_dvd _ hdvd, ← Nat.add_mod]

theorem sectorAt_add_sector (offset : UInt32) (n : Nat) :
    chip.sectorAt (offset + 0x1000) n = chip.sectorAt offset (n + 1) := by
  have hdiv : (offset.toNat + (0x1000 : UInt32).toNat) / flashSectorSize =
      offset.toNat / flashSectorSize + 1 := Nat.add_div_right _ (by decide)
  rw [chip.sectorAt_of_toNat (UInt32.toNat_add ..), hdiv, sectorAt, Nat.add_assoc,
    Nat.add_comm 1 n]

end FlashChip

/-- The offset of the sector of an offset. -/
theorem toNat_sectorMask (offset : UInt32) :
    (offset &&& 0xFFFFF000).toNat = offset.toNat / flashSectorSize * flashSectorSize :=
  toNat_and_highMask (by decide : ∀ i (hi : i < 32), (0xFFFFF000 : UInt32).toBitVec[i] =
    decide (12 ≤ i)) offset

/-- Rounding an offset down does not leave its sector. -/
theorem FlashChip.sectorAt_mask (chip : FlashChip) (offset : UInt32) (n : Nat) :
    chip.sectorAt (offset &&& 0xFFFFF000) n = chip.sectorAt offset n := by
  rw [sectorAt, toNat_sectorMask, Nat.mul_div_cancel _ (by decide)]
  rfl

/-- The window shows the chip at its offsets. -/
theorem FlashChip.cell_window (chip : FlashChip) (offset : UInt32) (i : Nat) :
    chip.geometry.cell ((offset ||| 0x20000000).toNat + i) =
      chip.geometry.cell (offset.toNat + i) := by
  have hor : (offset ||| 0x20000000).toNat % 2 ^ 24 = offset.toNat % 2 ^ 24 := by
    rw [UInt32.toNat_or, Nat.or_mod_two_pow]
    simp
  have hmod : ((offset ||| 0x20000000).toNat + i) % 2 ^ 24 = (offset.toNat + i) % 2 ^ 24 := by
    rw [Nat.add_mod, hor, ← Nat.add_mod]
  have hcell : ∀ n, chip.geometry.cell n = chip.geometry.cell (n % 2 ^ 24) :=
    fun n => (Nat.mod_mod_of_dvd n chip.size_dvd).symm
  rw [hcell, hmod, ← hcell]

@[simp] theorem length_flashRead (chip : FlashChip) (offset : UInt32) (n : Nat) (f : Flash) :
    (flashRead chip offset n f).length = n := by
  simp [flashRead]

/-- What is read at an offset that may have wrapped. -/
theorem getElem_flashRead {chip : FlashChip} {offset : UInt32} {a n i : Nat} {f : Flash}
    (h : offset.toNat = a % 2 ^ 32) (hi : i < (flashRead chip offset n f).length) :
    (flashRead chip offset n f)[i] = f.cells (chip.geometry.cell (a + i)) := by
  have hcell : chip.geometry.cell (offset.toNat + i) = chip.geometry.cell (a + i) := by
    rw [← chip.cell_mod, h, Nat.mod_add_mod, chip.cell_mod]
  simp only [flashRead, List.getElem_map, List.getElem_range, FlashChip.cell_window, hcell]

/-! ## what the functions do -/

/-- Erase `n` sectors, starting with the one of `offset`. -/
def Flash.eraseSectors (chip : FlashChip) : Nat → UInt32 → Flash → Flash
  | 0, _, f => f
  | n + 1, offset, f => eraseSectors chip n (offset + 0x1000) (f.sectorErase chip offset)

theorem Flash.eraseSectors_succ (chip : FlashChip) (n : Nat) (offset : UInt32) (f : Flash) :
    f.eraseSectors chip (n + 1) offset =
      (f.sectorErase chip offset).eraseSectors chip n (offset + 0x1000) := by
  simp only [Flash.eraseSectors]

/-- The number of sectors that `flash_erase` erases. -/
def flashEraseCount (size : UInt32) : Nat :=
  if size = 0 then 1 else (size.toNat + 0xFFF) / flashSectorSize

/-- The loop erases the sectors that the size reaches, from the offset on. -/
theorem flashEraseLoop_eq (chip : FlashChip) (offset size : UInt32) (f : Flash) :
    flashEraseLoop chip offset size f =
      f.eraseSectors chip ((size.toNat + 0xFFF) / flashSectorSize) offset := by
  induction offset, size, f using flashEraseLoop.induct chip with
  | case1 offset f => rw [flashEraseLoop, if_pos rfl]; rfl
  | case2 offset size f hne ih =>
      have hpos : size.toNat ≠ 0 := fun hzero => hne (UInt32.toNat_inj.mp hzero)
      have hcount : (size.toNat + 0xFFF) / flashSectorSize =
          ((if size > 0x1000 then size - 0x1000 else 0).toNat + 0xFFF) / flashSectorSize + 1 := by
        show (size.toNat + 4095) / 4096 = (UInt32.toNat _ + 4095) / 4096 + 1
        split
        · next hgt =>
            have hlt : 4096 < size.toNat := UInt32.lt_iff_toNat_lt.mp hgt
            rw [UInt32.toNat_sub_of_le _ _ (UInt32.le_of_lt hgt)]
            show (size.toNat + 4095) / 4096 = (size.toNat - 4096 + 4095) / 4096 + 1
            omega
        · next hle =>
            have hle' : size.toNat ≤ 4096 :=
              Nat.not_lt.mp fun hlt => hle (UInt32.lt_iff_toNat_lt.mpr hlt)
            show (size.toNat + 4095) / 4096 = (0 + 4095) / 4096 + 1
            omega
      simp only [dite_eq_ite] at ih
      rw [flashEraseLoop, if_neg hne, ih, hcount, Flash.eraseSectors_succ]

/-- `flash_erase` erases the sectors of `size` bytes, and at least one. -/
theorem flashErase_eq (chip : FlashChip) (offset size : UInt32) (f : Flash) :
    flashErase chip offset size f =
      f.eraseSectors chip (flashEraseCount size) (offset &&& 0xFFFFF000) := by
  simp only [flashErase, flashEraseLoop_eq, flashEraseCount]
  by_cases hzero : size = 0
  · simp [hzero, flashSectorSize]
  · simp [hzero]

/-- Erasing does not change the status register. -/
@[simp] theorem Flash.status_eraseSectors (chip : FlashChip) (offset : UInt32) (n : Nat)
    (f : Flash) : (f.eraseSectors chip n offset).status = f.status := by
  induction n generalizing offset f with
  | zero => rfl
  | succ n ih => rw [eraseSectors_succ, ih, sectorErase]

/-- The log of `n` erased sectors. -/
theorem Flash.log_eraseSectors (chip : FlashChip) (offset : UInt32) (n : Nat) (f : Flash) :
    (f.eraseSectors chip n offset).log =
      f.log ++ (List.range n).map fun j => .erase (chip.sectorAt offset j) f.status := by
  induction n generalizing offset f with
  | zero => simp [eraseSectors]
  | succ n ih =>
      rw [eraseSectors_succ, ih, List.range_succ_eq_map, List.map_cons, List.map_map]
      simp only [sectorErase, FlashChip.sectorOf_toNat, FlashChip.sectorAt_add_sector,
        List.append_assoc, List.singleton_append]
      rfl

/-- The status register while the flash functions work on the array. -/
def unprotectedStatus (status : BitVec 8) : BitVec 8 := status &&& 0x80

/-- The status without the block protection bits. -/
theorem unprotected_unprotectedStatus (status : BitVec 8) :
    Unprotected (unprotectedStatus status) := by
  revert status
  decide

/-- The chip after `flash_protect_disable`. -/
def Flash.unprotect (f : Flash) : Flash :=
  { f with status := unprotectedStatus f.status, volatileEnabled := false }

/-- The chip after `flash_protect_enable`. -/
def Flash.protect (f : Flash) : Flash :=
  { f with status := unprotectedStatus f.status ||| flashBlockProtect, volatileEnabled := false }

/-- Protecting the chip changes the block protection bits only. -/
@[simp] theorem unprotectedStatus_protect (f : Flash) :
    unprotectedStatus f.protect.status = unprotectedStatus f.status := by
  have hbits : ∀ status : BitVec 8,
      unprotectedStatus (unprotectedStatus status ||| flashBlockProtect) =
        unprotectedStatus status := by decide
  exact hbits f.status

/-- So does unprotecting it. -/
@[simp] theorem unprotectedStatus_unprotect (f : Flash) :
    unprotectedStatus f.unprotect.status = unprotectedStatus f.status := by
  have hbits : ∀ status : BitVec 8,
      unprotectedStatus (unprotectedStatus status) = unprotectedStatus status := by decide
  exact hbits f.status

variable {chip : FlashChip}

/-- An unprotected sector is erased. -/
theorem Flash.cells_sectorErase {f : Flash} {offset : UInt32} (h : Unprotected f.status) :
    (f.sectorErase chip offset).cells = chip.geometry.eraseSector offset.toNat f.cells := if_pos h

/-- An unprotected page is programmed. -/
theorem Flash.cells_pageProgram {f : Flash} {offset : UInt32} {bytes : List UInt8}
    (h : Unprotected f.status) :
    (f.pageProgram chip offset bytes).cells = chip.geometry.program offset.toNat bytes f.cells :=
  if_pos h

/-- No statement returns early. -/
theorem FlashStmt.exec_goes_on (c : FlashStmt) (s : FlashCtx) : (c.exec chip s).2 = true := by
  cases c <;> rfl

/-- `flash_protect_disable` unprotects the chip and keeps its status. -/
theorem execBlock_flashProtectDisable (s : FlashCtx) :
    execBlock (FlashStmt.exec chip) flashProtectDisable s =
      ⟨s.flash.unprotect, s.flash.status⟩ := by
  have hbits : ∀ status : BitVec 8,
      (status &&& 0x83 ||| 0) &&& 0xFC = unprotectedStatus status := by decide
  simp only [execBlock, flashProtectDisable, FlashStmt.exec, Flash.writeVolatileEnable,
    Flash.writeStatus, Flash.unprotect, if_true, hbits]

/-- `flash_protect_enable` protects the chip. -/
theorem execBlock_flashProtectEnable (s : FlashCtx) :
    execBlock (FlashStmt.exec chip) flashProtectEnable s =
      ⟨s.flash.protect, s.flash.status⟩ := by
  have hbits : ∀ status : BitVec 8, (status &&& 0x83 ||| flashBlockProtect) &&& 0xFC =
      unprotectedStatus status ||| flashBlockProtect := by decide
  simp only [execBlock, flashProtectEnable, FlashStmt.exec, Flash.writeVolatileEnable,
    Flash.writeStatus, Flash.protect, if_true, hbits]

/-- Code between the two protection functions works on an unprotected chip. -/
theorem runFlashCode_protected (code : List FlashStmt) (f : Flash) :
    runFlashCode chip (flashProtectDisable ++ code ++ flashProtectEnable) f =
      (execBlock (FlashStmt.exec chip) code ⟨f.unprotect, f.status⟩).flash.protect := by
  rw [runFlashCode, execBlock_append FlashStmt.exec_goes_on,
    execBlock_append FlashStmt.exec_goes_on, execBlock_flashProtectDisable,
    execBlock_flashProtectEnable]

/-- `qspi_flash_erase` erases sectors of an unprotected chip and protects it. -/
theorem qspiFlashErase_eq (offset size : UInt32) (f : Flash) :
    qspiFlashErase chip offset size f =
      (f.unprotect.eraseSectors chip (flashEraseCount size) (offset &&& 0xFFFFF000)).protect := by
  rw [qspiFlashErase, qspiFlashEraseCode, runFlashCode_protected]
  simp [execBlock, FlashStmt.exec, flashErase_eq]

/-- What `qspi_flash_erase` adds to the log. -/
theorem log_qspiFlashErase (offset size : UInt32) (f : Flash) :
    (qspiFlashErase chip offset size f).log =
      f.log ++ (List.range (flashEraseCount size)).map fun j =>
        .erase (chip.sectorAt offset j) (unprotectedStatus f.status) := by
  rw [qspiFlashErase_eq]
  show (Flash.eraseSectors _ _ _ _).log = _
  rw [Flash.log_eraseSectors]
  simp only [FlashChip.sectorAt_mask]
  rfl

@[simp] theorem status_qspiFlashErase (offset size : UInt32) (f : Flash) :
    unprotectedStatus (qspiFlashErase chip offset size f).status = unprotectedStatus f.status := by
  rw [qspiFlashErase_eq]
  simp

/-- The pieces of a write are pages. -/
theorem mem_qspiFlashWriteLoop {offset : UInt32} {buffer : List UInt8} {c : FlashStmt}
    (h : c ∈ qspiFlashWriteLoop offset buffer) : ∃ off bytes, c = .page off bytes := by
  induction offset, buffer using qspiFlashWriteLoop.induct with
  | case1 offset => simp [qspiFlashWriteLoop] at h
  | case2 offset buffer hne subLength ih =>
      rw [qspiFlashWriteLoop, if_neg hne] at h
      cases List.mem_cons.mp h with
      | inl heq => exact ⟨_, _, heq⟩
      | inr hmem => exact ih hmem

/-- Its statements program pages. -/
theorem mem_qspiFlashWritePages {offset : UInt32} {buffer : List UInt8} {c : FlashStmt}
    (h : c ∈ qspiFlashWritePages offset buffer) : ∃ off bytes, c = .page off bytes := by
  cases List.mem_cons.mp h with
  | inl heq => exact ⟨_, _, heq⟩
  | inr hmem => exact mem_qspiFlashWriteLoop hmem

/-- Pages are programmed one after the other; the status register stays. -/
theorem execBlock_pages {code : List FlashStmt}
    (hcode : ∀ c ∈ code, ∃ off bytes, c = .page off bytes) (s : FlashCtx) :
    ∃ ops, (execBlock (FlashStmt.exec chip) code s).flash.log = s.flash.log ++ ops ∧
      (∀ op ∈ ops, ∃ off bytes, op = .program off bytes s.flash.status) ∧
      (execBlock (FlashStmt.exec chip) code s).flash.status = s.flash.status := by
  induction code generalizing s with
  | nil => exact ⟨[], by simp [execBlock], by simp, rfl⟩
  | cons c code ih =>
      obtain ⟨off, bytes, rfl⟩ := hcode c List.mem_cons_self
      obtain ⟨ops, hlog, hops, hstatus⟩ := ih (fun c' hc' => hcode c' (List.mem_cons_of_mem _ hc'))
        ⟨s.flash.pageProgram chip off bytes, s.status⟩
      refine ⟨.program off bytes s.flash.status :: ops, ?_, ?_, hstatus⟩
      · show (execBlock (FlashStmt.exec chip) code
          ⟨s.flash.pageProgram chip off bytes, s.status⟩).flash.log = _
        rw [hlog, Flash.pageProgram]
        simp
      · intro op hop
        cases List.mem_cons.mp hop with
        | inl heq => exact ⟨off, bytes, heq⟩
        | inr hmem => exact hops op hmem

/-- `qspi_flash_write` programs and does not erase. -/
theorem log_qspiFlashWrite (offset : UInt32) (buffer : List UInt8) (f : Flash) :
    ∃ ops, (qspiFlashWrite chip offset buffer f).log = f.log ++ ops ∧
      (∀ op ∈ ops, ∃ off bytes, op = .program off bytes (unprotectedStatus f.status)) ∧
      unprotectedStatus (qspiFlashWrite chip offset buffer f).status =
        unprotectedStatus f.status := by
  obtain ⟨ops, hlog, hops, hstatus⟩ :=
    @execBlock_pages chip _ (fun _ hc => @mem_qspiFlashWritePages offset buffer _ hc)
      ⟨f.unprotect, f.status⟩
  refine ⟨ops, ?_, hops, ?_⟩
  · rw [qspiFlashWrite, qspiFlashWriteCode, runFlashCode_protected]
    exact hlog
  · rw [qspiFlashWrite, qspiFlashWriteCode, runFlashCode_protected, unprotectedStatus_protect,
      hstatus, unprotectedStatus_unprotect]

/-- A call that erases one sector. -/
theorem cells_qspiFlashErase {offset size : UInt32} (hcount : flashEraseCount size = 1)
    (f : Flash) :
    (qspiFlashErase chip offset size f).cells =
      chip.geometry.eraseSector offset.toNat f.cells := by
  have hsector : chip.geometry.sectorOf (offset &&& 0xFFFFF000).toNat =
      chip.geometry.sectorOf offset.toNat := by
    rw [FlashChip.sectorOf_toNat, FlashChip.sectorAt_mask, ← FlashChip.sectorOf_toNat]
  rw [qspiFlashErase_eq, hcount, Flash.eraseSectors_succ]
  simp only [Flash.eraseSectors, Flash.protect]
  rw [Flash.cells_sectorErase (unprotected_unprotectedStatus f.status)]
  exact NorGeometry.eraseSector_congr _ hsector _

/-- A write that stays in its page is one page write. -/
theorem qspiFlashWritePages_eq {offset : UInt32} {buffer : List UInt8}
    (h : offset.toNat % flashPageSize + buffer.length ≤ flashPageSize) :
    qspiFlashWritePages offset buffer = [.page offset buffer] := by
  have hand : (offset &&& 0xFF).toNat = offset.toNat % flashPageSize := by
    rw [UInt32.toNat_and]
    exact Nat.and_two_pow_sub_one_eq_mod offset.toNat 8
  have hlt : (offset &&& 0xFF).toNat < flashPageSize := by
    rw [hand]
    exact Nat.mod_lt _ (by decide)
  have hle : offset &&& 0xFF ≤ 0x100 := UInt32.le_iff_toNat_le.mpr (Nat.le_of_lt hlt)
  have hleft : ¬ buffer.length > (0x100 - (offset &&& 0xFF)).toNat := by
    rw [UInt32.toNat_sub_of_le _ _ hle, hand]
    show ¬ buffer.length > flashPageSize - _
    omega
  simp only [qspiFlashWritePages, hleft, if_false, List.take_length, List.drop_length]
  rw [qspiFlashWriteLoop, if_pos rfl]

/-- A write that stays in its page, done. -/
theorem qspiFlashWrite_eq {offset : UInt32} {buffer : List UInt8}
    (h : offset.toNat % flashPageSize + buffer.length ≤ flashPageSize) (f : Flash) :
    qspiFlashWrite chip offset buffer f =
      (f.unprotect.pageProgram chip offset buffer).protect := by
  rw [qspiFlashWrite, qspiFlashWriteCode, runFlashCode_protected, qspiFlashWritePages_eq h]
  simp only [execBlock, FlashStmt.exec, if_true]

/-- A buffer inside a page is programmed in one go. -/
theorem cells_qspiFlashWrite {offset : UInt32} {buffer : List UInt8}
    (h : offset.toNat % flashPageSize + buffer.length ≤ flashPageSize) (f : Flash) :
    (qspiFlashWrite chip offset buffer f).cells =
      chip.geometry.program offset.toNat buffer f.cells := by
  rw [qspiFlashWrite_eq h]
  exact Flash.cells_pageProgram (unprotected_unprotectedStatus f.status)

/-- That one operation, with the status without protection. -/
theorem log_qspiFlashWrite_page {offset : UInt32} {buffer : List UInt8}
    (h : offset.toNat % flashPageSize + buffer.length ≤ flashPageSize) (f : Flash) :
    (qspiFlashWrite chip offset buffer f).log =
      f.log ++ [.program offset buffer (unprotectedStatus f.status)] := by
  rw [qspiFlashWrite_eq h]
  rfl

end Fr5080
