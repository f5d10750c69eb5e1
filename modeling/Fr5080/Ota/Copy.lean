import Fr5080.Ota.Erase

/-!
# Fr5080.Ota.Copy

The copy request installs an image: with one sector for each call of
`qspi_flash_erase`, a destination that starts a sector and a source outside of
the destination's sectors, `ota_flash_copy` copies the source.

`OtaCopying` is the state of the flash between two passes of the loop: `t`
bytes are in place and the sectors before `e` have been erased.  An erase
moves `e` to the end of the next sector (`OtaCopying.eraseDst`), a write
moves `t` to the end of the page (`OtaCopying.write`).
-/

namespace Fr5080

open Embedded

/-! ## the log of a copy -/

/-- Sector `k` is erased, and was not protected. -/
def ErasedIn (ops : List FlashOp) (k : Nat) : Prop :=
  ∃ status, Unprotected status ∧ .erase k status ∈ ops

/-- Before a page is programmed its sector is erased. -/
def ErasedFirst (chip : FlashChip) (ops : List FlashOp) : Prop :=
  ∀ i offset bytes status, ops[i]? = some (.program offset bytes status) →
    ErasedIn (ops.take i) (chip.geometry.sectorOf offset.toNat)

variable {chip : FlashChip}

theorem ErasedIn.append {ops : List FlashOp} {k : Nat} (h : ErasedIn ops k)
    (ops' : List FlashOp) : ErasedIn (ops ++ ops') k := by
  obtain ⟨status, hstatus, hmem⟩ := h
  exact ⟨status, hstatus, List.mem_append_left _ hmem⟩

/-- One more operation. -/
theorem ErasedFirst.concat {ops : List FlashOp} {op : FlashOp} (h : ErasedFirst chip ops)
    (hop : ∀ offset bytes status, op = .program offset bytes status →
      ErasedIn ops (chip.geometry.sectorOf offset.toNat)) : ErasedFirst chip (ops ++ [op]) := by
  intro i offset bytes status hget
  by_cases hi : i < ops.length
  · rw [List.getElem?_append_left hi] at hget
    rw [List.take_append_of_le_length (Nat.le_of_lt hi)]
    exact h i offset bytes status hget
  · rw [List.getElem?_append_right (Nat.not_lt.mp hi)] at hget
    cases hzero : i - ops.length with
    | zero =>
        rw [hzero] at hget
        have hlen : i = ops.length := by omega
        rw [hlen, List.take_left']
        · exact hop offset bytes status (Option.some.inj hget)
        · rfl
    | succ n => simp [hzero] at hget

/-! ## the state between two passes -/

/-- `t` bytes of the image are in place, the sectors before `e` have been erased, and this
took `ops`. -/
structure OtaCopying (chip : FlashChip) (f₀ : Flash) (src dst length : UInt32) (t e : Nat)
    (ops : List FlashOp) (f : Flash) : Prop where
  installing : chip.geometry.Installing f₀.cells src.toNat dst.toNat (chip.Targets dst length) t e
    f.cells
  sector : e % flashSectorSize = 0
  le : t ≤ e
  size : e ≤ chip.geometry.size
  log : f.log = f₀.log ++ ops
  first : ErasedFirst chip ops
  erased : ∀ i < e, ErasedIn ops (chip.geometry.sectorOf (dst.toNat + i))

section

variable {regs : Nat → UInt32} {f₀ f : Flash} {src dst length dst' : UInt32} {t e : Nat}
  {ops : List FlashOp}

/-- A sector that is no target leaves room for the targets. -/
theorem add_sector_le_of_not_targets {k : Nat} (hdst : dst.toNat % flashSectorSize = 0)
    (hk : k < chip.geometry.sectors) (hnot : ¬ chip.Targets dst length k) (ht : t < length.toNat)
    (hstart : t % flashSectorSize = 0) : t + flashSectorSize ≤ chip.geometry.size := by
  have hlength : length ≠ 0 := by
    rintro rfl
    exact absurd ht (Nat.not_lt_zero t)
  rw [FlashChip.geometry_sectors] at hk
  have hfew : sectorEnd dst length - sectorStart dst < chip.sectors := by
    by_contra hall
    refine hnot ((targets_iff hlength k).mpr ?_)
    -- the targets would go round the chip and meet `k`
    refine ⟨(k + chip.sectors - sectorStart dst % chip.sectors) % chip.sectors,
      Nat.lt_of_lt_of_le (Nat.mod_lt _ chip.sectors_pos) (Nat.not_lt.mp hall), ?_⟩
    have hmod := Nat.mod_lt (sectorStart dst) chip.sectors_pos
    rw [sectorAt_eq, FlashChip.geometry_sectors, Nat.add_mod_mod, ← Nat.mod_add_mod,
      Nat.add_sub_cancel' (by omega), Nat.add_mod_right, Nat.mod_eq_of_lt hk]
  have hsize : chip.geometry.size = chip.sectors * 4096 := rfl
  unfold sectorEnd sectorStart flashSectorSize at hfew
  unfold flashSectorSize at hdst hstart ⊢
  omega

/-- An offset that may have wrapped selects the same sector. -/
theorem sectorOf_of_toNat {offset : UInt32} {a : Nat} (h : offset.toNat = a % 2 ^ 32) :
    chip.geometry.sectorOf offset.toNat = chip.geometry.sectorOf a := by
  rw [h, NorGeometry.sectorOf, NorGeometry.sectorOf, FlashChip.cell_mod]

/-- It is programmed the same. -/
theorem program_of_toNat {offset : UInt32} {a : Nat} (h : offset.toNat = a % 2 ^ 32)
    {bytes : List UInt8} (hpage : a % flashPageSize + bytes.length ≤ flashPageSize)
    (m : Nat → UInt8) :
    chip.geometry.program offset.toNat bytes m = chip.geometry.program a bytes m := by
  have hmod : offset.toNat % chip.geometry.page = a % flashPageSize := by
    rw [h]
    exact Nat.mod_mod_of_dvd a (show 256 ∣ 2 ^ 32 by decide)
  rw [NorGeometry.program_eq _ a _ _ hpage,
    NorGeometry.program_eq _ offset.toNat _ _ (by rw [hmod]; exact hpage), h, FlashChip.cell_mod]

/-- `if((dst & 0x00000fff) == 0)`: there is room for a page then. -/
theorem OtaCopying.eraseDst (h : OtaCopying chip f₀ src dst length t e ops f) {calls : Nat}
    (hregs : flashEraseCount (regs calls) = 1) (hdst : dst.toNat % flashSectorSize = 0)
    (hsize : t % flashSectorSize = 0 → t + flashSectorSize ≤ chip.geometry.size)
    (hlt : e < t + flashSectorSize) (ht : t < length.toNat)
    (hdst' : dst'.toNat = (dst.toNat + t) % 2 ^ 32) :
    ∃ e' ops', t < e' ∧ e' ≤ t + flashSectorSize ∧
      OtaCopying chip f₀ src dst length t e' ops' (otaEraseDst chip regs calls dst' f).2 := by
  have hcond : dst' &&& 0xFFF = 0 ↔ t % flashSectorSize = 0 := by
    rw [toNat_and_fff, hdst', flashSectorSize]
    unfold flashSectorSize at hdst
    omega
  by_cases hstart : t % flashSectorSize = 0
  · have het : e = t := by
      have hsector := h.sector
      have hle := h.le
      unfold flashSectorSize at hsector hlt hstart
      omega
    subst het
    rw [otaEraseDst, if_pos (hcond.mpr hstart)]
    have hsector := @sectorOf_of_toNat chip _ _ hdst'
    have haligned : (dst.toNat + e) % flashSectorSize = 0 := by
      rw [Nat.add_mod, hdst, hstart]
      rfl
    have hlog := @log_qspiFlashErase chip dst' (regs calls) f
    rw [hregs, List.range_one, List.map_singleton, ← FlashChip.sectorOf_toNat, hsector, h.log,
      List.append_assoc] at hlog
    have htarget : chip.Targets dst length (chip.geometry.sectorOf (dst.toNat + e)) :=
      ⟨e, ht, rfl⟩
    have herase := h.installing.eraseSector haligned (hsize hstart) htarget
    rw [← NorGeometry.eraseSector_congr _ hsector, ← cells_qspiFlashErase hregs] at herase
    refine ⟨e + flashSectorSize, _, Nat.lt_add_of_pos_right (by decide), Nat.le_refl _, herase, ?_,
      Nat.le_add_right _ _, hsize hstart, hlog, h.first.concat ?_, ?_⟩
    · rw [Nat.add_mod_right, hstart]
    · intro _ _ _ heq
      cases heq
    · intro i hi
      by_cases hlt : i < e
      · exact (h.erased i hlt).append _
      · obtain ⟨j, rfl⟩ := Nat.exists_eq_add_of_le (Nat.not_lt.mp hlt)
        have hj : j < chip.geometry.sector := Nat.add_lt_add_iff_left.mp hi
        rw [← Nat.add_assoc, NorGeometry.sectorOf_add _ haligned hj]
        exact ⟨_, unprotected_unprotectedStatus f.status, by simp⟩
  · rw [otaEraseDst, if_neg (mt hcond.mp hstart)]
    refine ⟨e, ops, Nat.lt_of_le_of_ne h.le ?_, Nat.le_of_lt hlt, h⟩
    rintro rfl
    exact hstart h.sector

/-- The page behind those in place is read and written. -/
theorem OtaCopying.write (h : OtaCopying chip f₀ src dst length t e ops f) {src' : UInt32}
    {n : Nat} (hdst : dst.toNat % flashSectorSize = 0) (hpage : t % flashPageSize = 0)
    (hlt : t < e) (hn : n ≤ flashPageSize) (ht : t + n ≤ length.toNat)
    (hsrc : ∀ i < length.toNat,
      ¬ chip.Targets dst length (chip.geometry.sectorOf (src.toNat + i)))
    (hsrc' : src'.toNat = (src.toNat + t) % 2 ^ 32)
    (hdst' : dst'.toNat = (dst.toNat + t) % 2 ^ 32) :
    ∃ ops', OtaCopying chip f₀ src dst length (t + n) e ops'
      (qspiFlashWrite chip dst' (flashRead chip src' n f) f) := by
  have hlen : (flashRead chip src' n f).length = n := length_flashRead ..
  have hstart : (dst.toNat + t) % flashPageSize = 0 := by
    unfold flashSectorSize at hdst
    unfold flashPageSize at hpage ⊢
    omega
  have hstart' : dst'.toNat % flashPageSize = 0 := by
    rw [hdst', ← hstart]
    exact Nat.mod_mod_of_dvd _ (by decide)
  have hle : t + n ≤ e := by
    have hsector := h.sector
    unfold flashSectorSize at hsector
    unfold flashPageSize at hpage hn
    omega
  have hfits : ∀ a, a % flashPageSize = 0 →
      a % flashPageSize + (flashRead chip src' n f).length ≤ flashPageSize := by
    intro a ha
    rw [ha, hlen, Nat.zero_add]
    exact hn
  have hread : ∀ i (hi : i < (flashRead chip src' n f).length),
      (flashRead chip src' n f)[i] = f.cells (chip.geometry.cell (src.toNat + (t + i))) := by
    intro i hi
    rw [getElem_flashRead hsrc', Nat.add_assoc]
  have hprogram := h.installing.program (hfits _ hstart) (by rw [hlen]; exact hle) h.size
    (fun i hi => ⟨t + i, by omega, rfl⟩) (fun i hi => hsrc _ (by omega)) hread
  have hlog := @log_qspiFlashWrite_page chip dst' _ (hfits _ hstart') f
  rw [hlen, ← program_of_toNat hdst' (hfits _ hstart), ← cells_qspiFlashWrite (hfits _ hstart')]
    at hprogram
  rw [h.log, List.append_assoc] at hlog
  refine ⟨_, hprogram, h.sector, hle, h.size, hlog, h.first.concat ?_, ?_⟩
  · intro offset bytes status heq
    cases heq
    rw [sectorOf_of_toNat hdst']
    exact h.erased t hlt
  · intro i hi
    exact (h.erased i hi).append _

/-- The loop, from a pass on. -/
theorem OtaCopying.loop (hregs : ∀ k, flashEraseCount (regs k) = 1)
    (hdst : dst.toNat % flashSectorSize = 0)
    (hsrc : ∀ i < length.toNat,
      ¬ chip.Targets dst length (chip.geometry.sectorOf (src.toNat + i)))
    {calls : Nat} {src' length' : UInt32} (h : OtaCopying chip f₀ src dst length t e ops f)
    (hlt : e < t + flashSectorSize) (hpage : t % flashPageSize = 0 ∨ length' = 0)
    (hlength' : t + length'.toNat = length.toNat)
    (hsrc' : src'.toNat = (src.toNat + t) % 2 ^ 32)
    (hdst' : dst'.toNat = (dst.toNat + t) % 2 ^ 32) :
    ∃ e' ops', OtaCopying chip f₀ src dst length length.toNat e' ops'
      (otaFlashCopyLoop chip regs calls src' dst' length' f) := by
  fun_induction otaFlashCopyLoop chip regs calls src' dst' length' f generalizing t e ops with
  | case1 calls src' dst' f =>
      rw [← hlength']
      exact ⟨e, ops, h⟩
  | case2 calls src' dst' length' f hne erased =>
      rename_i buffer ih
      have hpos : 0 < length'.toNat := Nat.pos_of_ne_zero fun h => hne (UInt32.toNat_inj.mp h)
      have hsub := toNat_otaSubLength length'
      have hleft : (length' - otaSubLength length').toNat =
          length'.toNat - min length'.toNat 0x100 := by
        rw [UInt32.toNat_sub_of_le _ _ (UInt32.le_iff_toNat_le.mpr (by omega)), hsub]
      have ht : t < length.toNat := by omega
      have hpage := hpage.resolve_right hne
      obtain ⟨e1, ops1, hlt1, hle1, herase⟩ := h.eraseDst (hregs calls) hdst
        (add_sector_le_of_not_targets hdst (chip.geometry.sectorOf_lt _) (hsrc t ht) ht) hlt ht
        hdst'
      obtain ⟨ops2, hwrite⟩ := herase.write (n := (otaSubLength length').toNat) hdst hpage hlt1
        (by rw [hsub]; exact Nat.min_le_right _ _) (by omega) hsrc hsrc' hdst'
      refine ih hwrite ?_ ?_ ?_ ?_ ?_
      · omega
      · by_cases hlong : 0x100 < length'.toNat
        · left
          rw [hsub]
          unfold flashPageSize at hpage ⊢
          omega
        · right
          rw [← UInt32.toNat_inj, hleft]
          exact Nat.sub_eq_zero_of_le (by omega)
      · omega
      · rw [UInt32.toNat_add, hsrc', Nat.mod_add_mod, Nat.add_assoc]
      · rw [UInt32.toNat_add, hdst', Nat.mod_add_mod, Nat.add_assoc]

end

/-! ## the copy -/

/-- With one sector for each call, a destination that starts a sector and a source outside of
the sectors of the destination: the destination reads as the source did, the other sectors
are as they were, and no page was programmed before its sector was erased. -/
theorem ota_copy_installs {regs : Nat → UInt32} {src dst length : UInt32}
    (hregs : ∀ k, flashEraseCount (regs k) = 1) (hdst : dst.toNat % flashSectorSize = 0)
    (hsrc : ∀ i < length.toNat,
      ¬ chip.Targets dst length (chip.geometry.sectorOf (src.toNat + i)))
    (f : Flash) :
    let f' := otaFlashCopyLoop chip regs 0 src dst length f
    flashRead chip dst length.toNat f' = flashRead chip src length.toNat f ∧
      (∀ a, ¬ chip.Targets dst length (a / flashSectorSize) → f'.cells a = f.cells a) ∧
      ErasedFirst chip (flashOps f f') := by
  have hstart : OtaCopying chip f src dst length 0 0 [] f :=
    ⟨.zero, rfl, Nat.le_refl 0, Nat.zero_le _, by simp, by simp [ErasedFirst], by simp⟩
  have hloop : ∃ e ops, OtaCopying chip f src dst length length.toNat e ops
      (otaFlashCopyLoop chip regs 0 src dst length f) :=
    hstart.loop hregs hdst hsrc (by decide) (Or.inl rfl) (Nat.zero_add _)
      (Nat.mod_eq_of_lt src.toNat_lt).symm (Nat.mod_eq_of_lt dst.toNat_lt).symm
  obtain ⟨e, ops, h⟩ := hloop
  refine ⟨?_, h.installing.kept, ?_⟩
  · apply List.ext_getElem
    · simp
    · intro i hi hi'
      rw [getElem_flashRead (Nat.mod_eq_of_lt dst.toNat_lt).symm,
        getElem_flashRead (Nat.mod_eq_of_lt src.toNat_lt).symm]
      exact h.installing.copied i (by simpa using hi)
  · rw [flashOps_of_append h.log]
    exact h.first

/-- A flash with something in every sector. -/
def countingFlash : Flash := { Flash.blank with cells := fun a => UInt8.ofNat (a % 251) }

/-- A page and a byte, from the first sector to the third. -/
theorem ota_copy_installs_page :
    let f' := otaFlashCopyLoop flashChip1M (fun _ => 0x1000) 0 0 0x2000 0x101 countingFlash
    flashRead flashChip1M 0x2000 0x101 f' =
        (List.range 0x101).map (fun i => UInt8.ofNat (i % 251)) ∧
      (∀ a, ¬ flashChip1M.Targets 0x2000 0x101 (a / flashSectorSize) →
        f'.cells a = UInt8.ofNat (a % 251)) ∧
      ErasedFirst flashChip1M (flashOps countingFlash f') := by
  have hsrc : ∀ i < (0x101 : UInt32).toNat,
      ¬ flashChip1M.Targets 0x2000 0x101
        (flashChip1M.geometry.sectorOf ((0 : UInt32).toNat + i)) := by
    rintro i hi ⟨j, hj, heq⟩
    rw [NorGeometry.sectorOf_eq, NorGeometry.sectorOf_eq] at heq
    change (0 + i) / 4096 % 256 = (8192 + j) / 4096 % 256 at heq
    change i < 257 at hi
    change j < 257 at hj
    omega
  obtain ⟨hcopied, hkept, hfirst⟩ :=
    @ota_copy_installs flashChip1M (fun _ => 0x1000) 0 0x2000 0x101 (fun _ => by decide) (by decide)
      hsrc countingFlash
  exact ⟨hcopied.trans (by decide +kernel), hkept, hfirst⟩

end Fr5080
