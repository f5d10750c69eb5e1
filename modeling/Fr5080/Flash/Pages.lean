import Fr5080.Flash.Flash

/-!
# Fr5080.Flash.Pages

`qspi_flash_write` of any length.  Its pieces are the buffer in order and none
of them leaves its page, so a page program that wraps inside the page never
does: an erased range becomes the buffer.
-/

namespace Fr5080

open Embedded

/-- The calls `qspi_flash_write_sub(offset, sub_length, buffer)` among the statements. -/
def FlashStmt.piece : FlashStmt → Option (Nat × List UInt8)
  | .page offset bytes => some (offset.toNat, bytes)
  | _ => none

/-- `offset & 0xff`. -/
theorem toNat_pageMask (offset : UInt32) :
    (offset &&& 0xFF).toNat = offset.toNat % flashPageSize := by
  rw [UInt32.toNat_and]
  exact Nat.and_two_pow_sub_one_eq_mod offset.toNat 8

/-- `first_page_left`. -/
theorem toNat_firstPageLeft (offset : UInt32) :
    (0x100 - (offset &&& 0xFF)).toNat = flashPageSize - offset.toNat % flashPageSize := by
  have hlt : offset.toNat % flashPageSize < flashPageSize := Nat.mod_lt _ (by decide)
  have hle : offset &&& 0xFF ≤ 0x100 := by
    refine UInt32.le_iff_toNat_le.mpr ?_
    rw [toNat_pageMask]
    exact Nat.le_of_lt hlt
  rw [UInt32.toNat_sub_of_le _ _ hle, toNat_pageMask]
  rfl

/-- The offset of the next piece. -/
theorem toNat_offset_add {offset : UInt32} {n : Nat} (h : offset.toNat + n < 2 ^ 32) :
    (offset + UInt32.ofNat n).toNat = offset.toNat + n := by
  simp only [UInt32.toNat_add, UInt32.toNat_ofNat']
  omega

/-! ## the pieces -/

/-- The pieces of `while(length)`: `offset` is the start of a page, or nothing is left. -/
theorem pieces_qspiFlashWriteLoop {offset : UInt32} {buffer : List UInt8}
    (hfits : offset.toNat + buffer.length < 2 ^ 32)
    (hstart : buffer = [] ∨ offset.toNat % flashPageSize = 0) :
    NorGeometry.Pieces flashPageSize offset.toNat buffer
      ((qspiFlashWriteLoop offset buffer).filterMap FlashStmt.piece) := by
  induction offset, buffer using qspiFlashWriteLoop.induct with
  | case1 offset =>
      rw [qspiFlashWriteLoop, if_pos rfl]
      rfl
  | case2 offset buffer hne subLength ih =>
      rw [qspiFlashWriteLoop, if_neg hne]
      have halign : offset.toNat % flashPageSize = 0 := hstart.resolve_left hne
      have hsub : (if buffer.length > 0x100 then 0x100 else buffer.length) =
          min 0x100 buffer.length := by
        split <;> omega
      have hnext : (offset + UInt32.ofNat (min 0x100 buffer.length)).toNat =
          offset.toNat + min 0x100 buffer.length := toNat_offset_add (by omega)
      simp only [hsub]
      simp only [subLength, dite_eq_ite, hsub, hnext, List.length_drop] at ih
      have hpage : flashPageSize = 0x100 := rfl
      have hrest := ih (by omega) (by
        by_cases hgt : 0x100 < buffer.length
        · right
          rw [hpage] at halign ⊢
          omega
        · left
          exact List.drop_eq_nil_of_le (by omega))
      refine ⟨rfl, List.take_prefix _ _, ?_, ?_⟩
      · rw [List.length_take, halign]
        omega
      · have hlen : (buffer.take (min 0x100 buffer.length)).length = min 0x100 buffer.length := by
          rw [List.length_take]
          omega
        rw [hlen]
        exact hrest

/-- The pieces of `qspi_flash_write`. -/
theorem pieces_qspiFlashWritePages {offset : UInt32} {buffer : List UInt8}
    (hfits : offset.toNat + buffer.length < 2 ^ 32) :
    NorGeometry.Pieces flashPageSize offset.toNat buffer
      ((qspiFlashWritePages offset buffer).filterMap FlashStmt.piece) := by
  have hpage : flashPageSize = 0x100 := rfl
  have hmod : offset.toNat % flashPageSize < flashPageSize := Nat.mod_lt _ (by decide)
  have hsub : (if buffer.length > flashPageSize - offset.toNat % flashPageSize then
      flashPageSize - offset.toNat % flashPageSize else buffer.length) =
        min (flashPageSize - offset.toNat % flashPageSize) buffer.length := by
    split <;> omega
  simp only [qspiFlashWritePages, toNat_firstPageLeft, hsub]
  generalize hn : min (flashPageSize - offset.toNat % flashPageSize) buffer.length = n
  have hnext : (offset + UInt32.ofNat n).toNat = offset.toNat + n := toNat_offset_add (by omega)
  have hrest := @pieces_qspiFlashWriteLoop (offset + UInt32.ofNat n) (buffer.drop n)
    (by rw [hnext, List.length_drop]; omega)
    (by
      rw [hnext]
      by_cases hgt : n < buffer.length
      · right
        rw [hpage] at hn ⊢
        omega
      · left
        exact List.drop_eq_nil_of_le (by omega))
  rw [hnext] at hrest
  have hlen : (buffer.take n).length = n := by
    rw [List.length_take]
    omega
  refine ⟨rfl, List.take_prefix _ _, ?_, ?_⟩
  · rw [hlen]
    omega
  · rw [hlen]
    exact hrest

/-! ## the chip -/

variable {chip : FlashChip}

/-- Pages that are programmed on an unprotected chip. -/
theorem cells_execBlock_pages {code : List FlashStmt}
    (hcode : ∀ c ∈ code, ∃ off bytes, c = .page off bytes) (s : FlashCtx)
    (h : Unprotected s.flash.status) :
    (execBlock (FlashStmt.exec chip) code s).flash.cells =
      chip.geometry.programPieces (code.filterMap FlashStmt.piece) s.flash.cells := by
  induction code generalizing s with
  | nil => rfl
  | cons c code ih =>
      obtain ⟨off, bytes, rfl⟩ := hcode c List.mem_cons_self
      have hrest := ih (fun c' hc' => hcode c' (List.mem_cons_of_mem _ hc'))
        ⟨s.flash.pageProgram chip off bytes, s.status⟩ h
      simp only [Flash.cells_pageProgram h] at hrest
      exact hrest

/-- `qspi_flash_write` programs its pieces. -/
theorem cells_qspiFlashWrite_pieces (offset : UInt32) (buffer : List UInt8) (f : Flash) :
    (qspiFlashWrite chip offset buffer f).cells =
      chip.geometry.programPieces
        ((qspiFlashWritePages offset buffer).filterMap FlashStmt.piece) f.cells := by
  rw [qspiFlashWrite, qspiFlashWriteCode, runFlashCode_protected]
  exact cells_execBlock_pages (fun _ hc => mem_qspiFlashWritePages hc) _
    (unprotected_unprotectedStatus f.status)

/-- The calls of `qspi_flash_write_sub` are the buffer in consecutive pieces, each inside a page;
on a chip that is erased there, the range becomes the buffer and nothing else changes. -/
theorem flash_write_page_safe (offset : UInt32) (buffer : List UInt8)
    (hfits : offset.toNat + buffer.length < 2 ^ 32) :
    (∀ c ∈ qspiFlashWritePages offset buffer, ∃ off bytes, c = .page off bytes) ∧
    NorGeometry.Pieces flashPageSize offset.toNat buffer
      ((qspiFlashWritePages offset buffer).filterMap FlashStmt.piece) ∧
    ∀ (chip : FlashChip) (f : Flash), buffer.length ≤ chip.geometry.size →
      (∀ i < buffer.length, f.cells (chip.geometry.cell (offset.toNat + i)) = 0xFF) →
      (∀ i (hi : i < buffer.length), (qspiFlashWrite chip offset buffer f).cells
        (chip.geometry.cell (offset.toNat + i)) = buffer[i]) ∧
      ∀ a, (∀ i < buffer.length, a ≠ chip.geometry.cell (offset.toNat + i)) →
        (qspiFlashWrite chip offset buffer f).cells a = f.cells a := by
  have hpieces := pieces_qspiFlashWritePages hfits
  refine ⟨fun _ hc => mem_qspiFlashWritePages hc, hpieces, fun chip f hsize herased => ?_⟩
  rw [cells_qspiFlashWrite_pieces]
  constructor
  · exact chip.geometry.programPieces_erased hpieces f.cells hsize herased
  · exact chip.geometry.programPieces_of_ne hpieces f.cells

/-- An erased chip. -/
def erasedFlash : Flash := ⟨fun _ => 0xFF, 0x1C, false, []⟩

/-- Forty bytes across the end of a page. -/
theorem flash_write_page_safe_crossing :
    NorGeometry.Pieces flashPageSize 0xF0 (List.replicate 40 7)
      ((qspiFlashWritePages 0xF0 (List.replicate 40 7)).filterMap FlashStmt.piece) ∧
    (qspiFlashWrite flashChip1M 0xF0 (List.replicate 40 7) erasedFlash).cells
      (flashChip1M.geometry.cell (0xF0 + 39)) = 7 := by
  have h := flash_write_page_safe 0xF0 (List.replicate 40 7) (by decide)
  exact ⟨h.2.1, (h.2.2 flashChip1M erasedFlash (by decide) (fun _ _ => rfl)).1 39 (by decide)⟩

end Fr5080
