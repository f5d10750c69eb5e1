import Fr5080.Flash.Pages
import Fr5080.Ota.Crc32

/-!
# Fr5080.Ota.Update

A firmware update: the MCU writes an image to an erased range, request by
request, and lets the DSP check it at the end.

The requests may come in any order and on any channel, overlap, be repeated, and
others that do not change the flash may come in between
(`OtaRequest.IsUpdate`).  What counts is which bytes of the image have been in a
write request (`Covers`): those are in the flash, and no other byte is.
-/

namespace Fr5080

open Embedded

/-- A request of the MCU: the exchange memory when the service looks at it, the channel, and
the registers that `qspi_flash_erase` would find. -/
structure OtaRequest where
  chn : Nat
  shm : Nat → UInt8
  regs : Nat → UInt32

namespace OtaRequest

variable (r : OtaRequest)

/-- `flash_op->opcode`. -/
def opcode : UInt8 := r.shm (ipcGetBufferOffset .mcu2dsp r.chn)

/-- `flash_op->length`. -/
def length : UInt32 := word32 r.shm (ipcGetBufferOffset .mcu2dsp r.chn + 4)

/-- `flash_op->offset`. -/
def offset : UInt32 := word32 r.shm (ipcGetBufferOffset .mcu2dsp r.chn + 8)

/-- `flash_op->p.checksum`. -/
def checksum : UInt32 := word32 r.shm (ipcGetBufferOffset .mcu2dsp r.chn + 12)

/-- The bytes behind `flash_op`. -/
def data : List UInt8 :=
  slice r.shm (ipcGetBufferOffset .mcu2dsp r.chn + ipcMsgFlashOpSize.toNat) r.length.toNat

/-- The request writes byte `i` of what goes to `base`. -/
def Covers (base : UInt32) (i : Nat) : Prop :=
  r.opcode = IpcMsgFlashOpcode.write.code ∧ r.offset.toNat ≤ base.toNat + i ∧
    base.toNat + i < r.offset.toNat + r.length.toNat

instance (base : UInt32) (i : Nat) : Decidable (r.Covers base i) :=
  inferInstanceAs (Decidable (_ ∧ _ ∧ _))

/-- A request of an update of `base` with `image`: it erases and copies nothing, and what it
writes is a part of the image, to the place where it belongs. -/
structure IsUpdate (base : UInt32) (image : List UInt8) : Prop where
  not_erase : r.opcode ≠ IpcMsgFlashOpcode.erase.code
  not_copy : r.opcode ≠ IpcMsgFlashOpcode.copy.code
  part : r.opcode = IpcMsgFlashOpcode.write.code → ∃ k, r.offset.toNat = base.toNat + k ∧
    k + r.length.toNat ≤ image.length ∧ r.data = (image.drop k).take r.length.toNat

end OtaRequest

/-- A request comes in. -/
def OtaSys.receive (s : OtaSys) (r : OtaRequest) : OtaSys :=
  { s with ipc := { s.ipc with shm := r.shm } }

section

variable (chip : FlashChip) (localFlashOp : Nat)

/-- The service takes a request. -/
def otaTake (s : OtaSys) (r : OtaRequest) : OtaSys :=
  otaRecvIpcMsgCrc chip r.regs localFlashOp r.chn (s.receive r)

/-- The requests of an update, one after the other. -/
def otaTakeAll (s : OtaSys) (rs : List OtaRequest) : OtaSys := rs.foldl (otaTake chip localFlashOp) s

end

variable {chip : FlashChip} {localFlashOp : Nat} {s : OtaSys} {r : OtaRequest}
  {base : UInt32} {image : List UInt8}

/-! ## one request -/

/-- A write request programs what it carries. -/
theorem flash_otaRecvIpcMsg_write {regs : Nat → UInt32} {crc : UInt32 → List UInt8 → UInt32}
    {chn : Nat}
    (h : s.ipc.shm (ipcGetBufferOffset .mcu2dsp chn) = IpcMsgFlashOpcode.write.code) :
    (otaRecvIpcMsg chip regs crc localFlashOp chn s).flash =
      qspiFlashWrite chip (word32 s.ipc.shm (ipcGetBufferOffset .mcu2dsp chn + 8))
        (slice s.ipc.shm (ipcGetBufferOffset .mcu2dsp chn + ipcMsgFlashOpSize.toNat)
          (word32 s.ipc.shm (ipcGetBufferOffset .mcu2dsp chn + 4)).toNat) s.flash := by
  simp only [otaRecvIpcMsg, h]
  rw [if_neg (by decide), if_neg (by decide), if_pos trivial]

/-- What neither erases nor copies nor writes leaves the flash alone. -/
theorem flash_otaRecvIpcMsg_of_ne {regs : Nat → UInt32} {crc : UInt32 → List UInt8 → UInt32}
    {chn : Nat}
    (herase : s.ipc.shm (ipcGetBufferOffset .mcu2dsp chn) ≠ IpcMsgFlashOpcode.erase.code)
    (hcopy : s.ipc.shm (ipcGetBufferOffset .mcu2dsp chn) ≠ IpcMsgFlashOpcode.copy.code)
    (hwrite : s.ipc.shm (ipcGetBufferOffset .mcu2dsp chn) ≠ IpcMsgFlashOpcode.write.code) :
    (otaRecvIpcMsg chip regs crc localFlashOp chn s).flash = s.flash := by
  simp only [otaRecvIpcMsg]
  rw [if_neg herase]
  by_cases hread : s.ipc.shm (ipcGetBufferOffset .mcu2dsp chn) = IpcMsgFlashOpcode.read.code
  · rw [if_pos hread]
  · rw [if_neg hread, if_neg hwrite, if_neg hcopy]
    split <;> rfl

/-- A write request is a call of `qspi_flash_write`. -/
theorem flash_otaTake_write (h : r.opcode = IpcMsgFlashOpcode.write.code) :
    (otaTake chip localFlashOp s r).flash = qspiFlashWrite chip r.offset r.data s.flash := by
  have h' : (s.receive r).ipc.shm (ipcGetBufferOffset .mcu2dsp r.chn) =
      IpcMsgFlashOpcode.write.code := h
  rw [otaTake, otaRecvIpcMsgCrc, flash_otaRecvIpcMsg_write h']
  rfl

/-- Requests other than erase, copy and write leave the flash alone. -/
theorem flash_otaTake_of_ne (herase : r.opcode ≠ IpcMsgFlashOpcode.erase.code)
    (hcopy : r.opcode ≠ IpcMsgFlashOpcode.copy.code)
    (hwrite : r.opcode ≠ IpcMsgFlashOpcode.write.code) :
    (otaTake chip localFlashOp s r).flash = s.flash := by
  have hsame := @flash_otaRecvIpcMsg_of_ne chip localFlashOp (s.receive r) r.regs
    (fun crc buf => crc32 crc (some buf)) r.chn herase hcopy hwrite
  rw [otaTake, otaRecvIpcMsgCrc, hsame]
  rfl

/-- A check of the range that has the image. -/
theorem otaTake_checkCrc (hopcode : r.opcode = IpcMsgFlashOpcode.checkCrc.code)
    (hchecksum : r.checksum = crc32 0xffffffff (some image))
    (hread : flashRead chip r.offset r.length.toNat s.flash = image) :
    otaTake chip localFlashOp s r = checkReply localFlashOp r.chn .ok (s.receive r) := by
  have hdata : checkedData chip r.chn (s.receive r) = image := hread
  rw [otaTake, @otaRecvIpcMsgCrc_eq _ _ _ _ (s.receive r) image hopcode hchecksum, hdata,
    if_pos rfl]

/-- Some bytes of the image are in place, and the others are erased. -/
def Updating (chip : FlashChip) (f₀ : Flash) (base : UInt32) (image : List UInt8) (D : Nat → Prop)
    (f : Flash) : Prop :=
  chip.geometry.Filling f₀.cells base.toNat image D f.cells

/-- A request adds the bytes that it covers. -/
theorem Updating.take (localFlashOp : Nat) {f₀ : Flash} {D : Nat → Prop}
    (h : Updating chip f₀ base image D s.flash) (hr : r.IsUpdate base image)
    (hsize : image.length ≤ chip.geometry.size) (hfits : base.toNat + image.length < 2 ^ 32) :
    Updating chip f₀ base image (fun i => D i ∨ r.Covers base i)
      (otaTake chip localFlashOp s r).flash := by
  by_cases hwrite : r.opcode = IpcMsgFlashOpcode.write.code
  · obtain ⟨k, hoffset, hle, hdata⟩ := hr.part hwrite
    have hlen : r.data.length = r.length.toNat := length_slice ..
    have hpieces := @pieces_qspiFlashWritePages r.offset r.data (by omega)
    rw [hoffset, hdata] at hpieces
    have hfilled := h.programPieces chip.geometry hpieces hle hsize
    have hcovers : (fun i => D i ∨ r.Covers base i) =
        fun i => D i ∨ k ≤ i ∧ i < k + r.length.toNat := by
      funext i
      refine propext (or_congr_right ⟨fun hc => ?_, fun hin => ⟨hwrite, ?_, ?_⟩⟩)
      · obtain ⟨-, hlo, hhi⟩ := hc
        omega
      · omega
      · omega
    rw [Updating, flash_otaTake_write hwrite, cells_qspiFlashWrite_pieces, hcovers, hdata]
    exact hfilled
  · have hcovers : (fun i => D i ∨ r.Covers base i) = D := by
      funext i
      exact propext (or_iff_left fun hc => hwrite hc.1)
    rw [flash_otaTake_of_ne hr.not_erase hr.not_copy hwrite, hcovers]
    exact h

/-! ## the update -/

/-- All requests add what they cover. -/
theorem Updating.takeAll (localFlashOp : Nat) {f₀ : Flash} {D : Nat → Prop} {rs : List OtaRequest}
    (h : Updating chip f₀ base image D s.flash) (hrs : ∀ r ∈ rs, r.IsUpdate base image)
    (hsize : image.length ≤ chip.geometry.size) (hfits : base.toNat + image.length < 2 ^ 32) :
    Updating chip f₀ base image (fun i => D i ∨ ∃ r ∈ rs, r.Covers base i)
      (otaTakeAll chip localFlashOp s rs).flash := by
  induction rs generalizing s D with
  | nil => simpa [otaTakeAll] using h
  | cons r rs ih =>
      have hnext := h.take localFlashOp (hrs r List.mem_cons_self) hsize hfits
      have hrest := ih hnext fun r' hr' => hrs r' (List.mem_cons_of_mem r hr')
      simpa only [otaTakeAll, List.foldl_cons, List.exists_mem_cons_iff, or_assoc] using hrest

/-- Where every byte has been covered, the range reads as the image. -/
theorem Updating.flashRead {f₀ f : Flash} {D : Nat → Prop}
    (h : Updating chip f₀ base image D f) (hall : ∀ i < image.length, D i) :
    flashRead chip base image.length f = image := by
  refine List.ext_getElem (length_flashRead ..) fun i hi hi' => ?_
  have hbase : base.toNat = base.toNat % 2 ^ 32 := (Nat.mod_eq_of_lt base.toNat_lt).symm
  rw [getElem_flashRead hbase]
  exact h.filled i hi' (hall i hi')

/-- **An update in any order**: after the requests of an update the flash has the bytes of the
image that were in one of them, the rest of the range is still erased, and nothing else has
changed. Once all bytes were in one, the check of the whole range is answered with
`IPC_MSG_FLASH_OK`. -/
theorem ota_update {rs : List OtaRequest} {check : OtaRequest}
    (hsize : image.length ≤ chip.geometry.size) (hfits : base.toNat + image.length < 2 ^ 32)
    (herased : ∀ i < image.length, s.flash.cells (chip.geometry.cell (base.toNat + i)) = 0xFF)
    (hrs : ∀ r ∈ rs, r.IsUpdate base image)
    (hopcode : check.opcode = IpcMsgFlashOpcode.checkCrc.code) (hoffset : check.offset = base)
    (hlength : check.length.toNat = image.length)
    (hchecksum : check.checksum = crc32 0xffffffff (some image)) :
    let t := otaTakeAll chip localFlashOp s rs
    (∀ i (hi : i < image.length), (∃ r ∈ rs, r.Covers base i) →
        t.flash.cells (chip.geometry.cell (base.toNat + i)) = image[i]) ∧
      (∀ i < image.length, (¬ ∃ r ∈ rs, r.Covers base i) →
        t.flash.cells (chip.geometry.cell (base.toNat + i)) = 0xFF) ∧
      (∀ a, (∀ i < image.length, a ≠ chip.geometry.cell (base.toNat + i)) →
        t.flash.cells a = s.flash.cells a) ∧
      ((∀ i < image.length, ∃ r ∈ rs, r.Covers base i) →
        otaTake chip localFlashOp t check =
          checkReply localFlashOp check.chn .ok (t.receive check)) := by
  have hstart : Updating chip s.flash base image (fun _ => False) s.flash :=
    ⟨fun _ _ hno => hno.elim, fun i hi _ => herased i hi, fun _ _ => rfl⟩
  have hend := hstart.takeAll localFlashOp hrs hsize hfits
  simp only [false_or] at hend
  refine ⟨hend.filled, hend.erased, hend.kept, fun hall => ?_⟩
  refine otaTake_checkCrc hopcode hchecksum ?_
  rw [hoffset, hlength]
  exact hend.flashRead hall

/-! ## three bytes in two parts -/

/-- A request to write `data`. -/
def OtaRequest.writes (chn : Nat) (offset : UInt32) (data : List UInt8) : OtaRequest where
  chn := chn
  shm := store (otaRequest chn .write (UInt32.ofNat data.length) offset 0)
    (ipcGetBufferOffset .mcu2dsp chn + ipcMsgFlashOpSize.toNat) data
  regs := fun _ => 0

/-- A request to check a range. -/
def OtaRequest.checks (chn : Nat) (offset length checksum : UInt32) : OtaRequest where
  chn := chn
  shm := otaRequest chn .checkCrc length offset checksum
  regs := fun _ => 0

section

variable (chn : Nat) (offset length checksum : UInt32)

theorem opcode_checks : (OtaRequest.checks chn offset length checksum).opcode =
    IpcMsgFlashOpcode.checkCrc.code := opcode_otaRequest chn _ length offset checksum

theorem offset_checks : (OtaRequest.checks chn offset length checksum).offset = offset :=
  offset_otaRequest chn _ length offset checksum

theorem length_checks : (OtaRequest.checks chn offset length checksum).length = length :=
  length_otaRequest chn _ length offset checksum

theorem checksum_checks : (OtaRequest.checks chn offset length checksum).checksum = checksum :=
  p_otaRequest chn _ length offset checksum

end

/-- The requests of an update with `[1, 2, 3]`: the second part comes first, the first part
twice, and a check in between. -/
def updateExample : List OtaRequest :=
  [.writes 1 0x1002 [3], .writes 0 0x1000 [1, 2], .checks 0 0x1000 2 7, .writes 0 0x1000 [1, 2]]

/-- The requests of the example belong to its update. -/
theorem isUpdate_updateExample : ∀ r ∈ updateExample, r.IsUpdate 0x1000 [1, 2, 3] := by
  have hfirst : (OtaRequest.writes 0 0x1000 [1, 2]).IsUpdate 0x1000 [1, 2, 3] :=
    ⟨by decide, by decide, fun _ => ⟨0, by decide⟩⟩
  have hsecond : (OtaRequest.writes 1 0x1002 [3]).IsUpdate 0x1000 [1, 2, 3] :=
    ⟨by decide, by decide, fun _ => ⟨2, by decide⟩⟩
  have hcheck : (OtaRequest.checks 0 0x1000 2 7).IsUpdate 0x1000 [1, 2, 3] :=
    ⟨by decide, by decide, fun h => absurd h (by decide)⟩
  simp [updateExample, hfirst, hsecond, hcheck]

/-- The example ends with the image in the flash, and the check agrees. -/
theorem ota_update_example :
    let t := otaTakeAll flashChip1M 0 (.received .read 0 0 0 .blank) updateExample
    let check : OtaRequest := .checks 0 0x1000 3 (crc32 0xffffffff (some [1, 2, 3]))
    t.flash.cells (flashChip1M.geometry.cell 0x1002) = 3 ∧
      t.flash.cells (flashChip1M.geometry.cell 0x1003) = 0xFF ∧
      otaTake flashChip1M 0 t check = checkReply 0 0 .ok (t.receive check) := by
  have h := @ota_update flashChip1M 0 (.received .read 0 0 0 .blank) 0x1000 [1, 2, 3]
    updateExample (.checks 0 0x1000 3 (crc32 0xffffffff (some [1, 2, 3]))) (by decide) (by decide)
    (fun _ _ => rfl) isUpdate_updateExample (opcode_checks ..) (offset_checks ..)
    (congrArg UInt32.toNat (length_checks ..)) (checksum_checks ..)
  obtain ⟨hfilled, -, hkept, hchecked⟩ := h
  have hall : ∀ i < 3, ∃ r ∈ updateExample, r.Covers 0x1000 i := by
    decide
  exact ⟨hfilled 2 (by decide) (hall 2 (by decide)), hkept _ (by decide), hchecked hall⟩

end Fr5080
