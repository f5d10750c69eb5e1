import Fr5080.Flash.Flash
import Fr5080.Ota.Ota

/-!
# Fr5080.Ota.Service

The OTA service (`ota.c` of `fr5080_user_code_xip`) with the flash it works
on: `ota_recv_ipc_msg` serves one request of the MCU, which lies in the
exchange memory.

`ota.c` declares `qspi_flash_erase` with the offset only, while `qspi.c`
defines it with offset and size.  The size is then whatever the register of
the second argument holds, so it is an oracle here: `regs k` is its value at
the call number `k` of the request.

`crc32` is the library function; nothing here depends on what it computes.
-/

namespace Fr5080

open Embedded

/-- The IPC driver and the flash. -/
structure OtaSys where
  ipc : Ipc
  flash : Flash

/-- `IPC_SUB_MSG_FLASH_COPY_ACK`. -/
def ipcSubMsgFlashCopyAck : UInt16 := 5

/-! ## the loops -/

section

variable (chip : FlashChip) (regs : Nat → UInt32)

/-- The loop of `case IPC_MSG_FLASH_ERASE`, after `calls` calls of `qspi_flash_erase`. -/
def otaEraseLoop (calls : Nat) (offset length : UInt32) (f : Flash) : Flash :=
  if length = 0 then f
  else if length > 0x1000 then
    otaEraseLoop (calls + 1) (offset + 0x1000) (length - 0x1000)
      (qspiFlashErase chip offset (regs calls) f)
  else qspiFlashErase chip offset (regs calls) f
termination_by length.toNat
decreasing_by
  next hgt => exact UInt32.lt_iff_toNat_lt.mp (UInt32.sub_lt (by decide) (UInt32.le_of_lt hgt))

/-- `sub_length` of `ota_flash_copy`. -/
def otaSubLength (length : UInt32) : UInt32 := if length > 0x100 then 0x100 else length

/-- `if((dst & 0x00000fff) == 0) qspi_flash_erase(dst)`, and the number of calls after it. -/
def otaEraseDst (calls : Nat) (dst : UInt32) (f : Flash) : Nat × Flash :=
  if dst &&& 0xFFF = 0 then (calls + 1, qspiFlashErase chip dst (regs calls) f) else (calls, f)

/-- The loop of `ota_flash_copy`. -/
def otaFlashCopyLoop (calls : Nat) (src dst length : UInt32) (f : Flash) : Flash :=
  if length = 0 then f
  else
    let erased := otaEraseDst chip regs calls dst f
    let buffer := flashRead chip src (otaSubLength length).toNat erased.2
    otaFlashCopyLoop erased.1 (src + otaSubLength length) (dst + otaSubLength length)
      (length - otaSubLength length) (qspiFlashWrite chip dst buffer erased.2)
termination_by length.toNat
decreasing_by
  next hne =>
    have hpos : 0 < length := UInt32.pos_iff_ne_zero.mpr hne
    refine UInt32.lt_iff_toNat_lt.mp ?_
    unfold otaSubLength
    split
    · next hgt => exact UInt32.sub_lt (by decide) (UInt32.le_of_lt hgt)
    · rw [UInt32.sub_self]
      exact hpos

/-! ## the service -/

variable (crc32 : UInt32 → List UInt8 → UInt32) (localFlashOp chn : Nat)

/-- The reply in `local_flash_op`, without payload. -/
def otaReply (opcode : IpcMsgFlashOpcode) (status : IpcMsgFlashStatus) (length offset : UInt32)
    (s : Ipc) : Ipc :=
  ipcMsgWithPayloadSend .flashOperation localFlashOp ipcMsgFlashOpSize 0 0 none
    { s with ram := otaFillReply localFlashOp opcode status length offset s.ram }

/-- `ota_recv_ipc_msg` for the request on channel `chn`.  After a copy the processor waits
for its reset; this is the state in which it does. -/
def otaRecvIpcMsg (s : OtaSys) : OtaSys :=
  let buffer := ipcGetBufferOffset .mcu2dsp chn
  let opcode := s.ipc.shm buffer
  let length := word32 s.ipc.shm (buffer + 4)
  let offset := word32 s.ipc.shm (buffer + 8)
  let p := word32 s.ipc.shm (buffer + 12)
  if opcode = IpcMsgFlashOpcode.erase.code then
    { ipc := otaReply localFlashOp .eraseAck .ok length offset s.ipc
      flash := otaEraseLoop chip regs 0 (offset &&& 0xFFFFF000) length s.flash }
  else if opcode = IpcMsgFlashOpcode.read.code then
    { s with ipc := otaRecvIpcMsgRead localFlashOp chn s.ipc }
  else if opcode = IpcMsgFlashOpcode.write.code then
    { ipc := otaReply localFlashOp .writeAck .ok length offset s.ipc
      flash := qspiFlashWrite chip offset
        (slice s.ipc.shm (buffer + ipcMsgFlashOpSize.toNat) length.toNat) s.flash }
  else if opcode = IpcMsgFlashOpcode.copy.code then
    { ipc := ipcMsgSend .withoutPayload ipcSubMsgFlashCopyAck none s.ipc
      flash := otaFlashCopyLoop chip regs 0 offset p length s.flash }
  else if opcode = IpcMsgFlashOpcode.checkCrc.code then
    let result := crc32 0xFFFFFFFF (flashRead chip offset length.toNat s.flash)
    let status : IpcMsgFlashStatus := if result = p then .ok else .error
    { s with ipc := otaReply localFlashOp .checkCrcAck status length offset s.ipc }
  else s

end

/-! ## requests -/

/-- The exchange memory with a request of the MCU on channel `chn`. -/
def otaRequest (chn : Nat) (opcode : IpcMsgFlashOpcode) (length offset p : UInt32) :
    Nat → UInt8 :=
  store (fun _ => 0) (ipcGetBufferOffset .mcu2dsp chn)
    ([opcode.code, 0, 0, 0] ++ (bytes32 length ++ (bytes32 offset ++ bytes32 p)))

section

variable (chn : Nat) (opcode : IpcMsgFlashOpcode) (length offset p : UInt32)

/-- The opcode is the first byte. -/
theorem opcode_otaRequest :
    otaRequest chn opcode length offset p (ipcGetBufferOffset .mcu2dsp chn) = opcode.code :=
  store_add _ _ _ 0 (by simp)

/-- The length is the second word. -/
theorem length_otaRequest :
    word32 (otaRequest chn opcode length offset p) (ipcGetBufferOffset .mcu2dsp chn + 4) =
      length :=
  word32_store_bytes32 _ _ [opcode.code, 0, 0, 0] _ length

/-- The offset is the third word. -/
theorem offset_otaRequest :
    word32 (otaRequest chn opcode length offset p) (ipcGetBufferOffset .mcu2dsp chn + 8) =
      offset := by
  have h := word32_store_bytes32 (fun _ => 0) (ipcGetBufferOffset .mcu2dsp chn)
    ([opcode.code, 0, 0, 0] ++ bytes32 length) (bytes32 p) offset
  rwa [List.append_assoc] at h

/-- The pointer is the last word. -/
theorem p_otaRequest :
    word32 (otaRequest chn opcode length offset p) (ipcGetBufferOffset .mcu2dsp chn + 12) =
      p := by
  have h := word32_store_bytes32 (fun _ => 0) (ipcGetBufferOffset .mcu2dsp chn)
    ([opcode.code, 0, 0, 0] ++ bytes32 length ++ bytes32 offset) [] p
  rwa [List.append_nil, List.append_assoc, List.append_assoc] at h

end

end Fr5080
