import Fr5080.Embedded.Word
import Fr5080.Ipc.Driver

/-!
# Fr5080.Ota.Ota

The flash read of the OTA service (`src/components/module/ota/ota.c` of
`fr5080_user_code_xip`).  A request lies in the exchange memory as a
`struct ipc_msg_flash_op_t`; the reply is sent from the static
`local_flash_op`, which lives in the memory of the callers like the
memory-mapped flash does.
-/

namespace Fr5080

open Embedded

/-! ## `ipc_msg_flash_op_t` -/

/-- `sizeof(struct ipc_msg_flash_op_t)`: opcode, status, a reserved half
word, length, offset and the union `p`. -/
def ipcMsgFlashOpSize : UInt16 := 16

/-- `ipc_msg_flash_opcode_t`. -/
inductive IpcMsgFlashOpcode
  | erase
  | eraseAck
  | read
  | readAck
  | write
  | writeAck
  | copy
  | copyAck
  | checkCrc
  | checkCrcAck
deriving DecidableEq, Repr

/-- The value of an enumerator. -/
def IpcMsgFlashOpcode.code : IpcMsgFlashOpcode → UInt8
  | .erase => 0
  | .eraseAck => 1
  | .read => 2
  | .readAck => 3
  | .write => 4
  | .writeAck => 5
  | .copy => 6
  | .copyAck => 7
  | .checkCrc => 8
  | .checkCrcAck => 9

/-- `ipc_msg_flash_status_t`. -/
inductive IpcMsgFlashStatus
  | ok
  | error
deriving DecidableEq, Repr

/-- The value of an enumerator. -/
def IpcMsgFlashStatus.code : IpcMsgFlashStatus → UInt8
  | .ok => 0
  | .error => 1

/-! ## the read -/

/-- `QSPI1_DAC_ADDRESS`. -/
def qspi1DacAddress : UInt32 := 0x20000000

/-- Fill the fields of a reply in `local_flash_op`, at address `localFlashOp`;
the reserved half word and the union keep their values. -/
def otaFillReply (localFlashOp : Nat) (opcode : IpcMsgFlashOpcode) (status : IpcMsgFlashStatus)
    (length offset : UInt32) (ram : Nat → UInt8) : Nat → UInt8 :=
  store (store ram localFlashOp [opcode.code, status.code]) (localFlashOp + 4)
    (bytes32 length ++ bytes32 offset)

/-- The memory of the callers once the reply to the read request on channel
`chn` is filled in. -/
def otaReadRam (localFlashOp chn : Nat) (s : Ipc) : Nat → UInt8 :=
  let buffer := ipcGetBufferOffset .mcu2dsp chn
  otaFillReply localFlashOp .readAck .ok (word32 s.shm (buffer + 4)) (word32 s.shm (buffer + 8))
    s.ram

/-- The case `IPC_MSG_FLASH_READ` of `ota_recv_ipc_msg`, for a request on
channel `chn`: the length is converted to the 16 bits of the parameter. -/
def otaRecvIpcMsgRead (localFlashOp chn : Nat) (s : Ipc) : Ipc :=
  let buffer := ipcGetBufferOffset .mcu2dsp chn
  let length := word32 s.shm (buffer + 4)
  let offset := word32 s.shm (buffer + 8)
  let s := { s with ram := otaReadRam localFlashOp chn s }
  ipcMsgWithPayloadSend .flashOperation localFlashOp ipcMsgFlashOpSize
    (offset ||| qspi1DacAddress).toNat length.toUInt16 none s

end Fr5080
