import Fr5080.Ota.Ota
import Fr5080.Flash.Flash

/-!
# Fr5080.Boot.Loader

The UART boot loader (`uart_boot.c` of `fr5080_basic` and `fr5080_basic_xip`):
`app_boot_process_cmd` answers one request of the host, which lies in
`boot_recv_buffer`, with a header that it builds in `boot_send_buffer`;
`app_boot_host_comm_loop` receives the requests.

The two projects differ in the place and the start contents of the buffers and
in the destination of `flash_read`: `fr5080_basic` reads into the request.

The headers are packed structs that are accessed through pointers, so everything
is bytes in one memory.  The local variable `rsp_header` has no value for an opcode
without a `case`; `uninit` is what it holds then.  `stores` and `rsps` are history
variables.
-/

namespace Fr5080

open Embedded

/-! ## data -/

/-- `enum update_param_opcode_t`. -/
inductive UpOpcode
  | getType
  | sendType
  | write
  | writeAck
  | writeRam
  | writeRamAck
  | readEnable
  | readEnableAck
  | read
  | readAck
  | readRam
  | readRamAck
  | blockErase
  | blockEraseAck
  | chipErase
  | chipEraseAck
  | disconnect
  | disconnectAck
  | changeBandrate
  | changeBandrateAck
  | error
  | executeCode
  | bootRam
  | executeCodeEnd
  | bootRamAck
  | calcCrc32
  | calcCrc32Ack
deriving DecidableEq, Repr

/-- The value of an enumerator. -/
def UpOpcode.code (opcode : UpOpcode) : UInt8 := UInt8.ofNat opcode.ctorIdx

/-- `UP_RESULT_CONTINUE`; every other result ends the loop. -/
def upResultContinue : UInt8 := 0

/-- `struct update_param_header_t`. -/
structure UpdateParamHeader where
  code : UInt8
  address : UInt32
  length : UInt16
deriving DecidableEq, Repr

/-- `sizeof(struct update_param_header_t)`. -/
def updateParamHeaderSize : Nat := 7

/-- The header at an address. -/
def UpdateParamHeader.read (m : Nat → UInt8) (a : Nat) : UpdateParamHeader :=
  ⟨m a, word32 m (a + 1), word16 m (a + 5)⟩

/-- The bytes of a header. -/
def UpdateParamHeader.bytes (h : UpdateParamHeader) : List UInt8 :=
  [h.code] ++ bytes32 h.address ++ bytes16 h.length

/-- The flash as the functions of `flash.c` show it: `read` is what `flash_read` delivers. -/
structure FlashDev (φ : Type) where
  write : UInt32 → List UInt8 → φ → φ
  erase : UInt32 → UInt32 → φ → φ
  read : φ → UInt32 → Nat → List UInt8
  length_read : ∀ f offset n, (read f offset n).length = n

/-- `flash_write` of `fr5080_basic`: a `memcpy` to the window at `QSPI1_DAC_ADDRESS`, of which
each byte is a write of its own. -/
def flashWrite (chip : FlashChip) (offset : UInt32) (bytes : List UInt8) (f : Flash) : Flash :=
  bytes.zipIdx.foldl
    (fun f b => f.pageProgram chip ((offset ||| 0x20000000) + UInt32.ofNat b.2) [b.1]) f

/-- The flash of the DSP. -/
def FlashChip.dev (chip : FlashChip) : FlashDev Flash where
  write := flashWrite chip
  erase := flashErase chip
  read f offset n := flashRead chip offset n f
  length_read f offset n := length_flashRead chip offset n f

/-- A call of `app_boot_send_rsp`: the buffer, and the bytes that are sent. -/
structure BootRsp where
  buffer : Nat
  bytes : List UInt8
deriving DecidableEq, Repr

/-- What `app_boot_process_cmd` works on. -/
structure Boot (φ : Type) where
  mem : Nat → UInt8
  flash : φ
  /-- the arguments of `uart_init` so far -/
  baud : List UInt8
  /-- the stores of `app_boot_process_cmd`, address and bytes -/
  stores : List (Nat × List UInt8)
  rsps : List BootRsp

/-- The two copies of the program. -/
inductive BootProject
  | basic
  | xip
deriving DecidableEq, Repr

/-- Where `boot_send_buffer` and `boot_recv_buffer` are. -/
structure BootBuffers where
  send : Nat
  recv : Nat
  send_ne : send ≠ 0
  disjoint : send + 0x200 ≤ recv ∨ recv + 0x200 ≤ send

/-- The buffers of `fr5080_basic_xip`. -/
def BootBuffers.xip : BootBuffers := ⟨0x184000, 0x184200, by decide, by decide⟩

/-! ## `app_boot_process_cmd` -/

section

variable {φ : Type}

/-- A store through a pointer. -/
def Boot.poke (a : Nat) (bytes : List UInt8) (s : Boot φ) : Boot φ :=
  { s with mem := store s.mem a bytes, stores := s.stores ++ [(a, bytes)] }

/-- `rsp_header->code = …`. -/
def Boot.setCode (rspHeader : Nat) (opcode : UpOpcode) (s : Boot φ) : Boot φ :=
  s.poke rspHeader [opcode.code]

/-- `rsp_header->address = …`. -/
def Boot.setAddress (rspHeader : Nat) (address : UInt32) (s : Boot φ) : Boot φ :=
  s.poke (rspHeader + 1) (bytes32 address)

/-- `rsp_header->length = …`. -/
def Boot.setLength (rspHeader : Nat) (length : UInt16) (s : Boot φ) : Boot φ :=
  s.poke (rspHeader + 5) (bytes16 length)

/-- The three fields of an acknowledgement that repeats address and length of the request. -/
def Boot.setEcho (rspHeader : Nat) (opcode : UpOpcode) (req : UpdateParamHeader) (s : Boot φ) :
    Boot φ :=
  ((s.setCode rspHeader opcode).setAddress rspHeader req.address).setLength rspHeader req.length

/-- `app_boot_send_rsp`, the callback: `uart_write(buffer, length, NULL)`. -/
def appBootSendRsp (buffer : Nat) (length : UInt16) (s : Boot φ) : Boot φ :=
  { s with rsps := s.rsps ++ [⟨buffer, slice s.mem buffer length.toNat⟩] }

/-- `uart_init`. -/
def Boot.uartInit (bandrate : UInt8) (s : Boot φ) : Boot φ :=
  { s with baud := s.baud ++ [bandrate] }

/-- The variables of `app_boot_process_cmd` behind the `switch`. -/
structure BootArm (φ : Type) where
  rspHeader : Nat
  rspLength : UInt32
  result : UInt8
  boot : Boot φ

variable (project : BootProject) (dev : FlashDev φ) (getBuffer : UInt32 → Nat)
  (data uninit : Nat)

/-- `flash_write`. -/
def Boot.flashWrite (offset : UInt32) (length : UInt16) (buffer : Nat) (s : Boot φ) : Boot φ :=
  { s with flash := dev.write offset (slice s.mem buffer length.toNat) s.flash }

/-- `flash_read`. -/
def Boot.flashRead (offset : UInt32) (length : UInt16) (buffer : Nat) (s : Boot φ) : Boot φ :=
  s.poke buffer (dev.read s.flash offset length.toNat)

/-- `flash_erase`. -/
def Boot.flashErase (offset size : UInt32) (s : Boot φ) : Boot φ :=
  { s with flash := dev.erase offset size s.flash }

/-- Where `case UP_OPCODE_READ` lets `flash_read` put the data. -/
def bootReadBuffer (rspHeader : Nat) : Nat :=
  match project with
  | .basic => data + updateParamHeaderSize
  | .xip => rspHeader + updateParamHeaderSize

/-- `switch(req_header->code)`. -/
def appBootSwitch (req : UpdateParamHeader) (s : Boot φ) : BootArm φ :=
  let rspLength : UInt32 := 7
  if req.code = UpOpcode.getType.code then
    let rspHeader := getBuffer 7
    ⟨rspHeader, rspLength, upResultContinue,
      if rspHeader ≠ 0 then (s.setCode rspHeader .sendType).setAddress rspHeader 0x01 else s⟩
  else if req.code = UpOpcode.write.code then
    let rspHeader := getBuffer 7
    ⟨rspHeader, rspLength, upResultContinue,
      if rspHeader ≠ 0 then
        (s.flashWrite dev req.address req.length (data + updateParamHeaderSize)).setEcho
          rspHeader .writeAck req
      else s⟩
  else if req.code = UpOpcode.read.code then
    let rspLength := rspLength + req.length.toUInt32
    let rspHeader := getBuffer rspLength
    ⟨rspHeader, rspLength, upResultContinue,
      if rspHeader ≠ 0 then
        (s.flashRead dev req.address req.length (bootReadBuffer project data rspHeader)).setEcho
          rspHeader .readAck req
      else s⟩
  else if req.code = UpOpcode.writeRam.code then
    let rspHeader := getBuffer rspLength
    ⟨rspHeader, rspLength, upResultContinue, s.setEcho rspHeader .writeRamAck req⟩
  else if req.code = UpOpcode.readEnable.code then
    let rspHeader := getBuffer rspLength
    ⟨rspHeader, rspLength, upResultContinue, s.setEcho rspHeader .readEnableAck req⟩
  else if req.code = UpOpcode.blockErase.code then
    let rspHeader := getBuffer 7
    ⟨rspHeader, rspLength, upResultContinue,
      if rspHeader ≠ 0 then
        (s.flashErase dev req.address 0x1000).setEcho rspHeader .blockEraseAck req
      else s⟩
  else if req.code = UpOpcode.disconnect.code then
    let rspHeader := getBuffer 7
    ⟨rspHeader, rspLength, req.address.toUInt8,
      if rspHeader ≠ 0 then s.setCode rspHeader .disconnectAck else s⟩
  else if req.code = UpOpcode.changeBandrate.code then
    let rspHeader := getBuffer 7
    let s := if rspHeader ≠ 0 then s.setCode rspHeader .changeBandrateAck else s
    ⟨rspHeader, rspLength, upResultContinue,
      (appBootSendRsp rspHeader rspLength.toUInt16 s).uartInit req.address.toUInt8⟩
  else ⟨uninit, rspLength, upResultContinue, s⟩

/-- `app_boot_process_cmd(data, get_buffer, app_boot_send_rsp)`: its result and what it does. -/
def appBootProcessCmd (s : Boot φ) : UInt8 × Boot φ :=
  let req := UpdateParamHeader.read s.mem data
  let arm := appBootSwitch project dev getBuffer data uninit req s
  -- the code is read again, from the request as it is now
  if arm.boot.mem data ≠ UpOpcode.changeBandrate.code then
    (arm.result, appBootSendRsp arm.rspHeader arm.rspLength.toUInt16 arm.boot)
  else (arm.result, arm.boot)

end

/-- `app_boot_get_buffer`. -/
def appBootGetBuffer (buffers : BootBuffers) (_length : UInt32) : Nat := buffers.send

/-! ## what a request does -/

/-- The requests that have a `case`. -/
def bootRequests : List UpOpcode :=
  [.getType, .write, .read, .writeRam, .readEnable, .blockErase, .disconnect, .changeBandrate]

/-- The requests whose acknowledgement repeats address and length. -/
def bootEchoes : List UpOpcode := [.write, .read, .writeRam, .readEnable, .blockErase]

/-- The opcode has a `case`. -/
def Handled (code : UInt8) : Prop := ∃ opcode ∈ bootRequests, code = opcode.code

instance : DecidablePred Handled := fun _ =>
  inferInstanceAs (Decidable (∃ opcode ∈ bootRequests, _))

/-- The acknowledgement repeats address and length. -/
def Echoes (code : UInt8) : Prop := ∃ opcode ∈ bootEchoes, code = opcode.code

instance : DecidablePred Echoes := fun _ =>
  inferInstanceAs (Decidable (∃ opcode ∈ bootEchoes, _))

theorem handled_iff (code : UInt8) : Handled code ↔
    code = UpOpcode.getType.code ∨ Echoes code ∨ code = UpOpcode.disconnect.code ∨
      code = UpOpcode.changeBandrate.code := by
  simp [Handled, Echoes, bootRequests, bootEchoes, or_assoc]

/-- The header fields that a request sets, as the bytes at the start of the response buffer. -/
def bootFields (req : UpdateParamHeader) : List UInt8 :=
  if req.code = UpOpcode.getType.code then [UpOpcode.sendType.code] ++ bytes32 0x01
  else if Echoes req.code then { req with code := req.code + 1 : UpdateParamHeader }.bytes
  else if Handled req.code then [req.code + 1]
  else []

/-- The result. -/
def bootResult (req : UpdateParamHeader) : UInt8 :=
  if req.code = UpOpcode.disconnect.code then req.address.toUInt8 else upResultContinue

/-- `rsp_length`. -/
def bootRspLength (req : UpdateParamHeader) : UInt32 :=
  if req.code = UpOpcode.read.code then 7 + req.length.toUInt32 else 7

@[simp] theorem UpdateParamHeader.length_bytes (h : UpdateParamHeader) : h.bytes.length = 7 := by
  simp [UpdateParamHeader.bytes]

section

variable {φ : Type} (project : BootProject) (dev : FlashDev φ) (buffers : BootBuffers)
  (uninit : Nat) (req : UpdateParamHeader) (s : Boot φ)

/-- The flash after a request. -/
def bootFlash : φ :=
  if req.code = UpOpcode.write.code then
    dev.write req.address (slice s.mem (buffers.recv + updateParamHeaderSize) req.length.toNat)
      s.flash
  else if req.code = UpOpcode.blockErase.code then dev.erase req.address 0x1000 s.flash
  else s.flash

/-- The stores of a request, apart from those to the header. -/
def bootReadStores : List (Nat × List UInt8) :=
  if req.code = UpOpcode.read.code then
    [(bootReadBuffer project buffers.recv buffers.send,
      dev.read s.flash req.address req.length.toNat)]
  else []

/-- The memory after a request. -/
def bootMem : Nat → UInt8 :=
  store ((bootReadStores project dev buffers req s).foldl (fun m w => store m w.1 w.2) s.mem)
    buffers.send (bootFields req)

theorem Boot.mem_setEcho (rspHeader : Nat) (opcode : UpOpcode) :
    (s.setEcho rspHeader opcode req).mem =
      store s.mem rspHeader { req with code := opcode.code : UpdateParamHeader }.bytes := by
  have haddress := store_store_append s.mem rspHeader [opcode.code] (bytes32 req.address)
  have hlength := store_store_append s.mem rspHeader ([opcode.code] ++ bytes32 req.address)
    (bytes16 req.length)
  rw [← haddress] at hlength
  exact hlength

theorem Boot.stores_setEcho (rspHeader : Nat) (opcode : UpOpcode) :
    (s.setEcho rspHeader opcode req).stores = s.stores ++ [(rspHeader, [opcode.code]),
      (rspHeader + 1, bytes32 req.address), (rspHeader + 5, bytes16 req.length)] := by
  simp [Boot.setEcho, Boot.setCode, Boot.setAddress, Boot.setLength, Boot.poke]

/-! ## the `switch` -/

/-- What the `switch` does, in terms of the request. -/
structure SwitchSpec (arm : BootArm φ) : Prop where
  mem : arm.boot.mem = bootMem project dev buffers req s
  flash : arm.boot.flash = bootFlash dev buffers req s
  stores : ∃ header,
    arm.boot.stores = s.stores ++ bootReadStores project dev buffers req s ++ header ∧
      ∀ w ∈ header,
        buffers.send ≤ w.1 ∧ w.1 + w.2.length ≤ buffers.send + updateParamHeaderSize
  rspHeader : arm.rspHeader = if Handled req.code then buffers.send else uninit
  rspLength : arm.rspLength = bootRspLength req
  result : arm.result = bootResult req
  rsps : arm.boot.rsps = s.rsps ++
    if req.code = UpOpcode.changeBandrate.code then
      [⟨buffers.send, slice (bootMem project dev buffers req s) buffers.send 7⟩] else []

variable {project dev buffers uninit req s}

theorem echoes_iff {code : UInt8} : Echoes code ↔
    code = UpOpcode.write.code ∨ code = UpOpcode.read.code ∨ code = UpOpcode.writeRam.code ∨
      code = UpOpcode.readEnable.code ∨ code = UpOpcode.blockErase.code := by
  simp [Echoes, bootEchoes]

theorem Echoes.ne {code : UInt8} (h : Echoes code) : code ≠ UpOpcode.getType.code ∧
    code ≠ UpOpcode.disconnect.code ∧ code ≠ UpOpcode.changeBandrate.code := by
  obtain h | h | h | h | h := echoes_iff.mp h
  all_goals
    rw [h]
    decide

/-- The arms that repeat address and length, behind what they do to `s'`. -/
theorem SwitchSpec.echo {ack : UpOpcode} {s' : Boot φ}
    (hecho : Echoes req.code) (hack : ack.code = req.code + 1)
    (hmem : s'.mem = (bootReadStores project dev buffers req s).foldl
      (fun m w => store m w.1 w.2) s.mem)
    (hflash : s'.flash = bootFlash dev buffers req s)
    (hstores : s'.stores = s.stores ++ bootReadStores project dev buffers req s)
    (hrsps : s'.rsps = s.rsps) :
    SwitchSpec project dev buffers uninit req s
      ⟨buffers.send, bootRspLength req, upResultContinue, s'.setEcho buffers.send ack req⟩ := by
  have hhandled : Handled req.code := (handled_iff _).mpr (.inr (.inl hecho))
  constructor
  · simp only [Boot.mem_setEcho, bootMem, bootFields, hecho.ne, hecho, if_true, if_false, hmem,
      hack]
  · exact hflash
  · refine ⟨[(buffers.send, [ack.code]), (buffers.send + 1, bytes32 req.address),
      (buffers.send + 5, bytes16 req.length)], ?_, by simp [updateParamHeaderSize]⟩
    rw [Boot.stores_setEcho, hstores]
  · simp [hhandled]
  · rfl
  · simp [bootResult, hecho.ne]
  · rw [if_neg hecho.ne.2.2, List.append_nil]
    exact hrsps

/-- An arm that sets the code only. -/
theorem Boot.setCode_spec {ack : UpOpcode}
    (h : req.code = UpOpcode.disconnect.code ∨ req.code = UpOpcode.changeBandrate.code)
    (hack : ack.code = req.code + 1) :
    (s.setCode buffers.send ack).mem = bootMem project dev buffers req s ∧
      (s.setCode buffers.send ack).stores =
        s.stores ++ bootReadStores project dev buffers req s ++ [(buffers.send, [ack.code])] := by
  have hfields : bootFields req = [ack.code] ∧ bootReadStores project dev buffers req s = [] := by
    obtain h | h := h
    all_goals simp +decide [bootFields, bootReadStores, h, hack]
  simp [Boot.setCode, Boot.poke, bootMem, hfields]

/-- `case UP_OPCODE_GET_TYPE`. -/
theorem SwitchSpec.getType (h : req.code = UpOpcode.getType.code) :
    SwitchSpec project dev buffers uninit req s
      (appBootSwitch project dev (appBootGetBuffer buffers) buffers.recv uninit req s) := by
  have hsend := buffers.send_ne
  have harm : appBootSwitch project dev (appBootGetBuffer buffers) buffers.recv uninit req s =
      ⟨buffers.send, 7, upResultContinue,
        (s.setCode buffers.send .sendType).setAddress buffers.send 0x01⟩ := by
    simp [appBootSwitch, appBootGetBuffer, h, hsend]
  rw [harm]
  constructor
  · simp +decide [bootMem, bootReadStores, bootFields, h, Boot.setCode, Boot.setAddress,
      Boot.poke]
    exact store_store_append s.mem buffers.send [_] _
  · simp +decide [bootFlash, h, Boot.setCode, Boot.setAddress, Boot.poke]
  · refine ⟨[(buffers.send, [UpOpcode.sendType.code]), (buffers.send + 1, bytes32 0x01)],
      ?_, by simp [updateParamHeaderSize]⟩
    simp +decide [bootReadStores, h, Boot.setCode, Boot.setAddress, Boot.poke]
  · simp +decide [h]
  · simp +decide [bootRspLength, h]
  · simp +decide [bootResult, h]
  · simp +decide [h, Boot.setCode, Boot.setAddress, Boot.poke]

/-- The arms whose acknowledgement repeats address and length. -/
theorem SwitchSpec.echoes (hecho : Echoes req.code) :
    SwitchSpec project dev buffers uninit req s
      (appBootSwitch project dev (appBootGetBuffer buffers) buffers.recv uninit req s) := by
  have hsend := buffers.send_ne
  obtain h | h | h | h | h := echoes_iff.mp hecho
  · have harm : appBootSwitch project dev (appBootGetBuffer buffers) buffers.recv uninit req
        s = ⟨buffers.send, bootRspLength req, upResultContinue,
          (s.flashWrite dev req.address req.length
            (buffers.recv + updateParamHeaderSize)).setEcho buffers.send .writeAck req⟩ := by
      simp +decide [appBootSwitch, appBootGetBuffer, bootRspLength, h, hsend]
    rw [harm]
    refine SwitchSpec.echo hecho (by rw [h]; decide) ?_ ?_ ?_ rfl
    all_goals simp +decide [bootReadStores, bootFlash, h, Boot.flashWrite]
  · have harm : appBootSwitch project dev (appBootGetBuffer buffers) buffers.recv uninit req
        s = ⟨buffers.send, bootRspLength req, upResultContinue,
          (s.flashRead dev req.address req.length
            (bootReadBuffer project buffers.recv buffers.send)).setEcho
              buffers.send .readAck req⟩ := by
      simp +decide [appBootSwitch, appBootGetBuffer, bootRspLength, h, hsend]
    rw [harm]
    refine SwitchSpec.echo hecho (by rw [h]; decide) ?_ ?_ ?_ rfl
    all_goals simp +decide [bootReadStores, bootFlash, h, Boot.flashRead, Boot.poke]
  · have harm : appBootSwitch project dev (appBootGetBuffer buffers) buffers.recv uninit req
        s = ⟨buffers.send, bootRspLength req, upResultContinue,
          s.setEcho buffers.send .writeRamAck req⟩ := by
      simp +decide [appBootSwitch, appBootGetBuffer, bootRspLength, h]
    rw [harm]
    refine SwitchSpec.echo hecho (by rw [h]; decide) ?_ ?_ ?_ rfl
    all_goals simp +decide [bootReadStores, bootFlash, h]
  · have harm : appBootSwitch project dev (appBootGetBuffer buffers) buffers.recv uninit req
        s = ⟨buffers.send, bootRspLength req, upResultContinue,
          s.setEcho buffers.send .readEnableAck req⟩ := by
      simp +decide [appBootSwitch, appBootGetBuffer, bootRspLength, h]
    rw [harm]
    refine SwitchSpec.echo hecho (by rw [h]; decide) ?_ ?_ ?_ rfl
    all_goals simp +decide [bootReadStores, bootFlash, h]
  · have harm : appBootSwitch project dev (appBootGetBuffer buffers) buffers.recv uninit req
        s = ⟨buffers.send, bootRspLength req, upResultContinue,
          (s.flashErase dev req.address 0x1000).setEcho
            buffers.send .blockEraseAck req⟩ := by
      simp +decide [appBootSwitch, appBootGetBuffer, bootRspLength, h, hsend]
    rw [harm]
    refine SwitchSpec.echo hecho (by rw [h]; decide) ?_ ?_ ?_ rfl
    all_goals simp +decide [bootReadStores, bootFlash, h, Boot.flashErase]

/-- `case UP_OPCODE_DISCONNECT`. -/
theorem SwitchSpec.disconnect (h : req.code = UpOpcode.disconnect.code) :
    SwitchSpec project dev buffers uninit req s
      (appBootSwitch project dev (appBootGetBuffer buffers) buffers.recv uninit req s) := by
  have hsend := buffers.send_ne
  have harm : appBootSwitch project dev (appBootGetBuffer buffers) buffers.recv uninit req s =
      ⟨buffers.send, 7, req.address.toUInt8, s.setCode buffers.send .disconnectAck⟩ := by
    simp +decide [appBootSwitch, appBootGetBuffer, h, hsend]
  have hset := @Boot.setCode_spec φ project dev buffers req s .disconnectAck (.inl h)
    (by rw [h]; decide)
  rw [harm]
  constructor
  · exact hset.1
  · simp +decide [bootFlash, h, Boot.setCode, Boot.poke]
  · exact ⟨_, hset.2, by simp [updateParamHeaderSize]⟩
  · simp +decide [h]
  · simp +decide [bootRspLength, h]
  · simp +decide [bootResult, h]
  · simp +decide [h, Boot.setCode, Boot.poke]

/-- `case UP_OPCODE_CHANGE_BANDRATE`. -/
theorem SwitchSpec.changeBandrate (h : req.code = UpOpcode.changeBandrate.code) :
    SwitchSpec project dev buffers uninit req s
      (appBootSwitch project dev (appBootGetBuffer buffers) buffers.recv uninit req s) := by
  have hsend := buffers.send_ne
  have harm : appBootSwitch project dev (appBootGetBuffer buffers) buffers.recv uninit req s =
      ⟨buffers.send, 7, upResultContinue, (appBootSendRsp buffers.send 7
        (s.setCode buffers.send .changeBandrateAck)).uartInit req.address.toUInt8⟩ := by
    simp +decide [appBootSwitch, appBootGetBuffer, h, hsend]
  have hset := @Boot.setCode_spec φ project dev buffers req s .changeBandrateAck (.inr h)
    (by rw [h]; decide)
  rw [harm]
  constructor
  · exact hset.1
  · simp +decide [bootFlash, h, Boot.setCode, Boot.poke, appBootSendRsp, Boot.uartInit]
  · exact ⟨_, hset.2, by simp [updateParamHeaderSize]⟩
  · simp +decide [h]
  · simp +decide [bootRspLength, h]
  · simp +decide [bootResult, h]
  · simp only [appBootSendRsp, Boot.uartInit, hset.1, if_pos h]
    rfl

/-- `default`. -/
theorem SwitchSpec.unknown (h : ¬ Handled req.code) :
    SwitchSpec project dev buffers uninit req s
      (appBootSwitch project dev (appBootGetBuffer buffers) buffers.recv uninit req s) := by
  have hecho : ¬ Echoes req.code := fun he => h ((handled_iff _).mpr (.inr (.inl he)))
  have hne : ∀ opcode ∈ bootRequests, req.code ≠ opcode.code := fun opcode hmem heq =>
    h ⟨opcode, hmem, heq⟩
  simp only [bootRequests, List.mem_cons, List.not_mem_nil, or_false, forall_eq_or_imp,
    forall_eq] at hne
  have harm : appBootSwitch project dev (appBootGetBuffer buffers) buffers.recv uninit req s =
      ⟨uninit, 7, upResultContinue, s⟩ := by
    simp [appBootSwitch, hne]
  rw [harm]
  constructor
  · simp [bootMem, bootReadStores, bootFields, hne, hecho, h]
  · simp [bootFlash, hne]
  · exact ⟨[], by simp [bootReadStores, hne], by simp⟩
  · simp [h]
  · simp [bootRspLength, hne]
  · simp [bootResult, hne]
  · simp [hne]

/-- **The `switch`**, for every opcode. -/
theorem appBootSwitch_spec : SwitchSpec project dev buffers uninit req s
    (appBootSwitch project dev (appBootGetBuffer buffers) buffers.recv uninit req s) := by
  by_cases h : Handled req.code
  · obtain h | h | h | h := (handled_iff _).mp h
    · exact .getType h
    · exact .echoes h
    · exact .disconnect h
    · exact .changeBandrate h
  · exact .unknown h

/-! ## memory -/

theorem length_bootFields_le : (bootFields req).length ≤ updateParamHeaderSize := by
  unfold bootFields updateParamHeaderSize
  split
  · simp
  · split
    · simp
    · split <;> simp

/-- Where a request leaves the memory alone. -/
theorem bootMem_of_not_mem {a : Nat}
    (hheader : a < buffers.send ∨ buffers.send + updateParamHeaderSize ≤ a)
    (hread : req.code = UpOpcode.read.code →
      a < bootReadBuffer project buffers.recv buffers.send ∨
        bootReadBuffer project buffers.recv buffers.send + req.length.toNat ≤ a) :
    bootMem project dev buffers req s a = s.mem a := by
  have hlen := @length_bootFields_le req
  rw [bootMem, store_of_not_mem _ _ _ _ (by omega), bootReadStores]
  split
  · next h =>
      refine store_of_not_mem _ _ _ _ ?_
      rw [dev.length_read]
      exact hread h
  · rfl

/-- The request keeps its code: always in `fr5080_basic`, which reads behind the header of the
request, and in `fr5080_basic_xip` when what is read fits in the response buffer. -/
theorem bootMem_recv (hreq : UpdateParamHeader.read s.mem buffers.recv = req)
    (hfits : project = .xip → req.code = UpOpcode.read.code →
      req.length.toNat + updateParamHeaderSize ≤ 0x200) :
    bootMem project dev buffers req s buffers.recv = req.code := by
  have hdisjoint := buffers.disjoint
  have hcode : s.mem buffers.recv = req.code := by
    rw [← hreq]
    rfl
  have hsize : updateParamHeaderSize = 7 := rfl
  rw [bootMem_of_not_mem (by omega), hcode]
  intro h
  cases project with
  | basic =>
      left
      show buffers.recv < buffers.recv + updateParamHeaderSize
      omega
  | xip =>
      have := hfits rfl h
      show buffers.recv < buffers.send + updateParamHeaderSize ∨
        buffers.send + updateParamHeaderSize + req.length.toNat ≤ buffers.recv
      omega

/-! ## the whole command -/

/-- The response to a request: from the response buffer if the opcode has a `case`. -/
def bootRsp (project : BootProject) (dev : FlashDev φ) (buffers : BootBuffers) (uninit : Nat)
    (req : UpdateParamHeader) (s : Boot φ) : BootRsp :=
  let rspHeader := if Handled req.code then buffers.send else uninit
  ⟨rspHeader, slice (bootMem project dev buffers req s) rspHeader
    (bootRspLength req).toUInt16.toNat⟩

/-- What the command does apart from its responses. -/
structure CommandSpec (project : BootProject) (dev : FlashDev φ) (buffers : BootBuffers)
    (req : UpdateParamHeader) (s : Boot φ) (out : UInt8 × Boot φ) : Prop where
  result : out.1 = bootResult req
  mem : out.2.mem = bootMem project dev buffers req s
  flash : out.2.flash = bootFlash dev buffers req s
  stores : ∃ header,
    out.2.stores = s.stores ++ bootReadStores project dev buffers req s ++ header ∧
      ∀ w ∈ header,
        buffers.send ≤ w.1 ∧ w.1 + w.2.length ≤ buffers.send + updateParamHeaderSize

/-- **The command**, for every request. -/
theorem appBootProcessCmd_spec (hreq : UpdateParamHeader.read s.mem buffers.recv = req) :
    CommandSpec project dev buffers req s
      (appBootProcessCmd project dev (appBootGetBuffer buffers) buffers.recv uninit s) := by
  have h := @appBootSwitch_spec φ project dev buffers uninit req s
  simp only [appBootProcessCmd, hreq]
  split <;> exact ⟨h.result, h.mem, h.flash, h.stores⟩

/-- **The response**, when the request still has its code at the end. -/
theorem rsps_appBootProcessCmd (hreq : UpdateParamHeader.read s.mem buffers.recv = req)
    (hkept : bootMem project dev buffers req s buffers.recv = req.code) :
    (appBootProcessCmd project dev (appBootGetBuffer buffers) buffers.recv uninit s).2.rsps =
      s.rsps ++ [bootRsp project dev buffers uninit req s] := by
  have h := @appBootSwitch_spec φ project dev buffers uninit req s
  have hcode : (appBootSwitch project dev (appBootGetBuffer buffers) buffers.recv uninit req
      s).boot.mem buffers.recv = req.code := by
    rw [h.mem, hkept]
  simp only [appBootProcessCmd, hreq, hcode]
  split
  · next hne =>
      simp only [appBootSendRsp, h.rsps, h.rspHeader, h.rspLength, h.mem, if_neg hne,
        List.append_nil]
      rfl
  · next heq =>
      have heq : req.code = UpOpcode.changeBandrate.code := not_not.mp heq
      have hhandled : Handled req.code := (handled_iff _).mpr (.inr (.inr (.inr heq)))
      have hlength : bootRspLength req = 7 := by simp +decide [bootRspLength, heq]
      rw [h.rsps, if_pos heq, bootRsp, if_pos hhandled, hlength]
      rfl

/-- The number of bytes of a response, when the argument of the callback does not wrap. -/
theorem toNat_bootRspLength (hlen : req.length.toNat ≤ 505) :
    (bootRspLength req).toUInt16.toNat =
      updateParamHeaderSize + if req.code = UpOpcode.read.code then req.length.toNat else 0 := by
  unfold bootRspLength
  split
  · have hsum : (7 + req.length.toUInt32).toNat = 7 + req.length.toNat := by
      rw [UInt32.toNat_add, UInt16.toNat_toUInt32]
      show (7 + _) % 2 ^ 32 = _
      omega
    rw [UInt32.toNat_toUInt16, hsum, updateParamHeaderSize]
    omega
  · rfl

/-- The response starts with the fields that the arm has set. -/
theorem bytes_bootRsp (h : Handled req.code)
    (hlen : (bootFields req).length ≤ (bootRspLength req).toUInt16.toNat) :
    ∃ rest, (bootRsp project dev buffers uninit req s).bytes = bootFields req ++ rest := by
  obtain ⟨n, hn⟩ := Nat.exists_eq_add_of_le hlen
  rw [bootRsp, if_pos h, hn]
  exact ⟨_, slice_store_add _ _ _ _⟩

/-- The fields of a handled request start with the next code. -/
theorem head_bootFields (h : Handled req.code) :
    (bootFields req).head? = some (req.code + 1) := by
  simp only [bootFields, h, if_true]
  split
  · next hcode =>
      rw [hcode]
      decide
  · split <;> rfl

/-- A response to a handled request has the next code. -/
theorem head_bootRsp (h : Handled req.code)
    (hread : req.code = UpOpcode.read.code → req.length.toNat ≤ 505) :
    (bootRsp project dev buffers uninit req s).bytes.head? = some (req.code + 1) := by
  have hle : (bootFields req).length ≤ (bootRspLength req).toUInt16.toNat := by
    refine Nat.le_trans length_bootFields_le ?_
    by_cases hcode : req.code = UpOpcode.read.code
    · rw [toNat_bootRspLength (hread hcode)]
      exact Nat.le_add_right _ _
    · rw [bootRspLength, if_neg hcode]
      decide
  obtain ⟨rest, hbytes⟩ := @bytes_bootRsp φ project dev buffers uninit req s h hle
  rw [hbytes, List.head?_append, head_bootFields h]
  rfl

end

end Fr5080
