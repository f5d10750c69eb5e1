import Fr5080.Ota.Erase

/-!
# Fr5080.Ota.CopyAck

The acknowledgement of an OTA copy.  `ota_flash_copy` masks interrupts, copies,
sends `IPC_SUB_MSG_FLASH_COPY_ACK` with `ipc_msg_send` and waits for the reset of
the MCU without unmasking them.  Only `ipc_isr` dispatches the messages that
`ipc_msg_send` defers, so the acknowledgement must find a channel at once: the
channels are those that were available when the request came in.
-/

namespace Fr5080

open Embedded

/-- The acknowledgement is written to the message register of a channel and is in flight
there, behind the messages sent before it; none is deferred. -/
def AckTransmitted (s s' : Ipc) : Prop :=
  ∃ c < ipcChannels,
    s'.log.sent = s.log.sent ++ [⟨s.nextTicket, c,
      ipcMsgWord c IpcMsgType.withoutPayload.code ipcSubMsgFlashCopyAck, s.shm, s.log.flight c⟩] ∧
    s'.msgOut c = ipcMsgWord c IpcMsgType.withoutPayload.code ipcSubMsgFlashCopyAck ∧
    s'.log.flight c = some s.nextTicket ∧ s'.ipcMsgList = s.ipcMsgList

/-- The acknowledgement is the last message of `ipc_msg_list`, and nothing is sent. -/
def AckDeferred (s s' : Ipc) : Prop :=
  s'.log.sent = s.log.sent ∧
    s'.ipcMsgList = s.ipcMsgList ++
      [⟨s.nextTicket, none, .withoutPayload, .subMsg ipcSubMsgFlashCopyAck⟩]

/-- The driver after a copy request. -/
theorem ipc_otaRecvIpcMsg_copy {chip : FlashChip} {regs : Nat → UInt32}
    {crc32 : UInt32 → List UInt8 → UInt32} {localFlashOp chn : Nat} {s : OtaSys}
    (hopcode : s.ipc.shm (ipcGetBufferOffset .mcu2dsp chn) = IpcMsgFlashOpcode.copy.code) :
    (otaRecvIpcMsg chip regs crc32 localFlashOp chn s).ipc =
      ipcMsgSend .withoutPayload ipcSubMsgFlashCopyAck none s.ipc := by
  have hne : IpcMsgFlashOpcode.copy.code ≠ IpcMsgFlashOpcode.erase.code ∧
      IpcMsgFlashOpcode.copy.code ≠ IpcMsgFlashOpcode.read.code ∧
      IpcMsgFlashOpcode.copy.code ≠ IpcMsgFlashOpcode.write.code := by decide
  simp only [otaRecvIpcMsg, hopcode, hne, if_true, if_false]

/-- `ipc_msg_send` with a channel available. -/
theorem ackTransmitted_ipcMsgSend {s : Ipc} (h : s.SomeAvailable) :
    AckTransmitted s (ipcMsgSend .withoutPayload ipcSubMsgFlashCopyAck none s) := by
  obtain ⟨_, c, hc, _, heq⟩ | ⟨hnone, _⟩ := ipcAllocChannel_command
    (s.submit (ipcMsgSendSubmission .withoutPayload ipcSubMsgFlashCopyAck none))
  · have hff : c ≠ 0xff := by
      have : ipcChannels = 4 := rfl
      omega
    refine ⟨c, hc, ?_⟩
    simp only [ipcMsgSend, heq]
    simp [hff, ipcInsertMsg, Ipc.submit]
  · exact absurd h hnone

/-- `ipc_msg_send` with all channels taken. -/
theorem ackDeferred_ipcMsgSend {s : Ipc} (h : ¬ s.SomeAvailable) :
    AckDeferred s (ipcMsgSend .withoutPayload ipcSubMsgFlashCopyAck none s) := by
  obtain ⟨hsome, _⟩ | ⟨_, heq⟩ := ipcAllocChannel_command
    (s.submit (ipcMsgSendSubmission .withoutPayload ipcSubMsgFlashCopyAck none))
  · exact absurd hsome h
  · simp only [AckDeferred, ipcMsgSend, heq]
    simp [Ipc.submit, Ipc.nextTicket]

/-- A deferred acknowledgement is not transmitted. -/
theorem AckDeferred.not_transmitted {s s' : Ipc} (h : AckDeferred s s') :
    ¬ AckTransmitted s s' := by
  rintro ⟨c, _, hsent, _⟩
  simp [h.1] at hsent

/-- In every state in which a copy request is handled, the acknowledgement is on a channel when
the endless wait begins if and only if some channel was available; otherwise it is left in
`ipc_msg_list`. -/
theorem copy_ack_transmitted_iff (chip : FlashChip) (regs : Nat → UInt32)
    (crc32 : UInt32 → List UInt8 → UInt32) (localFlashOp chn : Nat) (s : OtaSys)
    (hopcode : s.ipc.shm (ipcGetBufferOffset .mcu2dsp chn) = IpcMsgFlashOpcode.copy.code) :
    (AckTransmitted s.ipc (otaRecvIpcMsg chip regs crc32 localFlashOp chn s).ipc ↔
      s.ipc.SomeAvailable) ∧
    (AckDeferred s.ipc (otaRecvIpcMsg chip regs crc32 localFlashOp chn s).ipc ↔
      ¬ s.ipc.SomeAvailable) := by
  rw [ipc_otaRecvIpcMsg_copy hopcode]
  by_cases h : s.ipc.SomeAvailable
  · have hsent := ackTransmitted_ipcMsgSend h
    exact ⟨iff_of_true hsent h, iff_of_false (fun hd => hd.not_transmitted hsent) (not_not.mpr h)⟩
  · have hdeferred := ackDeferred_ipcMsgSend h
    exact ⟨iff_of_false hdeferred.not_transmitted h, iff_of_true hdeferred h⟩

/-- A request right after the start finds a channel. -/
theorem copy_ack_transmitted_iff_start :
    AckTransmitted (OtaSys.received .copy 0x1000 0x80000 0 .blank).ipc
      (otaRecvIpcMsg flashChip1M (fun _ => 0x1000) (fun _ _ => 0) 0 0
        (.received .copy 0x1000 0x80000 0 .blank)).ipc :=
  (copy_ack_transmitted_iff flashChip1M (fun _ => 0x1000) (fun _ _ => 0) 0 0
    (.received .copy 0x1000 0x80000 0 .blank)
    (opcode_otaRequest 0 .copy 0x1000 0x80000 0)).1.mpr ⟨0, by decide, by decide⟩

/-- The driver with the request in the exchange memory. -/
def copyRequested : IpcSys :=
  ipcStart (fun _ => 0) (otaRequest 0 .copy 0x1000 0x80000 0) fun _ => ⟨0, 0, 0, 0⟩

/-- Four messages that the MCU has not completed. -/
def fourSends : List IpcOp := List.replicate 4 (.msgSend .rawBufferSpace 1 none)

/-- When four messages are in flight, the acknowledgement is left in the list. -/
theorem copy_ack_left_in_list : ∃ s, run ipcStep copyRequested fourSends = some s ∧
    s.ipc.shm (ipcGetBufferOffset .mcu2dsp 0) = IpcMsgFlashOpcode.copy.code ∧
    ¬ AckTransmitted s.ipc (otaRecvIpcMsg flashChip1M (fun _ => 0x1000) (fun _ _ => 0) 0 0
      ⟨s.ipc, .blank⟩).ipc := by
  have hview : (run ipcStep copyRequested fourSends).map
      (fun s => (s.ipc.availableBuffer, s.ipc.shm (ipcGetBufferOffset .mcu2dsp 0))) =
        some (0, IpcMsgFlashOpcode.copy.code) := by decide +kernel
  obtain ⟨s, hrun, hs⟩ := Option.map_eq_some_iff.mp hview
  obtain ⟨havail, hopcode⟩ := Prod.mk.inj hs
  refine ⟨s, hrun, hopcode, ?_⟩
  rw [ipc_otaRecvIpcMsg_copy hopcode]
  refine (ackDeferred_ipcMsgSend ?_).not_transmitted
  rintro ⟨c, _, hbit⟩
  simp [havail] at hbit

end Fr5080
