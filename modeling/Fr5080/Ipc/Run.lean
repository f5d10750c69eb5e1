import Fr5080.Embedded.Run
import Fr5080.Ipc.Driver

/-!
# Fr5080.Ipc.Run

Runs of the IPC driver, and what its functions do to the state.

`ipcStep` performs one operation of a run: a send, a direct
`ipc_alloc_channel` followed later by `ipc_insert_msg` or `ipc_free_channel`
of the holder, an interrupt that completes channels in flight, or the reuse
of a buffer by its owner.  The environment keeps its contract in the guards:
only a holder inserts or frees, only channels in flight complete.

The functions of the driver reduce to few transitions, and every later proof
splits on these instead of unfolding the C code:

* a send is `Ipc.submit` followed by `Ipc.offer` (`ipcMsgSend_eq`,
  `ipcMsgWithPayloadSend_eq`): transmit on a free channel, else append to the
  list;
* `ipc_msg_sent` transmits the head of the list or does nothing
  (`ipcMsgSent_cons`, `ipcMsgSent_rule`);
* a step of a run is one of the transitions of `IpcTransition`
  (`ipcStep_transition`, `IpcTransition.step`), and `ipcIsr_rule` takes
  `ipc_isr` apart.
-/

namespace Fr5080

open Embedded

/-! ## operations of a run -/

/-- One operation of a run. -/
inductive IpcOp
  | msgSend (msg : IpcMsgType) (subMsg : UInt16) (callback : Option IpcTxCallback)
  | msgWithPayloadSend (msg : IpcMsgType) (header : Nat) (headerLength : UInt16)
      (payload : Nat) (payloadLength : UInt16) (callback : Option IpcTxCallback)
  /-- a caller allocates a channel for itself -/
  | allocChannel (length : UInt16)
  /-- the holder of a channel fills its payload buffer -/
  | writeBuffer (chn : Nat) (bytes : List UInt8)
  | insertMsg (chn : Nat) (format : UInt8) (length : UInt16) (callback : Option IpcTxCallback)
  | freeChannel (chn : Nat)
  | isr (status : BitVec 32)
  /-- a caller reuses its own memory -/
  | writeRam (offset : Nat) (bytes : List UInt8)

/-- The driver together with the channels that callers hold, each with the
length it was allocated for. -/
structure IpcSys where
  ipc : Ipc
  held : Nat → Option UInt16

/-- The message a holder submits with `ipc_insert_msg`. -/
def ipcInsertSubmission (allocLength : UInt16) (chn : Nat) (format : UInt8) (length : UInt16)
    (callback : Option IpcTxCallback) (s : Ipc) : IpcSubmission where
  kind := .direct
  format := format
  allocLength := allocLength.toNat
  length := length.toNat
  bytes :=
    if allocLength ≠ 0 then slice s.shm (ipcGetBufferOffset .dsp2mcu chn) length.toNat else []
  callback := callback

/-- One step of a run. -/
def ipcStep (s : IpcSys) : IpcOp → Option IpcSys
  | .msgSend msg subMsg callback => some { s with ipc := ipcMsgSend msg subMsg callback s.ipc }
  | .msgWithPayloadSend msg header headerLength payload payloadLength callback =>
      some { s with ipc :=
        ipcMsgWithPayloadSend msg header headerLength payload payloadLength callback s.ipc }
  | .allocChannel length =>
      let (chn, ipc) := ipcAllocChannel length s.ipc
      if chn ≠ 0xff then some ⟨ipc, Function.update s.held chn (some length)⟩ else some s
  | .writeBuffer chn bytes =>
      if (s.held chn).isSome ∧ chn < ipcWithLoadChannels then
        let offset := ipcGetBufferOffset .dsp2mcu chn
        some { s with ipc := { s.ipc with shm := store s.ipc.shm offset bytes } }
      else none
  | .insertMsg chn format length callback =>
      match s.held chn with
      | none => none
      | some allocLength =>
          let ipc := s.ipc.submit
            (ipcInsertSubmission allocLength chn format length callback s.ipc)
          some ⟨ipcInsertMsg s.ipc.nextTicket chn format length callback ipc,
            Function.update s.held chn none⟩
  | .freeChannel chn =>
      match s.held chn with
      | none => none
      | some _ => some ⟨ipcFreeChannel chn s.ipc, Function.update s.held chn none⟩
  | .isr status =>
      if ∀ chn < ipcChannels, status.getLsbD (12 + chn) → (s.ipc.log.flight chn).isSome then
        some { s with ipc := ipcIsr status s.ipc }
      else none
  | .writeRam offset bytes =>
      some { s with ipc := { s.ipc with ram := store s.ipc.ram offset bytes } }

/-- No message has been seen yet. -/
def IpcLog.empty : IpcLog := ⟨[], [], fun _ => none, [], [], []⟩

/-- The zero-initialised statics before `ipc_init`, over any memory contents. -/
def Ipc.boot (ram shm : Nat → UInt8) (msgIn : Nat → IpcMsg) : Ipc where
  availableBuffer := 0
  txCallback := fun _ => none
  rxCallback := false
  ipcMsgList := []
  msgOut := fun _ => ⟨0, 0, 0, 0⟩
  msgIn := msgIn
  ram := ram
  shm := shm
  log := .empty

/-- The start of every run: the driver after `ipc_init`. -/
def ipcStart (ram shm : Nat → UInt8) (msgIn : Nat → IpcMsg) : IpcSys :=
  ⟨ipcInit true (Ipc.boot ram shm msgIn), fun _ => none⟩

/-! ## the channel search -/

theorem ipcAllocScan_some {availableBuffer : BitVec 8} {n c : Nat}
    (h : ipcAllocScan availableBuffer n = some c) :
    c < n ∧ availableBuffer.getLsbD c = true := by
  induction n with
  | zero => simp [ipcAllocScan] at h
  | succ n ih =>
      simp only [ipcAllocScan] at h
      split at h
      · next hbit =>
          cases h
          exact ⟨Nat.lt_succ_self _, hbit⟩
      · have hn := ih h
        exact ⟨by omega, hn.2⟩

theorem ipcAllocScan_none {availableBuffer : BitVec 8} {n : Nat}
    (h : ipcAllocScan availableBuffer n = none) :
    ∀ c < n, availableBuffer.getLsbD c = false := by
  induction n with
  | zero => simp
  | succ n ih =>
      simp only [ipcAllocScan] at h
      split at h
      · cases h
      · intro c hc
        grind

theorem ipcAllocLimit_le (length : UInt16) : ipcAllocLimit length ≤ ipcChannels := by
  unfold ipcAllocLimit
  split <;> decide

/-- A nonzero length is only offered the channels with a buffer. -/
theorem ipcAllocLimit_of_ne_zero {length : UInt16} (h : length ≠ 0) :
    ipcAllocLimit length = ipcWithLoadChannels := if_pos h

/-- `ipc_alloc_channel` as a search: the channel found is not 0xff. -/
theorem ipcAllocChannel_cases (length : UInt16) (s : Ipc) :
    (∃ c, ipcAllocScan s.availableBuffer (ipcAllocLimit length) = some c ∧ c ≠ 0xff ∧
      ipcAllocChannel length s =
        (c, { s with availableBuffer := s.availableBuffer &&& ~~~(1#8 <<< c) })) ∨
    (ipcAllocScan s.availableBuffer (ipcAllocLimit length) = none ∧
      ipcAllocChannel length s = (0xff, s)) := by
  cases hscan : ipcAllocScan s.availableBuffer (ipcAllocLimit length) with
  | none => exact .inr ⟨rfl, by simp [ipcAllocChannel, hscan]⟩
  | some c =>
      have hlt := (ipcAllocScan_some hscan).1
      have hle := ipcAllocLimit_le length
      have hchn : ipcChannels = 4 := rfl
      exact .inl ⟨c, rfl, by omega, by simp [ipcAllocChannel, hscan]⟩

/-- A channel is available. -/
def Ipc.SomeAvailable (s : Ipc) : Prop := ∃ c < ipcChannels, s.availableBuffer.getLsbD c = true

instance : DecidablePred Ipc.SomeAvailable := fun s =>
  inferInstanceAs (Decidable (∃ c < ipcChannels, s.availableBuffer.getLsbD c = true))

/-- A command may use every channel. -/
theorem ipcAllocChannel_command (s : Ipc) :
    (s.SomeAvailable ∧ ∃ c < ipcChannels, s.availableBuffer.getLsbD c = true ∧
      ipcAllocChannel 0 s =
        (c, { s with availableBuffer := s.availableBuffer &&& ~~~(1#8 <<< c) })) ∨
    (¬ s.SomeAvailable ∧ ipcAllocChannel 0 s = (0xff, s)) := by
  obtain ⟨c, hscan, _, heq⟩ | ⟨hscan, heq⟩ := ipcAllocChannel_cases 0 s
  · obtain ⟨hlt, hbit⟩ := ipcAllocScan_some hscan
    exact .inl ⟨⟨c, hlt, hbit⟩, c, hlt, hbit, heq⟩
  · refine .inr ⟨?_, heq⟩
    rintro ⟨c, hc, hbit⟩
    rw [ipcAllocScan_none hscan c hc] at hbit
    cases hbit

/-- Taking a channel clears its bit only. -/
theorem getLsbD_take {availableBuffer : BitVec 8} {c j : Nat} (hj : j < 8) :
    (availableBuffer &&& ~~~(1#8 <<< c)).getLsbD j =
      (availableBuffer.getLsbD j && !decide (j = c)) := by
  simp only [BitVec.getLsbD_and, BitVec.getLsbD_not, BitVec.getLsbD_shiftLeft,
    BitVec.getLsbD_one, hj, decide_true, Bool.true_and]
  by_cases h : j = c
  · simp [h]
  · by_cases hlt : j < c
    · simp [h, hlt]
    · have hne : j - c ≠ 0 := by omega
      simp [h, hlt, hne]

/-- Giving a channel back sets its bit only. -/
theorem getLsbD_give {availableBuffer : BitVec 8} {c j : Nat} (hj : j < 8) :
    (availableBuffer ||| (1#8 <<< c)).getLsbD j =
      (availableBuffer.getLsbD j || decide (j = c)) := by
  simp only [BitVec.getLsbD_or, BitVec.getLsbD_shiftLeft, BitVec.getLsbD_one, hj, decide_true,
    Bool.true_and]
  by_cases h : j = c
  · simp [h]
  · by_cases hlt : j < c
    · simp [h, hlt]
    · have hne : j - c ≠ 0 := by omega
      simp [h, hlt, hne]

/-! ## the transitions behind the functions -/

/-- The messages written to a channel so far, oldest first. -/
def Ipc.sentTickets (s : Ipc) : List Nat := s.log.sent.map (·.ticket)

/-- The messages waiting in `ipc_msg_list`, first one first. -/
def Ipc.waitingTickets (s : Ipc) : List Nat := s.ipcMsgList.map (·.ticket)

@[simp] theorem sentTickets_insert (ticket chn : Nat) (format : UInt8) (length : UInt16)
    (callback : Option IpcTxCallback) (s : Ipc) :
    (ipcInsertMsg ticket chn format length callback s).sentTickets = s.sentTickets ++ [ticket] := by
  simp [Ipc.sentTickets, ipcInsertMsg]

@[simp] theorem waitingTickets_insert (ticket chn : Nat) (format : UInt8) (length : UInt16)
    (callback : Option IpcTxCallback) (s : Ipc) :
    (ipcInsertMsg ticket chn format length callback s).waitingTickets = s.waitingTickets := rfl

/-- The value a deferred message puts in the length field. -/
def IpcMsgElem.length (ele : IpcMsgElem) : UInt16 :=
  match ele.p with
  | .subMsg subMsg => subMsg
  | .payload length _ => length

/-- The length a deferred message asks `ipc_alloc_channel` for. -/
def IpcMsgElem.allocLength (ele : IpcMsgElem) : UInt16 :=
  match ele.p with
  | .subMsg _ => 0
  | .payload length _ => length

/-- The bytes a deferred message puts in the buffer of its channel. -/
def IpcMsgElem.data (ele : IpcMsgElem) : List UInt8 :=
  match ele.p with
  | .subMsg _ => []
  | .payload length buffer => buffer.take length.toNat

/-- Send `ele` on the free channel `chn`, with `data` in its buffer. -/
def Ipc.transmit (ele : IpcMsgElem) (data : List UInt8) (chn : Nat) (s : Ipc) : Ipc :=
  ipcInsertMsg ele.ticket chn ele.msg.code ele.length ele.callback
    { s with
      availableBuffer := s.availableBuffer &&& ~~~(1#8 <<< chn)
      shm := store s.shm (ipcGetBufferOffset .dsp2mcu chn) data }

@[simp] theorem sentTickets_transmit (ele : IpcMsgElem) (data : List UInt8) (chn : Nat)
    (s : Ipc) : (s.transmit ele data chn).sentTickets = s.sentTickets ++ [ele.ticket] := by
  simp [Ipc.sentTickets, Ipc.transmit, ipcInsertMsg]

@[simp] theorem waitingTickets_transmit (ele : IpcMsgElem) (data : List UInt8) (chn : Nat)
    (s : Ipc) : (s.transmit ele data chn).waitingTickets = s.waitingTickets := rfl

/-- Send `ele` if a channel is free for it, else append it to the list. -/
def Ipc.offer (ele : IpcMsgElem) (data : List UInt8) (s : Ipc) : Ipc :=
  match ipcAllocScan s.availableBuffer (ipcAllocLimit ele.allocLength) with
  | some chn => s.transmit ele data chn
  | none => { s with ipcMsgList := s.ipcMsgList ++ [ele] }

/-- The deferred form of an `ipc_msg_send` call. -/
def ipcMsgSendElem (msg : IpcMsgType) (subMsg : UInt16) (callback : Option IpcTxCallback)
    (s : Ipc) : IpcMsgElem :=
  ⟨s.nextTicket, callback, msg, .subMsg subMsg⟩

/-- The deferred form of an `ipc_msg_with_payload_send` call. -/
def ipcMsgWithPayloadElem (msg : IpcMsgType) (header : Nat) (headerLength : UInt16)
    (payload : Nat) (payloadLength : UInt16) (callback : Option IpcTxCallback)
    (s : Ipc) : IpcMsgElem :=
  ⟨s.nextTicket, callback, msg, .payload (headerLength + payloadLength)
    (if headerLength + payloadLength ≠ 0 then
      slice s.ram header headerLength.toNat ++ slice s.ram payload payloadLength.toNat else [])⟩

theorem ipcMsgSend_eq (msg : IpcMsgType) (subMsg : UInt16) (callback : Option IpcTxCallback)
    (s : Ipc) :
    ipcMsgSend msg subMsg callback s =
      (s.submit (ipcMsgSendSubmission msg subMsg callback)).offer
        (ipcMsgSendElem msg subMsg callback s) [] := by
  simp only [ipcMsgSend, Ipc.offer]
  obtain ⟨c, hscan, hff, heq⟩ | ⟨hscan, heq⟩ := ipcAllocChannel_cases 0
    (s.submit (ipcMsgSendSubmission msg subMsg callback))
  · have hscan' : ipcAllocScan (s.submit (ipcMsgSendSubmission msg subMsg callback)).availableBuffer
        (ipcAllocLimit (ipcMsgSendElem msg subMsg callback s).allocLength) = some c := hscan
    simp only [heq, hscan', ne_eq, hff, not_false_eq_true, if_true]
    simp [Ipc.transmit, ipcMsgSendElem, IpcMsgElem.length]
  · have hscan' : ipcAllocScan (s.submit (ipcMsgSendSubmission msg subMsg callback)).availableBuffer
        (ipcAllocLimit (ipcMsgSendElem msg subMsg callback s).allocLength) = none := hscan
    simp only [heq, hscan', ne_eq, not_true_eq_false, if_false]
    rfl

theorem ipcMsgWithPayloadSend_eq (msg : IpcMsgType) (header : Nat) (headerLength : UInt16)
    (payload : Nat) (payloadLength : UInt16) (callback : Option IpcTxCallback) (s : Ipc) :
    ipcMsgWithPayloadSend msg header headerLength payload payloadLength callback s =
      (s.submit (ipcMsgWithPayloadSubmission msg header headerLength payload payloadLength
          callback s)).offer
        (ipcMsgWithPayloadElem msg header headerLength payload payloadLength callback s)
        (slice s.ram header headerLength.toNat ++ slice s.ram payload payloadLength.toNat) := by
  simp only [ipcMsgWithPayloadSend, Ipc.offer]
  generalize hsub : s.submit (ipcMsgWithPayloadSubmission msg header headerLength payload
    payloadLength callback s) = s'
  have hram : s'.ram = s.ram := by rw [← hsub]; rfl
  obtain ⟨c, hscan, hff, heq⟩ | ⟨hscan, heq⟩ :=
    ipcAllocChannel_cases (headerLength + payloadLength) s'
  · have hscan' : ipcAllocScan s'.availableBuffer (ipcAllocLimit (ipcMsgWithPayloadElem msg header
        headerLength payload payloadLength callback s).allocLength) = some c := hscan
    -- the two copies into the channel buffer are one store of header and payload
    have hcopy := store_store_append s'.shm (ipcGetBufferOffset .dsp2mcu c)
      (slice s.ram header headerLength.toNat) (slice s.ram payload payloadLength.toNat)
    rw [length_slice] at hcopy
    simp only [heq, hscan', ne_eq, hff, not_false_eq_true, if_true, memcpy, hram, hcopy,
      Ipc.transmit]
    rfl
  · have hscan' : ipcAllocScan s'.availableBuffer (ipcAllocLimit (ipcMsgWithPayloadElem msg header
        headerLength payload payloadLength callback s).allocLength) = none := hscan
    simp only [heq, hscan', ne_eq, not_true_eq_false, if_false, hram]
    rfl

theorem ipcMsgSent_nil {s : Ipc} (h : s.ipcMsgList = []) : ipcMsgSent s = s := by
  simp [ipcMsgSent, h]

/-- `ipc_msg_sent` on a non-empty list: only the head is tried. -/
theorem ipcMsgSent_cons {s : Ipc} {ele : IpcMsgElem} {rest : List IpcMsgElem}
    (h : s.ipcMsgList = ele :: rest) :
    ipcMsgSent s =
      match ipcAllocScan s.availableBuffer (ipcAllocLimit ele.allocLength) with
      | some chn => ({ s with ipcMsgList := rest } : Ipc).transmit ele ele.data chn
      | none => s := by
  obtain ⟨ticket, callback, msg, p⟩ := ele
  simp only [ipcMsgSent, h]
  cases p with
  | subMsg subMsg =>
      obtain ⟨c, hscan, hff, heq⟩ | ⟨hscan, heq⟩ := ipcAllocChannel_cases 0 s
      · simp only [heq, hscan, IpcMsgElem.allocLength, ne_eq, hff, not_false_eq_true, if_true]
        simp [Ipc.transmit, IpcMsgElem.length, IpcMsgElem.data]
      · simp [heq, hscan, IpcMsgElem.allocLength]
  | payload length buffer =>
      obtain ⟨c, hscan, hff, heq⟩ | ⟨hscan, heq⟩ := ipcAllocChannel_cases length s
      · simp only [heq, hscan, IpcMsgElem.allocLength, ne_eq, hff, not_false_eq_true, if_true]
        by_cases hlen : length = 0
        · simp [hlen, Ipc.transmit, IpcMsgElem.length, IpcMsgElem.data]
        · simp [hlen, Ipc.transmit, IpcMsgElem.length, IpcMsgElem.data]
      · simp [heq, hscan, IpcMsgElem.allocLength]

/-- **Rule for `ipc_msg_sent`**: the head of the list is transmitted on the channel
found for it, or nothing happens. -/
theorem ipcMsgSent_rule {P : Ipc → Prop} {s : Ipc} (h : P s)
    (htransmit : ∀ ele rest chn, s.ipcMsgList = ele :: rest →
      ipcAllocScan s.availableBuffer (ipcAllocLimit ele.allocLength) = some chn →
      P (({ s with ipcMsgList := rest } : Ipc).transmit ele ele.data chn)) :
    P (ipcMsgSent s) := by
  cases hlist : s.ipcMsgList with
  | nil => rw [ipcMsgSent_nil hlist]; exact h
  | cons ele rest =>
      rw [ipcMsgSent_cons hlist]
      split
      · next chn hscan => exact htransmit ele rest chn hlist hscan
      · exact h

/-- A message that leaves the list is the next one in the log. -/
theorem tickets_transmit {s : Ipc} {ele : IpcMsgElem} {rest : List IpcMsgElem}
    (hlist : s.ipcMsgList = ele :: rest) (data : List UInt8) (chn : Nat) :
    (({ s with ipcMsgList := rest } : Ipc).transmit ele data chn).sentTickets ++
        (({ s with ipcMsgList := rest } : Ipc).transmit ele data chn).waitingTickets =
      s.sentTickets ++ s.waitingTickets := by
  rw [sentTickets_transmit, waitingTickets_transmit, List.append_assoc, Ipc.waitingTickets,
    Ipc.waitingTickets, hlist]
  rfl

theorem tickets_ipcMsgSent (s : Ipc) :
    (ipcMsgSent s).sentTickets ++ (ipcMsgSent s).waitingTickets =
      s.sentTickets ++ s.waitingTickets :=
  ipcMsgSent_rule (P := fun s' => s'.sentTickets ++ s'.waitingTickets =
    s.sentTickets ++ s.waitingTickets) rfl fun _ _ _ hlist _ => tickets_transmit hlist _ _

/-- `ipc_msg_sent` submits, completes and calls nothing. -/
theorem ipcMsgSent_log (s : Ipc) :
    (ipcMsgSent s).log.called = s.log.called ∧
      (ipcMsgSent s).log.completed = s.log.completed ∧
      (ipcMsgSent s).log.submitted = s.log.submitted :=
  ipcMsgSent_rule (P := fun s' => s'.log.called = s.log.called ∧
      s'.log.completed = s.log.completed ∧ s'.log.submitted = s.log.submitted)
    ⟨rfl, rfl, rfl⟩ fun _ _ _ _ _ => ⟨rfl, rfl, rfl⟩

/-! ## transitions of a run -/

/-- What a send offers to the channels: the message, its deferred form and
the bytes for the buffer of the channel. -/
def IpcOp.offer (s : Ipc) : IpcOp → Option (IpcSubmission × IpcMsgElem × List UInt8)
  | .msgSend msg subMsg callback =>
      some (ipcMsgSendSubmission msg subMsg callback, ipcMsgSendElem msg subMsg callback s, [])
  | .msgWithPayloadSend msg header headerLength payload payloadLength callback =>
      some (ipcMsgWithPayloadSubmission msg header headerLength payload payloadLength callback s,
        ipcMsgWithPayloadElem msg header headerLength payload payloadLength callback s,
        slice s.ram header headerLength.toNat ++ slice s.ram payload payloadLength.toNat)
  | _ => none

/-- The transitions a run is made of. -/
inductive IpcTransition (s : IpcSys) : IpcOp → IpcSys → Prop
  | offer {op : IpcOp} {m : IpcSubmission} {ele : IpcMsgElem} {data : List UInt8}
      (hoffer : op.offer s.ipc = some (m, ele, data)) :
      IpcTransition s op { s with ipc := (s.ipc.submit m).offer ele data }
  | take {length : UInt16} {c : Nat}
      (hscan : ipcAllocScan s.ipc.availableBuffer (ipcAllocLimit length) = some c) :
      IpcTransition s (.allocChannel length)
        ⟨{ s.ipc with availableBuffer := s.ipc.availableBuffer &&& ~~~(1#8 <<< c) },
          Function.update s.held c (some length)⟩
  | full {length : UInt16}
      (hscan : ipcAllocScan s.ipc.availableBuffer (ipcAllocLimit length) = none) :
      IpcTransition s (.allocChannel length) s
  | fill {chn : Nat} {bytes : List UInt8} (hheld : (s.held chn).isSome)
      (hchn : chn < ipcWithLoadChannels) :
      IpcTransition s (.writeBuffer chn bytes)
        { s with ipc := { s.ipc with
          shm := store s.ipc.shm (ipcGetBufferOffset .dsp2mcu chn) bytes } }
  | insert {chn : Nat} {format : UInt8} {length allocLength : UInt16}
      {callback : Option IpcTxCallback} (hheld : s.held chn = some allocLength) :
      IpcTransition s (.insertMsg chn format length callback)
        ⟨ipcInsertMsg s.ipc.nextTicket chn format length callback (s.ipc.submit
            (ipcInsertSubmission allocLength chn format length callback s.ipc)),
          Function.update s.held chn none⟩
  | free {chn : Nat} {allocLength : UInt16} (hheld : s.held chn = some allocLength) :
      IpcTransition s (.freeChannel chn)
        ⟨ipcFreeChannel chn s.ipc, Function.update s.held chn none⟩
  | isr {status : BitVec 32}
      (hflight : ∀ chn < ipcChannels, status.getLsbD (12 + chn) → (s.ipc.log.flight chn).isSome) :
      IpcTransition s (.isr status) { s with ipc := ipcIsr status s.ipc }
  | reuse {offset : Nat} {bytes : List UInt8} :
      IpcTransition s (.writeRam offset bytes)
        { s with ipc := { s.ipc with ram := store s.ipc.ram offset bytes } }

/-- Every step of a run is one of the transitions. -/
theorem ipcStep_transition {s s' : IpcSys} {op : IpcOp} (h : ipcStep s op = some s') :
    IpcTransition s op s' := by
  cases op with
  | msgSend msg subMsg callback =>
      simp only [ipcStep, ipcMsgSend_eq, Option.some.injEq] at h
      subst h
      exact .offer rfl
  | msgWithPayloadSend msg header headerLength payload payloadLength callback =>
      simp only [ipcStep, ipcMsgWithPayloadSend_eq, Option.some.injEq] at h
      subst h
      exact .offer rfl
  | allocChannel length =>
      simp only [ipcStep] at h
      obtain ⟨c, hscan, hff, heq⟩ | ⟨hscan, heq⟩ := ipcAllocChannel_cases length s.ipc
      · simp only [heq, ne_eq, hff, not_false_eq_true, if_true, Option.some.injEq] at h
        subst h
        exact .take hscan
      · simp only [heq, ne_eq, not_true_eq_false, if_false, Option.some.injEq] at h
        subst h
        exact .full hscan
  | writeBuffer chn bytes =>
      simp only [ipcStep] at h
      split at h
      · next hguard =>
          cases h
          exact .fill hguard.1 hguard.2
      · cases h
  | insertMsg chn format length callback =>
      simp only [ipcStep] at h
      cases hheld : s.held chn with
      | none => rw [hheld] at h; cases h
      | some allocLength =>
          rw [hheld] at h
          cases h
          exact .insert hheld
  | freeChannel chn =>
      simp only [ipcStep] at h
      cases hheld : s.held chn with
      | none => rw [hheld] at h; cases h
      | some allocLength =>
          rw [hheld] at h
          cases h
          exact .free hheld
  | isr status =>
      simp only [ipcStep] at h
      split at h
      · next hguard =>
          cases h
          exact .isr hguard
      · cases h
  | writeRam offset bytes =>
      cases h
      exact .reuse

/-- Every transition is a step of a run. -/
theorem IpcTransition.step {s s' : IpcSys} {op : IpcOp} (h : IpcTransition s op s') :
    ipcStep s op = some s' := by
  cases h with
  | offer hoffer =>
      cases op with
      | msgSend msg subMsg callback =>
          cases hoffer
          rw [ipcStep, ipcMsgSend_eq]
      | msgWithPayloadSend msg header headerLength payload payloadLength callback =>
          cases hoffer
          rw [ipcStep, ipcMsgWithPayloadSend_eq]
      | _ => cases hoffer
  | @take length c hscan =>
      obtain ⟨c', hscan', hff, heq⟩ | ⟨hnone, _⟩ := ipcAllocChannel_cases length s.ipc
      · cases hscan.symm.trans hscan'
        simp only [ipcStep, heq, ne_eq, hff, not_false_eq_true, if_true]
      · cases hscan.symm.trans hnone
  | @full length hscan =>
      obtain ⟨c', hscan', _⟩ | ⟨_, heq⟩ := ipcAllocChannel_cases length s.ipc
      · cases hscan.symm.trans hscan'
      · simp only [ipcStep, heq, ne_eq, not_true_eq_false, if_false]
  | fill hheld hchn => exact if_pos ⟨hheld, hchn⟩
  | insert hheld => simp only [ipcStep, hheld]
  | free hheld => simp only [ipcStep, hheld]
  | isr hflight => exact if_pos hflight
  | reuse => rfl

/-! ## the interrupt handler -/

/-- **Rule for two runs of `ipc_isr`** with one status word: the channels are
completed in order, so a relation indexed by the channels already dealt with
is carried through one channel at a time; logging received messages keeps it. -/
theorem ipcIsr_relate {J : Nat → Ipc → Ipc → Prop} (status : BitVec 32) (s s' : Ipc)
    (hset : ∀ chn < ipcChannels, ∀ s s', status.getLsbD (12 + chn) = true → J chn s s' →
      J (chn + 1) (ipcIsrComplete chn s) (ipcIsrComplete chn s'))
    (hclear : ∀ chn < ipcChannels, ∀ s s', status.getLsbD (12 + chn) = false → J chn s s' →
      J (chn + 1) s s')
    (hin : ∀ s s' received received', J ipcChannels s s' →
      J ipcChannels { s with log := { s.log with received := received } }
        { s' with log := { s'.log with received := received' } })
    (h : J 0 s s') : J ipcChannels (ipcIsr status s) (ipcIsr status s') := by
  have hout : ∀ chn < ipcChannels, ∀ s s', J chn s s' →
      J (chn + 1) (ipcIsrMsgOut status chn s) (ipcIsrMsgOut status chn s') := by
    intro chn hchn s s' hs
    unfold ipcIsrMsgOut
    cases hbit : status.getLsbD (12 + chn) with
    | true => exact hset chn hchn s s' hbit hs
    | false => exact hclear chn hchn s s' hbit hs
  have hlog : ∀ chn s, ∃ received, ipcIsrMsgIn status chn s =
      { s with log := { s.log with received := received } } := by
    intro chn s
    unfold ipcIsrMsgIn
    split
    · split
      · exact ⟨_, rfl⟩
      · exact ⟨_, rfl⟩
    · exact ⟨_, rfl⟩
  have hmsgIn : ∀ chn s s', J ipcChannels s s' →
      J ipcChannels (ipcIsrMsgIn status chn s) (ipcIsrMsgIn status chn s') := by
    intro chn s s' hs
    obtain ⟨received, heq⟩ := hlog chn s
    obtain ⟨received', heq'⟩ := hlog chn s'
    rw [heq, heq']
    exact hin s s' received received' hs
  have h1 := hout 0 (by decide) _ _ h
  have h2 := hout 1 (by decide) _ _ h1
  have h3 := hout 2 (by decide) _ _ h2
  have h4 := hout 3 (by decide) _ _ h3
  exact hmsgIn 3 _ _ (hmsgIn 2 _ _ (hmsgIn 1 _ _ (hmsgIn 0 _ _ h4)))

/-- **Rule for `ipc_isr`**, for a property of one run. -/
theorem ipcIsr_rule {J : Nat → Ipc → Prop} (status : BitVec 32) (s : Ipc)
    (hset : ∀ chn < ipcChannels, ∀ s, status.getLsbD (12 + chn) = true → J chn s →
      J (chn + 1) (ipcIsrComplete chn s))
    (hclear : ∀ chn < ipcChannels, ∀ s, status.getLsbD (12 + chn) = false → J chn s →
      J (chn + 1) s)
    (hin : ∀ s received, J ipcChannels s →
      J ipcChannels { s with log := { s.log with received := received } })
    (h : J 0 s) : J ipcChannels (ipcIsr status s) :=
  ipcIsr_relate status s s (J := fun chn s _ => J chn s)
    (fun chn hchn s _ => hset chn hchn s) (fun chn hchn s _ => hclear chn hchn s)
    (fun s _ received _ => hin s received) h

/-- What is about the list, the messages sent and the messages submitted only,
and kept by `ipc_msg_sent`, is kept by `ipc_isr`. -/
theorem ipcIsr_keep {P : Ipc → Prop}
    (hframe : ∀ s s' : Ipc, P s → s'.ipcMsgList = s.ipcMsgList → s'.log.sent = s.log.sent →
      s'.log.submitted = s.log.submitted → P s')
    (hsent : ∀ s, P s → P (ipcMsgSent s)) {status : BitVec 32} {s : Ipc} (h : P s) :
    P (ipcIsr status s) := by
  refine ipcIsr_rule status s (J := fun _ s => P s) ?_ (fun _ _ _ _ hs => hs)
    (fun s _ hs => hframe s _ hs rfl rfl rfl) h
  intro chn _ s _ hs
  have hretry : P (ipcMsgSent (ipcFreeChannel chn (s.complete chn))) :=
    hsent _ (hframe s _ hs rfl rfl rfl)
  unfold ipcIsrComplete
  cases s.txCallback chn with
  | none => exact hretry
  | some callback =>
      cases callback with
      | ipcFreeChannel => exact hframe _ _ hretry rfl rfl rfl
      | user id => exact hframe _ _ hretry rfl rfl rfl

end Fr5080
