import Mathlib.Data.List.Perm.Basic
import Fr5080.Ipc.Run

/-!
# Fr5080.Ipc.Delivery

Every submitted message is transmitted exactly once, and as submitted.

`Ipc.Recorded` ties the history variables together: the tickets in the
deferred list and in the transmission log are together all tickets given out,
each once, and every entry carries the message of its ticket.  The invariant
needs no assumption about channels or callbacks, so it holds in every run.
-/

namespace Fr5080

open Embedded

/-! ## carrying a message -/

/-- The deferred message `ele` is the submitted message `m`. -/
def IpcMsgElem.Carries (ele : IpcMsgElem) (m : IpcSubmission) : Prop :=
  m.format = ele.msg.code ∧ m.callback = ele.callback ∧
    match ele.p with
    | .subMsg subMsg => m.kind = .msgSend ∧ m.length = subMsg.toNat ∧ m.allocLength = 0
    | .payload length buffer => m.kind = .payloadSend ∧ m.bytes.length = m.length ∧
        m.allocLength = length.toNat ∧ length.toNat = m.length % 2 ^ 16 ∧
        (length ≠ 0 → buffer = m.bytes)

/-- The channel write `t` is the submitted message `m`: the register holds
its type and the low ten bits of its length, and for a payload message the
buffer of the channel holds the header and payload bytes of the call. -/
def IpcTransmission.Carries (t : IpcTransmission) (m : IpcSubmission) : Prop :=
  t.msg.format = m.format.toNat % 2 ^ 4 ∧ t.msg.length = m.length % 2 ^ 10 ∧ t.msg.tag = 1 ∧
    (m.kind = .payloadSend → m.length < 2 ^ 16 →
      slice t.shm (ipcGetBufferOffset .dsp2mcu t.chn) m.length = m.bytes)

/-- The deferred list and the transmission log account for every submitted
message exactly once. -/
structure Ipc.Recorded (s : Ipc) : Prop where
  tickets : (s.sentTickets ++ s.waitingTickets).Perm (List.range s.log.submitted.length)
  queued : ∀ ele ∈ s.ipcMsgList, ∃ m, s.log.submitted[ele.ticket]? = some m ∧ ele.Carries m
  written : ∀ t ∈ s.log.sent, ∃ m, s.log.submitted[t.ticket]? = some m ∧ t.Carries m

/-- The bytes a send puts in the buffer of its channel are those of the message. -/
def IpcMsgElem.DataOf (data : List UInt8) (m : IpcSubmission) : Prop :=
  m.kind = .payloadSend → m.length < 2 ^ 16 → data = m.bytes ∧ data.length = m.length

theorem IpcMsgElem.Carries.length_mod {ele : IpcMsgElem} {m : IpcSubmission}
    (h : ele.Carries m) : ele.length.toNat % 2 ^ 10 = m.length % 2 ^ 10 := by
  obtain ⟨ticket, callback, msg, p⟩ := ele
  obtain ⟨_, _, hp⟩ := h
  cases p with
  | subMsg subMsg => simp only [IpcMsgElem.length, hp.2.1]
  | payload length buffer =>
      simp only [IpcMsgElem.length]
      omega

theorem IpcMsgElem.Carries.allocLength_eq {ele : IpcMsgElem} {m : IpcSubmission}
    (h : ele.Carries m) : m.allocLength = ele.allocLength.toNat := by
  obtain ⟨ticket, callback, msg, p⟩ := ele
  obtain ⟨_, _, hp⟩ := h
  cases p with
  | subMsg subMsg => exact hp.2.2
  | payload length buffer => exact hp.2.2.1

/-- A payload message that fits 16 bits is allocated for and sent with its length. -/
theorem IpcMsgElem.Carries.payload_length {ele : IpcMsgElem} {m : IpcSubmission}
    (h : ele.Carries m) (hkind : m.kind = .payloadSend) (hlt : m.length < 2 ^ 16) :
    ele.length = ele.allocLength ∧ ele.length.toNat = m.length := by
  obtain ⟨ticket, callback, msg, p⟩ := ele
  obtain ⟨_, _, hp⟩ := h
  cases p with
  | subMsg subMsg => cases hkind.symm.trans hp.1
  | payload length buffer =>
      obtain ⟨_, _, _, hmod, _⟩ := hp
      exact ⟨rfl, hmod.trans (Nat.mod_eq_of_lt hlt)⟩

/-- The deferred path puts the bytes of the call in the channel buffer. -/
theorem IpcMsgElem.Carries.dataOf {ele : IpcMsgElem} {m : IpcSubmission}
    (h : ele.Carries m) : IpcMsgElem.DataOf ele.data m := by
  obtain ⟨ticket, callback, msg, p⟩ := ele
  obtain ⟨_, _, hp⟩ := h
  intro hkind hlt
  cases p with
  | subMsg subMsg => rw [hkind] at hp; cases hp.1
  | payload length buffer =>
      obtain ⟨_, hlen, _, hmod, hbuf⟩ := hp
      have heq : length.toNat = m.length := by omega
      simp only [IpcMsgElem.data]
      by_cases hzero : length = 0
      · have hnil : m.bytes = [] := by
          apply List.eq_nil_of_length_eq_zero
          rw [hlen, ← heq, hzero]
          rfl
        rw [hnil, ← heq, hzero]
        exact ⟨rfl, rfl⟩
      · rw [hbuf hzero, heq, ← hlen, List.take_length]
        exact ⟨rfl, rfl⟩

/-- Both kinds of send offer the message they submit. -/
theorem IpcOp.offer_carries (op : IpcOp) {s : Ipc} {m : IpcSubmission} {ele : IpcMsgElem}
    {data : List UInt8} (h : op.offer s = some (m, ele, data)) :
    ele.ticket = s.nextTicket ∧ ele.Carries m ∧ IpcMsgElem.DataOf data m := by
  cases op with
  | msgSend msg subMsg callback =>
      cases h
      refine ⟨rfl, ⟨rfl, rfl, rfl, rfl, rfl⟩, ?_⟩
      intro hkind
      cases hkind
  | msgWithPayloadSend msg header headerLength payload payloadLength callback =>
      cases h
      refine ⟨rfl, ⟨rfl, rfl, rfl, ?_, rfl, ?_, ?_⟩, ?_⟩
      · simp [ipcMsgWithPayloadSubmission]
      · simp [ipcMsgWithPayloadSubmission, UInt16.toNat_add]
      · intro hne
        exact if_pos hne
      · intro _ _
        exact ⟨rfl, by simp [ipcMsgWithPayloadSubmission]⟩
  | allocChannel length => cases h
  | writeBuffer chn bytes => cases h
  | insertMsg chn format length callback => cases h
  | freeChannel chn => cases h
  | isr status => cases h
  | writeRam offset bytes => cases h

/-! ## what keeps the record -/

/-- Only the list and the log of transmissions and submissions matter. -/
theorem Ipc.Recorded.frame {s s' : Ipc} (h : s.Recorded)
    (hlist : s'.ipcMsgList = s.ipcMsgList) (hsent : s'.log.sent = s.log.sent)
    (hsub : s'.log.submitted = s.log.submitted) : s'.Recorded := by
  constructor
  · rw [Ipc.sentTickets, Ipc.waitingTickets, hlist, hsent, hsub]; exact h.tickets
  · rw [hlist, hsub]; exact h.queued
  · rw [hsent, hsub]; exact h.written

/-- The next ticket joins the others, at either end of the waiting ones. -/
theorem tickets_new {sent waiting : List Nat} {n : Nat}
    (h : (sent ++ waiting).Perm (List.range n)) :
    ((sent ++ [n]) ++ waiting).Perm (List.range (n + 1)) ∧
      (sent ++ (waiting ++ [n])).Perm (List.range (n + 1)) := by
  have hright := h.append_right [n]
  rw [← List.range_succ, List.append_assoc] at hright
  refine ⟨?_, hright⟩
  rw [List.append_assoc]
  exact (List.Perm.append_left _ List.perm_append_comm).trans hright

/-- A message that is found at its ticket is still found after more submissions. -/
theorem getElem?_submit {l : List IpcSubmission} {i : Nat} {m m' : IpcSubmission}
    (h : l[i]? = some m) : (l ++ [m'])[i]? = some m := by
  rw [List.getElem?_append_left (List.getElem?_eq_some_iff.mp h).1, h]

/-- Writing a message to a channel records it as transmitted. -/
theorem transmit_carries {ele : IpcMsgElem} {m : IpcSubmission} {data : List UInt8} {chn : Nat}
    {s : Ipc} (hele : ele.Carries m) (hdata : IpcMsgElem.DataOf data m) :
    IpcTransmission.Carries
      ⟨ele.ticket, chn, ipcMsgWord chn ele.msg.code ele.length,
        store s.shm (ipcGetBufferOffset .dsp2mcu chn) data, s.log.flight chn⟩ m := by
  refine ⟨by rw [hele.1]; rfl, hele.length_mod, rfl, ?_⟩
  intro hkind hlt
  obtain ⟨hd, hlen⟩ := hdata hkind hlt
  show slice (store s.shm (ipcGetBufferOffset .dsp2mcu chn) data) _ m.length = m.bytes
  rw [← hlen, slice_store_self, hd]

/-- A new message is transmitted or appended to the list. -/
theorem Ipc.Recorded.submit_offer {s : Ipc} (h : s.Recorded) {m : IpcSubmission}
    {ele : IpcMsgElem} {data : List UInt8} (hticket : ele.ticket = s.nextTicket)
    (hele : ele.Carries m) (hdata : IpcMsgElem.DataOf data m) :
    ((s.submit m).offer ele data).Recorded := by
  have hnew : (s.log.submitted ++ [m])[ele.ticket]? = some m := by
    rw [hticket, Ipc.nextTicket]; simp
  have hlen : (s.log.submitted ++ [m]).length = s.nextTicket + 1 := by
    simp [Ipc.nextTicket]
  unfold Ipc.offer
  split
  · next chn _ =>
      constructor
      · rw [sentTickets_transmit, waitingTickets_transmit, hticket]
        show ((s.sentTickets ++ [s.nextTicket]) ++ s.waitingTickets).Perm
          (List.range (s.log.submitted ++ [m]).length)
        rw [hlen]
        exact (tickets_new h.tickets).1
      · intro e he
        obtain ⟨m', hm', hc⟩ := h.queued e he
        exact ⟨m', getElem?_submit hm', hc⟩
      · intro t ht
        obtain ht | ht := List.mem_append.mp ht
        · obtain ⟨m', hm', hc⟩ := h.written t ht
          exact ⟨m', getElem?_submit hm', hc⟩
        · rw [List.mem_singleton] at ht
          subst ht
          exact ⟨m, hnew, transmit_carries (s := s) hele hdata⟩
  · constructor
    · have hwait : (s.ipcMsgList ++ [ele]).map (·.ticket) = s.waitingTickets ++ [s.nextTicket] := by
        rw [List.map_append, List.map_singleton, hticket, Ipc.waitingTickets]
      show (s.sentTickets ++ (s.ipcMsgList ++ [ele]).map (·.ticket)).Perm
        (List.range (s.log.submitted ++ [m]).length)
      rw [hwait, hlen]
      exact (tickets_new h.tickets).2
    · intro e he
      obtain he | he := List.mem_append.mp he
      · obtain ⟨m', hm', hc⟩ := h.queued e he
        exact ⟨m', getElem?_submit hm', hc⟩
      · rw [List.mem_singleton] at he
        subst he
        exact ⟨m, hnew, hele⟩
    · intro t ht
      obtain ⟨m', hm', hc⟩ := h.written t ht
      exact ⟨m', getElem?_submit hm', hc⟩

/-- `ipc_msg_sent` moves the head of the list to the log, or does nothing. -/
theorem Ipc.Recorded.ipcMsgSent {s : Ipc} (h : s.Recorded) : (ipcMsgSent s).Recorded := by
  refine ipcMsgSent_rule h ?_
  intro ele rest chn hlist _
  obtain ⟨m, hm, hele⟩ := h.queued ele (by rw [hlist]; exact List.mem_cons_self)
  constructor
  · rw [tickets_transmit hlist]
    exact h.tickets
  · intro e he
    exact h.queued e (by rw [hlist]; exact List.mem_cons_of_mem ele he)
  · intro t ht
    obtain ht | ht := List.mem_append.mp ht
    · exact h.written t ht
    · rw [List.mem_singleton] at ht
      subst ht
      exact ⟨m, hm, transmit_carries (s := s) hele hele.dataOf⟩

/-- A holder transmits its own message. -/
theorem Ipc.Recorded.insert {s : Ipc} (h : s.Recorded) (allocLength : UInt16) (chn : Nat)
    (format : UInt8) (length : UInt16) (callback : Option IpcTxCallback) :
    (ipcInsertMsg s.nextTicket chn format length callback
      (s.submit (ipcInsertSubmission allocLength chn format length callback s))).Recorded := by
  constructor
  · rw [sentTickets_insert, waitingTickets_insert]
    show ((s.sentTickets ++ [s.nextTicket]) ++ s.waitingTickets).Perm
      (List.range (s.log.submitted ++ [_]).length)
    rw [List.length_append, List.length_singleton]
    exact (tickets_new h.tickets).1
  · intro e he
    obtain ⟨m', hm', hc⟩ := h.queued e he
    exact ⟨m', getElem?_submit hm', hc⟩
  · intro t ht
    obtain ht | ht := List.mem_append.mp ht
    · obtain ⟨m', hm', hc⟩ := h.written t ht
      exact ⟨m', getElem?_submit hm', hc⟩
    · rw [List.mem_singleton] at ht
      subst ht
      refine ⟨_, List.getElem?_concat_length, rfl, rfl, rfl, ?_⟩
      intro hkind
      cases hkind

/-- Every operation of a run keeps the record. -/
theorem Ipc.Recorded.step {s s' : IpcSys} {op : IpcOp} (h : s.ipc.Recorded)
    (hstep : ipcStep s op = some s') : s'.ipc.Recorded := by
  cases ipcStep_transition hstep with
  | offer hoffer =>
      obtain ⟨hticket, hele, hdata⟩ := IpcOp.offer_carries _ hoffer
      exact h.submit_offer hticket hele hdata
  | take hscan => exact h.frame rfl rfl rfl
  | full hscan => exact h
  | fill hheld hchn => exact h.frame rfl rfl rfl
  | insert hheld => exact h.insert ..
  | free hheld => exact h.frame rfl rfl rfl
  | isr hflight =>
      exact ipcIsr_keep (fun _ _ hs => hs.frame) (fun _ hs => hs.ipcMsgSent) h
  | reuse => exact h.frame rfl rfl rfl

theorem recorded_start (ram shm : Nat → UInt8) (msgIn : Nat → IpcMsg) :
    (ipcStart ram shm msgIn).ipc.Recorded where
  tickets := List.Perm.refl _
  queued := by intro ele hele; cases hele
  written := by intro t ht; cases ht

/-- The record holds after every run. -/
theorem recorded_run {ram shm : Nat → UInt8} {msgIn : Nat → IpcMsg} {ops : List IpcOp}
    {s : IpcSys} (h : run ipcStep (ipcStart ram shm msgIn) ops = some s) : s.ipc.Recorded :=
  run_inv (I := fun s => s.ipc.Recorded) (fun _ _ _ hs hstep => hs.step hstep)
    (recorded_start ram shm msgIn) h

/-! ## exactly-once transmission -/

/-- The operations of a run made of sends, completions and reuse of the
callers' buffers, with payload messages of at most 512 bytes. -/
def IpcOp.Transfer : IpcOp → Prop
  | .msgSend .. | .isr _ | .writeRam .. => True
  | .msgWithPayloadSend _ _ headerLength _ payloadLength _ =>
      headerLength.toNat + payloadLength.toNat ≤ 512
  | .allocChannel _ | .writeBuffer .. | .insertMsg .. | .freeChannel _ => False

/-- What `Transfer` operations submit. -/
def IpcSubmission.Transfer (m : IpcSubmission) : Prop :=
  m.format.toNat < 2 ^ 4 ∧ m.kind ≠ .direct ∧ (m.kind = .payloadSend → m.length ≤ 512)

theorem IpcMsgType.code_lt (msg : IpcMsgType) : msg.code.toNat < 2 ^ 4 := by
  cases msg <;> decide

/-- Neither `ipc_msg_sent` nor a callback submits a message. -/
theorem submitted_ipcIsr (status : BitVec 32) (s : Ipc) :
    (ipcIsr status s).log.submitted = s.log.submitted :=
  ipcIsr_keep (P := fun s' => s'.log.submitted = s.log.submitted)
    (fun _ _ hs _ _ hsub => hsub.trans hs)
    (fun s' hs => (ipcMsgSent_log s').2.2.trans hs) rfl

theorem submitted_offer (m : IpcSubmission) (ele : IpcMsgElem) (data : List UInt8) (s : Ipc) :
    ((s.submit m).offer ele data).log.submitted = s.log.submitted ++ [m] := by
  unfold Ipc.offer
  split <;> rfl

/-- A transfer offers one of the two kinds of send, with a type that fits the
register and at most 512 bytes. -/
theorem IpcOp.Transfer.offer {op : IpcOp} (hop : op.Transfer) {s : Ipc} {m : IpcSubmission}
    {ele : IpcMsgElem} {data : List UInt8} (h : op.offer s = some (m, ele, data)) :
    m.Transfer := by
  cases op with
  | msgSend msg subMsg callback =>
      cases h
      refine ⟨msg.code_lt, ?_, ?_⟩ <;> intro hkind <;> cases hkind
  | msgWithPayloadSend msg header headerLength payload payloadLength callback =>
      cases h
      refine ⟨msg.code_lt, ?_, fun _ => hop⟩
      intro hkind
      cases hkind
  | allocChannel length => cases h
  | writeBuffer chn bytes => cases h
  | insertMsg chn format length callback => cases h
  | freeChannel chn => cases h
  | isr status => cases h
  | writeRam offset bytes => cases h

/-- In a run of transfers every submitted message is a transfer. -/
theorem transfer_step {s s' : IpcSys} {op : IpcOp} (hop : op.Transfer)
    (h : ∀ m ∈ s.ipc.log.submitted, m.Transfer) (hstep : ipcStep s op = some s') :
    ∀ m ∈ s'.ipc.log.submitted, m.Transfer := by
  cases ipcStep_transition hstep with
  | offer hoffer =>
      simp only [submitted_offer]
      intro m hm
      obtain hm | hm := List.mem_append.mp hm
      · exact h m hm
      · rw [List.mem_singleton.mp hm]
        exact hop.offer hoffer
  | isr hflight =>
      simp only [submitted_ipcIsr]
      exact h
  | reuse => exact h
  | take hscan => exact hop.elim
  | full hscan => exact hop.elim
  | fill hheld hchn => exact hop.elim
  | insert hheld => exact hop.elim
  | free hheld => exact hop.elim

/-- The register and the buffer of a channel write show the message `m`. -/
def IpcTransmission.Shows (t : IpcTransmission) (m : IpcSubmission) : Prop :=
  t.msg.format = m.format.toNat ∧
    (m.kind = .msgSend → t.msg.length = m.length % 2 ^ 10) ∧
    (m.kind = .payloadSend → t.msg.length = m.length ∧
      slice t.shm (ipcGetBufferOffset .dsp2mcu t.chn) m.length = m.bytes)

/-- **Exactly-once transmission**: in every run of sends and completions, the
messages written to a channel and the messages waiting in `ipc_msg_list` are
together all submitted messages, each once; every write shows the message it
is for — its type, its length (of a `sub_msg` the ten bits that the register
has) and the bytes of the call — and every waiting message still carries it. -/
theorem ipc_exactly_once (ram shm : Nat → UInt8) (msgIn : Nat → IpcMsg) (ops : List IpcOp)
    (s : IpcSys) (hops : ∀ op ∈ ops, op.Transfer)
    (h : run ipcStep (ipcStart ram shm msgIn) ops = some s) :
    (s.ipc.sentTickets ++ s.ipc.waitingTickets).Perm (List.range s.ipc.log.submitted.length) ∧
      (∀ t ∈ s.ipc.log.sent, ∃ m, s.ipc.log.submitted[t.ticket]? = some m ∧ t.Shows m) ∧
      ∀ ele ∈ s.ipc.ipcMsgList, ∃ m,
        s.ipc.log.submitted[ele.ticket]? = some m ∧ ele.Carries m := by
  have hrec := recorded_run h
  have htransfer : ∀ m ∈ s.ipc.log.submitted, m.Transfer :=
    run_inv_of_forall (I := fun s => ∀ m ∈ s.ipc.log.submitted, m.Transfer)
      (fun _ _ _ hs hop hstep => transfer_step hop hs hstep)
      (by intro m hm; cases hm) hops h
  refine ⟨hrec.tickets, ?_, hrec.queued⟩
  intro t ht
  obtain ⟨m, hm, hformat, hlength, _, hbytes⟩ := hrec.written t ht
  obtain ⟨hcode, _, hle⟩ := htransfer m (List.mem_of_getElem? hm)
  refine ⟨m, hm, ?_, fun _ => hlength, fun hkind => ?_⟩
  · rw [hformat, Nat.mod_eq_of_lt hcode]
  · have hlen := hle hkind
    exact ⟨by rw [hlength, Nat.mod_eq_of_lt (by omega)], hbytes hkind (by omega)⟩

/-- Three payload messages, of which the last one has to wait for channel 1,
and whose header is reused while it waits. -/
def deferredExchange : List IpcOp :=
  [.msgWithPayloadSend .flashOperation 0 4 16 8 none,
    .msgWithPayloadSend .flashOperation 0 4 32 2 none,
    .msgWithPayloadSend .flashOperation 4 4 48 3 none,
    .writeRam 4 [0, 0, 0, 0], .isr 0x2000#32]

theorem ipc_exactly_once_deferred :
    ∃ s, run ipcStep (ipcStart (fun a => UInt8.ofNat a) (fun _ => 0) fun _ => ⟨0, 0, 0, 0⟩)
      deferredExchange = some s ∧
      (s.ipc.sentTickets ++ s.ipc.waitingTickets).Perm (List.range 3) ∧
      ∀ t ∈ s.ipc.log.sent, ∃ m, s.ipc.log.submitted[t.ticket]? = some m ∧ t.Shows m := by
  refine ⟨_, rfl, ?_⟩
  have h := ipc_exactly_once (fun a => UInt8.ofNat a) (fun _ => 0) (fun _ => ⟨0, 0, 0, 0⟩)
    deferredExchange _ (by simp [deferredExchange, IpcOp.Transfer]) rfl
  exact ⟨h.1, h.2.1⟩

/-- A `sub_msg` of 1024 does not fit the ten bits of the length field: the
message is transmitted with length 0. -/
theorem sub_msg_truncated :
    ¬ ∀ (ram shm : Nat → UInt8) (msgIn : Nat → IpcMsg) (ops : List IpcOp) (s : IpcSys),
      (∀ op ∈ ops, op.Transfer) → run ipcStep (ipcStart ram shm msgIn) ops = some s →
      ∀ t ∈ s.ipc.log.sent, ∃ m, s.ipc.log.submitted[t.ticket]? = some m ∧
        t.msg.length = m.length := by
  intro h
  obtain ⟨m, hm, hlength⟩ := h (fun _ => 0) (fun _ => 0) (fun _ => ⟨0, 0, 0, 0⟩)
    [.msgSend .withoutPayload 1024 none] _ (by simp [IpcOp.Transfer]) rfl _
    List.mem_cons_self
  cases hm
  exact absurd hlength (by decide)

end Fr5080
