import Mathlib.Data.List.Pairwise
import Fr5080.Ipc.Delivery

/-!
# Fr5080.Ipc.Order

The order in which messages of one kind reach the channels.

`ipc_msg_list` is appended at the back and served at the front only, which
keeps deferred messages in order.  A new send, however, allocates a channel
without looking at the list: when a payload message at the head waits for
channel 0 or 1 while channel 2 or 3 is free, a new command is written before
the commands that wait behind the head (`command_overtakes`).

`no_overtaking_iff` says when this does not happen: a run keeps the order of
submission exactly when no send finds both a waiting message of its kind and
a free channel.
-/

namespace Fr5080

open Embedded

/-! ## kinds -/

/-- The messages that are to keep their order: those of `ipc_msg_send`, and
those of `ipc_msg_with_payload_send` with something to carry. -/
def IpcSubmission.queue (m : IpcSubmission) : Option IpcKind :=
  match m.kind with
  | .msgSend => some .msgSend
  | .payloadSend => if m.length ≠ 0 then some .payloadSend else none
  | .direct => none

/-- Messages `i` and `j` were submitted and are of the same kind. -/
def SameQueue (submitted : List IpcSubmission) (i j : Nat) : Prop :=
  ∃ k, submitted[i]?.bind (·.queue) = some k ∧ submitted[j]?.bind (·.queue) = some k

theorem SameQueue.symm {submitted : List IpcSubmission} {i j : Nat}
    (h : SameQueue submitted i j) : SameQueue submitted j i := by
  obtain ⟨k, hi, hj⟩ := h
  exact ⟨k, hj, hi⟩

/-- Later submissions do not change the kind of a message. -/
theorem sameQueue_append {submitted more : List IpcSubmission} {i j : Nat}
    (hi : i < submitted.length) (hj : j < submitted.length) :
    SameQueue (submitted ++ more) i j ↔ SameQueue submitted i j := by
  unfold SameQueue
  rw [List.getElem?_append_left hi, List.getElem?_append_left hj]

/-- Whatever is written to a channel, every earlier message of its kind was
written before it. -/
def Ipc.NoOvertaking (s : Ipc) : Prop :=
  ∀ before w after, s.log.sent = before ++ w :: after →
    ∀ i < w.ticket, SameQueue s.log.submitted i w.ticket → ∃ v ∈ before, v.ticket = i

/-- No message of the kind of `m` waits in the list. -/
def Ipc.NoneWaiting (s : Ipc) (m : IpcSubmission) : Prop :=
  ∀ ele ∈ s.ipcMsgList, ∀ m', s.log.submitted[ele.ticket]? = some m' →
    m.queue = none ∨ m'.queue ≠ m.queue

/-- The condition on a send: a message of its kind waits only if there is no
channel for the new one either. -/
def SendsInOrder (s : IpcSys) (op : IpcOp) : Prop :=
  ∀ m ele data, op.offer s.ipc = some (m, ele, data) →
    ipcAllocScan s.ipc.availableBuffer (ipcAllocLimit ele.allocLength) = none ∨
      s.ipc.NoneWaiting m

instance (s : Ipc) (m : IpcSubmission) : Decidable (s.NoneWaiting m) :=
  inferInstanceAs (Decidable (∀ ele ∈ s.ipcMsgList, ∀ m' ∈ s.log.submitted[ele.ticket]?,
    m.queue = none ∨ m'.queue ≠ m.queue))

instance (s : IpcSys) (op : IpcOp) : Decidable (SendsInOrder s op) :=
  match h : op.offer s.ipc with
  | none => .isTrue fun m ele data hoffer => absurd (h.symm.trans hoffer) (by simp)
  | some (m, ele, data) =>
      decidable_of_iff
        (ipcAllocScan s.ipc.availableBuffer (ipcAllocLimit ele.allocLength) = none ∨
          s.ipc.NoneWaiting m) (by simp [SendsInOrder, h])

/-! ## sent and waiting messages in one order -/

/-- Of the messages of one kind in `tickets`, earlier ones stand before later ones. -/
def InOrder (submitted : List IpcSubmission) (tickets : List Nat) : Prop :=
  tickets.Pairwise fun i j => SameQueue submitted i j → i < j

/-- The messages written so far, then those waiting, keep the order of submission. -/
structure Ipc.Ordered (s : Ipc) : Prop where
  recorded : s.Recorded
  order : InOrder s.log.submitted (s.sentTickets ++ s.waitingTickets)

theorem Ipc.Recorded.ticket_lt {s : Ipc} (h : s.Recorded) {i : Nat}
    (hi : i ∈ s.sentTickets ++ s.waitingTickets) : i < s.log.submitted.length :=
  List.mem_range.mp (h.tickets.mem_iff.mp hi)

/-- Messages in order are not overtaken. -/
theorem Ipc.Ordered.noOvertaking {s : Ipc} (h : s.Ordered) : s.NoOvertaking := by
  intro before w after hsent i hi hsame
  have hlen : i < s.log.submitted.length := by
    obtain ⟨k, hk, _⟩ := hsame
    obtain ⟨m, hm, _⟩ := Option.bind_eq_some_iff.mp hk
    exact (List.getElem?_eq_some_iff.mp hm).1
  have hmem : i ∈ s.sentTickets ++ s.waitingTickets :=
    h.recorded.tickets.mem_iff.mpr (List.mem_range.mpr hlen)
  have hsplit : s.sentTickets ++ s.waitingTickets =
      before.map (·.ticket) ++ w.ticket :: (after.map (·.ticket) ++ s.waitingTickets) := by
    simp [Ipc.sentTickets, hsent]
  have horder := h.order
  rw [InOrder, hsplit, List.pairwise_append, List.pairwise_cons] at horder
  rw [hsplit, List.mem_append, List.mem_cons] at hmem
  obtain hbefore | heq | hafter := hmem
  · exact List.mem_map.mp hbefore
  · omega
  · -- written after `w` although of its kind and earlier
    have hlt := horder.2.1.1 i hafter hsame.symm
    omega

/-- A message already waiting at the start of the list joins the sent ones. -/
theorem Ipc.Ordered.ipcMsgSent {s : Ipc} (h : s.Ordered) : (ipcMsgSent s).Ordered := by
  refine ⟨h.recorded.ipcMsgSent, ?_⟩
  rw [tickets_ipcMsgSent, (ipcMsgSent_log s).2.2]
  exact h.order

/-- The order is about the history and the list only. -/
theorem Ipc.Ordered.frame {s s' : Ipc} (h : s.Ordered) (hlist : s'.ipcMsgList = s.ipcMsgList)
    (hsent : s'.log.sent = s.log.sent) (hsub : s'.log.submitted = s.log.submitted) :
    s'.Ordered := by
  refine ⟨h.recorded.frame hlist hsent hsub, ?_⟩
  rw [Ipc.sentTickets, Ipc.waitingTickets, hlist, hsent, hsub]
  exact h.order

/-- The next ticket may stand anywhere behind the messages of its kind. -/
theorem inOrder_insert {submitted : List IpcSubmission} {front : List Nat} (back : List Nat)
    {m : IpcSubmission} (horder : InOrder submitted (front ++ back))
    (hlt : ∀ i ∈ front ++ back, i < submitted.length)
    (hback : ∀ i ∈ back, ¬ SameQueue (submitted ++ [m]) submitted.length i) :
    InOrder (submitted ++ [m]) ((front ++ [submitted.length]) ++ back) := by
  have hold : InOrder (submitted ++ [m]) (front ++ back) := by
    refine List.Pairwise.imp_of_mem ?_ horder
    intro i j hi hj hij hsame
    exact hij ((sameQueue_append (hlt i hi) (hlt j hj)).mp hsame)
  have ⟨hfront, hrest, hcross⟩ := List.pairwise_append.mp hold
  rw [InOrder, List.append_assoc, List.singleton_append]
  refine List.pairwise_append.mpr ⟨hfront, List.pairwise_cons.mpr ⟨?_, hrest⟩, ?_⟩
  · intro i hi hsame
    exact absurd hsame (hback i hi)
  · intro i hi j hj hsame
    obtain heq | hj := List.mem_cons.mp hj
    · rw [heq]
      exact hlt i (List.mem_append_left back hi)
    · exact hcross i hi j hj hsame

/-- Nothing of the kind of the new message waits. -/
theorem Ipc.NoneWaiting.not_sameQueue {s : Ipc} {m : IpcSubmission} (h : s.NoneWaiting m)
    (hrec : s.Recorded) :
    ∀ i ∈ s.waitingTickets, ¬ SameQueue (s.log.submitted ++ [m]) s.log.submitted.length i := by
  rintro i hi ⟨k, hnew, hk⟩
  obtain ⟨ele, hele, rfl⟩ := List.mem_map.mp hi
  obtain ⟨m', hm', _⟩ := hrec.queued ele hele
  rw [List.getElem?_concat_length] at hnew
  rw [getElem?_submit hm'] at hk
  simp only [Option.bind_some] at hnew hk
  obtain hnone | hne := h ele hele m' hm'
  · rw [hnone] at hnew
    cases hnew
  · exact hne (hk.trans hnew.symm)

/-- A send that meets the condition keeps the order. -/
theorem Ipc.Ordered.offer {s : Ipc} (h : s.Ordered) {m : IpcSubmission} {ele : IpcMsgElem}
    {data : List UInt8} (hticket : ele.ticket = s.nextTicket) (hele : ele.Carries m)
    (hdata : IpcMsgElem.DataOf data m)
    (hcond : ipcAllocScan s.availableBuffer (ipcAllocLimit ele.allocLength) = none ∨
      s.NoneWaiting m) :
    ((s.submit m).offer ele data).Ordered := by
  refine ⟨h.recorded.submit_offer hticket hele hdata, ?_⟩
  have hlt : ∀ i ∈ s.sentTickets ++ s.waitingTickets, i < s.log.submitted.length :=
    fun i hi => h.recorded.ticket_lt hi
  rw [submitted_offer]
  unfold Ipc.offer
  split
  · next c hscan =>
      obtain hnone | hnone := hcond
      · exact absurd (hscan.symm.trans hnone) (by simp)
      · rw [sentTickets_transmit, waitingTickets_transmit, hticket]
        exact inOrder_insert _ h.order hlt (hnone.not_sameQueue h.recorded)
  · have hwait : s.waitingTickets ++ [s.nextTicket] =
        (s.ipcMsgList ++ [ele]).map (·.ticket) := by
      rw [List.map_append, List.map_singleton, hticket, Ipc.waitingTickets]
    have hall := inOrder_insert [] (m := m) (by rw [List.append_nil]; exact h.order)
      (by rw [List.append_nil]; exact hlt) (by simp)
    rw [List.append_nil, List.append_assoc] at hall
    show InOrder (s.log.submitted ++ [m])
      (s.sentTickets ++ (s.ipcMsgList ++ [ele]).map (·.ticket))
    rw [← hwait]
    exact hall

/-- A holder's own message is of neither kind. -/
theorem Ipc.Ordered.insert {s : Ipc} (h : s.Ordered) (allocLength : UInt16) (chn : Nat)
    (format : UInt8) (length : UInt16) (callback : Option IpcTxCallback) :
    (ipcInsertMsg s.nextTicket chn format length callback
      (s.submit (ipcInsertSubmission allocLength chn format length callback s))).Ordered := by
  refine ⟨h.recorded.insert allocLength chn format length callback, ?_⟩
  rw [sentTickets_insert, waitingTickets_insert]
  refine inOrder_insert _ h.order (fun i hi => h.recorded.ticket_lt hi) ?_
  rintro i _ ⟨k, hnew, _⟩
  rw [List.getElem?_concat_length] at hnew
  cases hnew

/-- Every step that meets the condition keeps the order. -/
theorem Ipc.Ordered.step {s s' : IpcSys} {op : IpcOp} (h : s.ipc.Ordered)
    (hcond : SendsInOrder s op) (hstep : ipcStep s op = some s') : s'.ipc.Ordered := by
  cases ipcStep_transition hstep with
  | offer hoffer =>
      obtain ⟨hticket, hele, hdata⟩ := IpcOp.offer_carries _ hoffer
      exact h.offer hticket hele hdata (hcond _ _ _ hoffer)
  | take hscan => exact h.frame rfl rfl rfl
  | full hscan => exact h
  | fill hheld hchn => exact h.frame rfl rfl rfl
  | insert hheld => exact h.insert ..
  | free hheld => exact h.frame rfl rfl rfl
  | isr hflight =>
      exact ipcIsr_keep (fun _ _ hs => hs.frame) (fun _ hs => hs.ipcMsgSent) h
  | reuse => exact h.frame rfl rfl rfl

/-! ## a send that overtakes -/

/-- The log is only ever extended. -/
def Ipc.LogExtends (s s' : Ipc) : Prop :=
  s.log.sent <+: s'.log.sent ∧ s.log.submitted <+: s'.log.submitted

theorem Ipc.LogExtends.trans {s s' s'' : Ipc} (h : s.LogExtends s') (h' : s'.LogExtends s'') :
    s.LogExtends s'' :=
  ⟨h.1.trans h'.1, h.2.trans h'.2⟩

theorem Ipc.LogExtends.of_eq {s s' : Ipc} (hsent : s'.log.sent = s.log.sent)
    (hsub : s'.log.submitted = s.log.submitted) : s.LogExtends s' := by
  unfold Ipc.LogExtends
  rw [hsent, hsub]
  exact ⟨List.prefix_rfl, List.prefix_rfl⟩

theorem ipcMsgSent_logExtends (s : Ipc) : s.LogExtends (ipcMsgSent s) :=
  ipcMsgSent_rule (P := fun s' => s.LogExtends s') (.of_eq rfl rfl)
    fun _ _ _ _ _ => ⟨List.prefix_append _ _, List.prefix_rfl⟩

theorem ipcStep_logExtends {s s' : IpcSys} {op : IpcOp} (hstep : ipcStep s op = some s') :
    s.ipc.LogExtends s'.ipc := by
  cases ipcStep_transition hstep with
  | @offer _ m ele data hoffer =>
      show s.ipc.LogExtends ((s.ipc.submit m).offer ele data)
      refine ⟨?_, by rw [submitted_offer]; exact List.prefix_append _ _⟩
      unfold Ipc.offer
      split
      · exact List.prefix_append _ _
      · exact List.prefix_rfl
  | take hscan => exact .of_eq rfl rfl
  | full hscan => exact .of_eq rfl rfl
  | fill hheld hchn => exact .of_eq rfl rfl
  | insert hheld => exact ⟨List.prefix_append _ _, List.prefix_append _ _⟩
  | free hheld => exact .of_eq rfl rfl
  | isr hflight =>
      exact ipcIsr_keep (P := fun s' => s.ipc.LogExtends s')
        (fun _ _ hs _ hsent hsub => hs.trans (.of_eq hsent hsub))
        (fun s' hs => hs.trans (ipcMsgSent_logExtends s')) (.of_eq rfl rfl)
  | reuse => exact .of_eq rfl rfl

/-- An overtaking is not undone by what is sent later. -/
theorem Ipc.NoOvertaking.of_logExtends {s s' : Ipc} (h : s'.NoOvertaking)
    (hext : s.LogExtends s') : s.NoOvertaking := by
  obtain ⟨⟨sent, hsent⟩, submitted, hsub⟩ := hext
  intro before w after hw i hi hsame
  refine h before w (after ++ sent) (by rw [← hsent, hw, List.append_assoc]; rfl) i hi ?_
  obtain ⟨k, hik, hwk⟩ := hsame
  obtain ⟨m, hm, hmk⟩ := Option.bind_eq_some_iff.mp hik
  obtain ⟨m', hm', hmk'⟩ := Option.bind_eq_some_iff.mp hwk
  rw [← hsub]
  refine ⟨k, ?_, ?_⟩
  · rw [List.getElem?_append_left (List.getElem?_eq_some_iff.mp hm).1, hm]
    exact hmk
  · rw [List.getElem?_append_left (List.getElem?_eq_some_iff.mp hm').1, hm']
    exact hmk'

/-- A send on a free channel passes the messages of its kind that wait. -/
theorem Ipc.Recorded.overtakes {s : Ipc} (h : s.Recorded) {m : IpcSubmission}
    {ele : IpcMsgElem} {data : List UInt8} {c : Nat} (hticket : ele.ticket = s.nextTicket)
    (hscan : ipcAllocScan s.availableBuffer (ipcAllocLimit ele.allocLength) = some c)
    (hwait : ¬ s.NoneWaiting m) : ¬ ((s.submit m).offer ele data).NoOvertaking := by
  intro hno
  obtain ⟨old, hold, m', hm', hnone, hkind⟩ : ∃ old ∈ s.ipcMsgList, ∃ m',
      s.log.submitted[old.ticket]? = some m' ∧ m.queue ≠ none ∧ m'.queue = m.queue := by
    simp only [Ipc.NoneWaiting, not_forall, not_or, not_not] at hwait
    obtain ⟨old, hold, m', hm', hne, heq⟩ := hwait
    exact ⟨old, hold, m', hm', hne, heq⟩
  obtain ⟨k, hk⟩ := Option.ne_none_iff_exists'.mp hnone
  have hlt : old.ticket < s.log.submitted.length := (List.getElem?_eq_some_iff.mp hm').1
  have hsent : ((s.submit m).offer ele data).log.sent = s.log.sent ++
      [⟨ele.ticket, c, ipcMsgWord c ele.msg.code ele.length,
        store s.shm (ipcGetBufferOffset .dsp2mcu c) data, s.log.flight c⟩] := by
    have hscan' : ipcAllocScan (s.submit m).availableBuffer (ipcAllocLimit ele.allocLength) =
        some c := hscan
    unfold Ipc.offer
    rw [hscan']
    rfl
  have hsame : SameQueue ((s.submit m).offer ele data).log.submitted old.ticket ele.ticket := by
    rw [submitted_offer, hticket, Ipc.nextTicket]
    refine ⟨k, ?_, ?_⟩
    · rw [getElem?_submit hm']
      exact hkind.trans hk
    · rw [List.getElem?_concat_length]
      exact hk
  obtain ⟨v, hv, hvt⟩ := hno s.log.sent _ [] hsent old.ticket
    (by show old.ticket < ele.ticket; rw [hticket]; exact hlt) hsame
  -- the older message is both sent and waiting
  have hnodup : (s.sentTickets ++ s.waitingTickets).Nodup :=
    h.tickets.nodup_iff.mpr List.nodup_range
  exact (List.nodup_append.mp hnodup).2.2 _ (List.mem_map.mpr ⟨v, hv, hvt⟩) _
    (List.mem_map.mpr ⟨old, hold, rfl⟩) rfl

/-- **No overtaking**: in a run the messages of one kind are written to the
channels in the order of their submission exactly when every send that found
a channel found no message of its kind waiting. -/
theorem no_overtaking_iff (ram shm : Nat → UInt8) (msgIn : Nat → IpcMsg) (ops : List IpcOp)
    (s : IpcSys) (h : run ipcStep (ipcStart ram shm msgIn) ops = some s) :
    s.ipc.NoOvertaking ↔ Along ipcStep SendsInOrder (ipcStart ram shm msgIn) ops := by
  have hstart : (ipcStart ram shm msgIn).ipc.Ordered :=
    ⟨recorded_start ram shm msgIn, List.Pairwise.nil⟩
  have hiff := run_undamaged_iff_along (C := SendsInOrder)
    (I := fun s => s.ipc.Ordered) (D := fun s => ¬ s.ipc.NoOvertaking)
    (fun _ _ _ hs hC hstep => hs.step hC hstep) ?_
    (fun _ _ _ hbad hstep hno => hbad (hno.of_logExtends (ipcStep_logExtends hstep)))
    (fun _ hs hbad => hbad hs.noOvertaking) hstart h
  · rw [not_not] at hiff
    exact hiff
  · intro s op s' hs hC hstep
    simp only [SendsInOrder, not_forall, not_or] at hC
    obtain ⟨m, ele, data, hoffer, hscan, hwait⟩ := hC
    obtain ⟨c, hc⟩ := Option.ne_none_iff_exists'.mp hscan
    cases ipcStep_transition hstep with
    | offer hoffer' =>
        rw [hoffer] at hoffer'
        cases hoffer'
        exact hs.recorded.overtakes (IpcOp.offer_carries _ hoffer).1 hc hwait
    | _ => cases hoffer

/-- All channels busy, a payload at the head of the list with a command
behind it; then command channel 2 completes and another command is sent. -/
def blockedHead : List IpcOp :=
  [.msgWithPayloadSend .rawFrame 0 2 16 4 none, .msgWithPayloadSend .rawFrame 0 2 16 4 none,
    .msgSend .dspReady 0 none, .msgSend .dspReady 1 none,
    .msgWithPayloadSend .rawFrame 0 2 16 4 none, .msgSend .withoutPayload 2 none,
    .isr 0x4000#32, .msgSend .withoutPayload 3 none]

/-- In order up to the last send: two messages of each kind are written, and a payload and a
command wait although channel 2 is free. -/
theorem no_overtaking_iff_busy :
    ∃ s, run ipcStep (ipcStart (fun _ => 0) (fun _ => 0) fun _ => ⟨0, 0, 0, 0⟩)
        (blockedHead.take 7) = some s ∧
      s.ipc.sentTickets = [0, 1, 2, 3] ∧ s.ipc.waitingTickets = [4, 5] ∧ s.ipc.NoOvertaking :=
  ⟨_, rfl, rfl, rfl, (no_overtaking_iff (fun _ => 0) (fun _ => 0) (fun _ => ⟨0, 0, 0, 0⟩)
    (blockedHead.take 7) _ rfl).mpr (by decide +kernel)⟩

/-- The last command is written while the command before it still waits. -/
theorem command_overtakes :
    ¬ ∀ (ram shm : Nat → UInt8) (msgIn : Nat → IpcMsg) (ops : List IpcOp) (s : IpcSys),
      run ipcStep (ipcStart ram shm msgIn) ops = some s → s.ipc.NoOvertaking := by
  intro h
  have hno := h (fun _ => 0) (fun _ => 0) (fun _ => ⟨0, 0, 0, 0⟩) blockedHead _ rfl
  obtain ⟨v, hv, hticket⟩ := hno _ _ [] rfl 5 (by decide) ⟨.msgSend, rfl, rfl⟩
  revert v
  decide

end Fr5080
