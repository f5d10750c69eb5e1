import Fr5080.Ipc.Ownership

/-!
# Fr5080.Ipc.FreeCallback

`ipc_free_channel` as a transmit callback.  Applications written for the older
driver had to free the channel of a message in its callback; the driver of
`fr5080_basic_xip` frees it itself and then dispatches the next waiting message
before it calls the callback.

`ipc_isr` therefore frees a channel twice.  The second release is the identity
unless the retry has put a waiting message on the channel; then the channel
carries a message and is marked available (`second_release`).  Runs that avoid
it cannot be told apart from the runs with `NULL` callbacks
(`free_callback_harmless`): `Ipc.Replaced` relates two drivers that differ in
such callbacks only, and is a lock-step simulation.
-/

namespace Fr5080

open Embedded

/-! ## replacing callbacks -/

/-- A callback stays, or `NULL` becomes `ipc_free_channel`. -/
inductive CallbackReplaced : Option IpcTxCallback → Option IpcTxCallback → Prop
  | same (callback : Option IpcTxCallback) : CallbackReplaced callback callback
  | free : CallbackReplaced none (some .ipcFreeChannel)

/-- The same operation, with its callback replaced or not. -/
inductive IpcOp.Replaced : IpcOp → IpcOp → Prop
  | same (op : IpcOp) : IpcOp.Replaced op op
  | msgSend {msg : IpcMsgType} {subMsg : UInt16} {callback callback' : Option IpcTxCallback}
      (h : CallbackReplaced callback callback') :
      IpcOp.Replaced (.msgSend msg subMsg callback) (.msgSend msg subMsg callback')
  | msgWithPayloadSend {msg : IpcMsgType} {header payload : Nat}
      {headerLength payloadLength : UInt16} {callback callback' : Option IpcTxCallback}
      (h : CallbackReplaced callback callback') :
      IpcOp.Replaced (.msgWithPayloadSend msg header headerLength payload payloadLength callback)
        (.msgWithPayloadSend msg header headerLength payload payloadLength callback')
  | insertMsg {chn : Nat} {format : UInt8} {length : UInt16}
      {callback callback' : Option IpcTxCallback} (h : CallbackReplaced callback callback') :
      IpcOp.Replaced (.insertMsg chn format length callback)
        (.insertMsg chn format length callback')

/-- The same deferred message, with its callback replaced or not. -/
structure IpcMsgElem.Replaced (ele ele' : IpcMsgElem) : Prop where
  callback : CallbackReplaced ele.callback ele'.callback
  rest : ele' = { ele with callback := ele'.callback }

/-- Two drivers that differ in the replaced callbacks only. -/
structure Ipc.Replaced (s s' : Ipc) : Prop where
  availableBuffer : s'.availableBuffer = s.availableBuffer
  txCallback : ∀ c, CallbackReplaced (s.txCallback c) (s'.txCallback c)
  ipcMsgList : List.Forall₂ IpcMsgElem.Replaced s.ipcMsgList s'.ipcMsgList
  ram : s'.ram = s.ram
  shm : s'.shm = s.shm
  flight : s'.log.flight = s.log.flight
  sent : s'.log.sent = s.log.sent
  count : s'.log.submitted.length = s.log.submitted.length

variable {s s' : Ipc} {ele ele' : IpcMsgElem} {callback callback' : Option IpcTxCallback}

theorem CallbackReplaced.of_free (h : CallbackReplaced callback callback')
    (hfree : callback = some .ipcFreeChannel) : callback' = some .ipcFreeChannel := by
  cases h with
  | same => exact hfree
  | free => rfl

theorem IpcMsgElem.Replaced.ticket (h : ele.Replaced ele') : ele'.ticket = ele.ticket := by
  rw [h.rest]

theorem IpcMsgElem.Replaced.msg (h : ele.Replaced ele') : ele'.msg = ele.msg := by
  rw [h.rest]

theorem IpcMsgElem.Replaced.length (h : ele.Replaced ele') : ele'.length = ele.length := by
  rw [h.rest]; rfl

theorem IpcMsgElem.Replaced.allocLength (h : ele.Replaced ele') :
    ele'.allocLength = ele.allocLength := by
  rw [h.rest]; rfl

theorem IpcMsgElem.Replaced.data (h : ele.Replaced ele') : ele'.data = ele.data := by
  rw [h.rest]; rfl

/-! ## the functions keep the relation -/

/-- Updating a callback on both sides. -/
theorem callbackReplaced_update {f f' : Nat → Option IpcTxCallback}
    (hf : ∀ c, CallbackReplaced (f c) (f' c)) (h : CallbackReplaced callback callback')
    (chn c : Nat) :
    CallbackReplaced (Function.update f chn callback c) (Function.update f' chn callback' c) := by
  by_cases heq : c = chn
  · rw [heq, Function.update_self, Function.update_self]; exact h
  · rw [Function.update_of_ne heq, Function.update_of_ne heq]; exact hf c

/-- Both drivers find the same channel. -/
theorem Ipc.Replaced.scan (h : s.Replaced s') (hele : ele.Replaced ele') :
    ipcAllocScan s'.availableBuffer (ipcAllocLimit ele'.allocLength) =
      ipcAllocScan s.availableBuffer (ipcAllocLimit ele.allocLength) := by
  rw [h.availableBuffer, hele.allocLength]

theorem Ipc.Replaced.submit (h : s.Replaced s') (m m' : IpcSubmission) :
    (s.submit m).Replaced (s'.submit m') where
  availableBuffer := h.availableBuffer
  txCallback := h.txCallback
  ipcMsgList := h.ipcMsgList
  ram := h.ram
  shm := h.shm
  flight := h.flight
  sent := h.sent
  count := by
    show (s'.log.submitted ++ [m']).length = (s.log.submitted ++ [m]).length
    rw [List.length_append, List.length_append, h.count]
    rfl

theorem Ipc.Replaced.insert (h : s.Replaced s') (hcb : CallbackReplaced callback callback')
    (ticket chn : Nat) (format : UInt8) (length : UInt16) :
    (ipcInsertMsg ticket chn format length callback s).Replaced
      (ipcInsertMsg ticket chn format length callback' s') where
  availableBuffer := h.availableBuffer
  txCallback := callbackReplaced_update h.txCallback hcb chn
  ipcMsgList := h.ipcMsgList
  ram := h.ram
  shm := h.shm
  flight := by
    show Function.update s'.log.flight chn (some ticket) = Function.update s.log.flight chn _
    rw [h.flight]
  sent := by
    show s'.log.sent ++ [⟨ticket, chn, _, s'.shm, s'.log.flight chn⟩] =
      s.log.sent ++ [⟨ticket, chn, _, s.shm, s.log.flight chn⟩]
    rw [h.sent, h.shm, h.flight]
  count := h.count

theorem Ipc.Replaced.take (h : s.Replaced s') (c : Nat) :
    ({ s with availableBuffer := s.availableBuffer &&& ~~~(1#8 <<< c) } : Ipc).Replaced
      { s' with availableBuffer := s'.availableBuffer &&& ~~~(1#8 <<< c) } where
  availableBuffer := by rw [h.availableBuffer]
  txCallback := h.txCallback
  ipcMsgList := h.ipcMsgList
  ram := h.ram
  shm := h.shm
  flight := h.flight
  sent := h.sent
  count := h.count

theorem Ipc.Replaced.store (h : s.Replaced s') (offset : Nat) (data : List UInt8) :
    ({ s with shm := Embedded.store s.shm offset data } : Ipc).Replaced
      { s' with shm := Embedded.store s'.shm offset data } where
  availableBuffer := h.availableBuffer
  txCallback := h.txCallback
  ipcMsgList := h.ipcMsgList
  ram := h.ram
  shm := by rw [h.shm]
  flight := h.flight
  sent := h.sent
  count := h.count

theorem Ipc.Replaced.free (h : s.Replaced s') (chn : Nat) :
    (ipcFreeChannel chn s).Replaced (ipcFreeChannel chn s') where
  availableBuffer := by
    show s'.availableBuffer ||| (1#8 <<< chn) = s.availableBuffer ||| (1#8 <<< chn)
    rw [h.availableBuffer]
  txCallback := callbackReplaced_update h.txCallback (.same none) chn
  ipcMsgList := h.ipcMsgList
  ram := h.ram
  shm := h.shm
  flight := h.flight
  sent := h.sent
  count := h.count

theorem Ipc.Replaced.complete (h : s.Replaced s') (chn : Nat) :
    (s.complete chn).Replaced (s'.complete chn) where
  availableBuffer := h.availableBuffer
  txCallback := h.txCallback
  ipcMsgList := h.ipcMsgList
  ram := h.ram
  shm := h.shm
  flight := by
    show Function.update s'.log.flight chn none = Function.update s.log.flight chn none
    rw [h.flight]
  sent := h.sent
  count := h.count

theorem Ipc.Replaced.transmit (h : s.Replaced s') (hele : ele.Replaced ele') (data : List UInt8)
    (chn : Nat) : (s.transmit ele data chn).Replaced (s'.transmit ele' data chn) := by
  unfold Ipc.transmit
  rw [hele.ticket, hele.msg, hele.length]
  exact ((h.take chn).store _ data).insert hele.callback _ _ _ _

/-- A new message goes the same way. -/
theorem Ipc.Replaced.offer (h : s.Replaced s') (hele : ele.Replaced ele') (m m' : IpcSubmission)
    (data : List UInt8) :
    ((s.submit m).offer ele data).Replaced ((s'.submit m').offer ele' data) := by
  have hsub := h.submit m m'
  unfold Ipc.offer
  rw [hsub.scan hele]
  split
  · exact hsub.transmit hele data _
  · exact ⟨hsub.availableBuffer, hsub.txCallback,
      List.rel_append h.ipcMsgList (.cons hele .nil), hsub.ram, hsub.shm, hsub.flight, hsub.sent,
      hsub.count⟩

/-- The retry of the list does the same. -/
theorem Ipc.Replaced.ipcMsgSent (h : s.Replaced s') :
    (ipcMsgSent s).Replaced (ipcMsgSent s') := by
  have hlists := h.ipcMsgList
  cases hlist : s.ipcMsgList with
  | nil =>
      rw [hlist] at hlists
      rw [ipcMsgSent_nil hlist, ipcMsgSent_nil (List.forall₂_nil_left_iff.mp hlists)]
      exact h
  | cons ele rest =>
      rw [hlist] at hlists
      obtain ⟨ele', rest', hele, hrest, hlist'⟩ := List.forall₂_cons_left_iff.mp hlists
      rw [ipcMsgSent_cons hlist, ipcMsgSent_cons hlist', h.scan hele, hele.data]
      split
      · refine Ipc.Replaced.transmit ?_ hele _ _
        exact ⟨h.availableBuffer, h.txCallback, hrest, h.ram, h.shm, h.flight, h.sent, h.count⟩
      · exact h

/-- The retry takes the completed channel in both drivers or in neither. -/
theorem Ipc.Replaced.retryTakes (h : s.Replaced s') {c : Nat} (htakes : s.RetryTakes c) :
    s'.RetryTakes c := by
  obtain ⟨ele, rest, hlist, hscan⟩ := htakes
  have hlists := h.ipcMsgList
  rw [hlist] at hlists
  obtain ⟨ele', rest', hele, _, hlist'⟩ := List.forall₂_cons_left_iff.mp hlists
  exact ⟨ele', rest', hlist', by rw [h.availableBuffer, hele.allocLength]; exact hscan⟩

/-- A completion that frees its channel once ends alike. -/
theorem Ipc.Replaced.ipcIsrComplete (h : s.Replaced s') {c : Nat} (hc : c < ipcChannels)
    (hfreed : s'.FreedOnce c) : (ipcIsrComplete c s).Replaced (ipcIsrComplete c s') := by
  have hfreed' : s.FreedOnce c := fun hcb htakes =>
    hfreed ((h.txCallback c).of_free hcb) (h.retryTakes htakes)
  have hsent := ((h.complete c).free c).ipcMsgSent
  rw [ipcIsrComplete_eq hc hfreed, ipcIsrComplete_eq hc hfreed']
  exact ⟨hsent.availableBuffer, hsent.txCallback, hsent.ipcMsgList, hsent.ram, hsent.shm,
    hsent.flight, hsent.sent, hsent.count⟩

/-- `ipc_isr` on both sides. -/
theorem Ipc.Replaced.ipcIsr (h : s.Replaced s') {status : BitVec 32}
    (hfreed : IsrFreesOnce status (List.range ipcChannels) s') :
    (ipcIsr status s).Replaced (ipcIsr status s') := by
  have hrule := ipcIsr_relate status s s'
    (J := fun chn s s' => s.Replaced s' ∧
      IsrFreesOnce status ((List.range ipcChannels).drop chn) s') ?_ ?_ ?_ ⟨h, hfreed⟩
  · exact hrule.1
  · rintro chn hchn s s' hbit ⟨h, hfreed⟩
    rw [drop_range hchn] at hfreed
    have hout : ipcIsrMsgOut status chn s' = Fr5080.ipcIsrComplete chn s' := if_pos hbit
    exact ⟨h.ipcIsrComplete hchn (hfreed.1 hbit), by rw [← hout]; exact hfreed.2⟩
  · rintro chn hchn s s' hbit ⟨h, hfreed⟩
    rw [drop_range hchn] at hfreed
    have hout : ipcIsrMsgOut status chn s' = s' := if_neg (by rw [hbit]; simp)
    exact ⟨h, by rw [← hout]; exact hfreed.2⟩
  · rintro s s' received received' ⟨h, _⟩
    exact ⟨⟨h.availableBuffer, h.txCallback, h.ipcMsgList, h.ram, h.shm, h.flight, h.sent,
      h.count⟩, by rw [List.drop_of_length_le (by simp)]; trivial⟩

/-! ## every run -/

/-- The deferred form of a command, with a replaced callback. -/
theorem Ipc.Replaced.msgSendElem (h : s.Replaced s') (hcb : CallbackReplaced callback callback')
    (msg : IpcMsgType) (subMsg : UInt16) :
    (ipcMsgSendElem msg subMsg callback s).Replaced (ipcMsgSendElem msg subMsg callback' s') := by
  refine ⟨hcb, ?_⟩
  simp only [ipcMsgSendElem, Ipc.nextTicket, h.count]

/-- The deferred form of a payload message, with a replaced callback. -/
theorem Ipc.Replaced.msgWithPayloadElem (h : s.Replaced s')
    (hcb : CallbackReplaced callback callback') (msg : IpcMsgType) (header : Nat)
    (headerLength : UInt16) (payload : Nat) (payloadLength : UInt16) :
    (ipcMsgWithPayloadElem msg header headerLength payload payloadLength callback s).Replaced
      (ipcMsgWithPayloadElem msg header headerLength payload payloadLength callback' s') := by
  refine ⟨hcb, ?_⟩
  simp only [ipcMsgWithPayloadElem, Ipc.nextTicket, h.count, h.ram]

/-- What a send offers, with a replaced callback. -/
theorem IpcOp.Replaced.offer {op op' : IpcOp} (hop : op.Replaced op') (h : s.Replaced s')
    {m : IpcSubmission} {data : List UInt8} (hoffer : op.offer s = some (m, ele, data)) :
    ∃ m' ele', op'.offer s' = some (m', ele', data) ∧ ele.Replaced ele' := by
  cases hop with
  | msgSend hcb =>
      cases hoffer
      exact ⟨_, _, rfl, h.msgSendElem hcb _ _⟩
  | msgWithPayloadSend hcb =>
      cases hoffer
      exact ⟨_, _, by rw [IpcOp.offer, h.ram], h.msgWithPayloadElem hcb _ _ _ _ _⟩
  | insertMsg hcb => cases hoffer
  | same =>
      cases op with
      | msgSend msg subMsg callback =>
          cases hoffer
          exact ⟨_, _, rfl, h.msgSendElem (.same callback) _ _⟩
      | msgWithPayloadSend msg header headerLength payload payloadLength callback =>
          cases hoffer
          exact ⟨_, _, by rw [IpcOp.offer, h.ram],
            h.msgWithPayloadElem (.same callback) _ _ _ _ _⟩
      | _ => cases hoffer

/-- **Step of the simulation**: replaced callbacks are not seen in a step that
frees no channel in use. -/
theorem replaced_step {s s' t : IpcSys} {op op' : IpcOp} (h : s.ipc.Replaced s'.ipc)
    (hheld : s'.held = s.held) (hop : op.Replaced op') (hfreed : FreesOnce s' op')
    (hstep : ipcStep s op = some t) :
    ∃ t', ipcStep s' op' = some t' ∧ t.ipc.Replaced t'.ipc ∧ t'.held = t.held := by
  cases ipcStep_transition hstep with
  | offer hoffer =>
      obtain ⟨m', ele', hoffer', hele⟩ := hop.offer h hoffer
      exact ⟨_, (IpcTransition.offer hoffer').step, h.offer hele _ _ _, hheld⟩
  | @insert chn format length allocLength callback hchn =>
      obtain ⟨callback', hcb, rfl⟩ : ∃ callback', CallbackReplaced callback callback' ∧
          op' = .insertMsg chn format length callback' := by
        cases hop with
        | same => exact ⟨callback, .same callback, rfl⟩
        | insertMsg hcb => exact ⟨_, hcb, rfl⟩
      have hticket : s'.ipc.nextTicket = s.ipc.nextTicket := h.count
      refine ⟨_, (IpcTransition.insert (by rw [hheld]; exact hchn)).step, ?_, by rw [hheld]⟩
      rw [hticket]
      exact (h.submit _ _).insert hcb _ _ _ _
  | take hscan =>
      cases hop
      exact ⟨_, (IpcTransition.take (by rw [h.availableBuffer]; exact hscan)).step, h.take _,
        by rw [hheld]⟩
  | full hscan =>
      cases hop
      exact ⟨_, (IpcTransition.full (by rw [h.availableBuffer]; exact hscan)).step, h, hheld⟩
  | fill hchn hlt =>
      cases hop
      exact ⟨_, (IpcTransition.fill (by rw [hheld]; exact hchn) hlt).step, h.store _ _, hheld⟩
  | free hchn =>
      cases hop
      exact ⟨_, (IpcTransition.free (by rw [hheld]; exact hchn)).step, h.free _, by rw [hheld]⟩
  | isr hflight =>
      cases hop
      exact ⟨_, (IpcTransition.isr (by rw [h.flight]; exact hflight)).step, h.ipcIsr hfreed, hheld⟩
  | reuse =>
      cases hop
      refine ⟨_, IpcTransition.reuse.step, ?_, hheld⟩
      exact ⟨h.availableBuffer, h.txCallback, h.ipcMsgList, by rw [h.ram], h.shm, h.flight,
        h.sent, h.count⟩

/-- **Freeing in the callback**: in a run where no completion releases a
channel that the retry has just reused, `NULL` callbacks may be replaced by
`ipc_free_channel`: the same channels are available and in flight, the same
messages are transmitted, and no channel in flight is marked available. -/
theorem free_callback_harmless (ram shm : Nat → UInt8) (msgIn : Nat → IpcMsg)
    (ops ops' : List IpcOp) (s : IpcSys) (hops : List.Forall₂ IpcOp.Replaced ops ops')
    (hfreed : Along ipcStep FreesOnce (ipcStart ram shm msgIn) ops')
    (h : run ipcStep (ipcStart ram shm msgIn) ops = some s) :
    ∃ s', run ipcStep (ipcStart ram shm msgIn) ops' = some s' ∧
      s'.ipc.availableBuffer = s.ipc.availableBuffer ∧
      s'.ipc.log.flight = s.ipc.log.flight ∧ s'.ipc.log.sent = s.ipc.log.sent ∧
      ∀ c < ipcChannels, (s'.ipc.log.flight c).isSome →
        s'.ipc.availableBuffer.getLsbD c = false := by
  have hstart : (ipcStart ram shm msgIn).ipc.Replaced (ipcStart ram shm msgIn).ipc :=
    ⟨rfl, fun _ => .same _, .nil, rfl, rfl, rfl, rfl, rfl⟩
  obtain ⟨s', hrun, hsame, _⟩ := run_sim (C := FreesOnce) (E := IpcOp.Replaced)
    (R := fun s s' => s.ipc.Replaced s'.ipc ∧ s'.held = s.held)
    (fun _ _ _ _ _ hR hE hC hstep => replaced_step hR.1 hR.2 hE hC hstep)
    ⟨hstart, rfl⟩ hops hfreed h
  refine ⟨s', hrun, hsame.availableBuffer, hsame.flight, hsame.sent, ?_⟩
  intro c _ hflight
  obtain ⟨t, ht⟩ := Option.isSome_iff_exists.mp hflight
  exact ((ipcInv_run hfreed hrun).owned.of_flight ht).2.1

/-- The condition is needed: a completion that does not meet it leaves the
channel in flight and marked available. -/
theorem second_release {c : Nat} (hc : c < ipcChannels) (h : ¬ s.FreedOnce c) :
    ((ipcIsrComplete c s).log.flight c).isSome ∧
      (ipcIsrComplete c s).availableBuffer.getLsbD c = true := by
  have hchn : ipcChannels = 4 := rfl
  simp only [Ipc.FreedOnce, not_forall, not_not] at h
  obtain ⟨hcb, ele, rest, hlist, hscan⟩ := h
  have hcons : (ipcFreeChannel c (s.complete c)).ipcMsgList = ele :: rest := hlist
  have hscan' : ipcAllocScan (ipcFreeChannel c (s.complete c)).availableBuffer
      (ipcAllocLimit ele.allocLength) = some c := hscan
  have hsent : ipcMsgSent (ipcFreeChannel c (s.complete c)) =
      ({ ipcFreeChannel c (s.complete c) with ipcMsgList := rest } : Ipc).transmit ele ele.data
        c := by
    rw [ipcMsgSent_cons hcons, hscan']
  have hcall : ipcIsrComplete c s = ipcTxCall .ipcFreeChannel (s.log.flight c) c
      (ipcMsgSent (ipcFreeChannel c (s.complete c))) := by
    simp only [ipcIsrComplete, hcb]
  rw [hcall, hsent]
  constructor
  · show (Function.update (Function.update s.log.flight c none) c (some ele.ticket) c).isSome
    rw [Function.update_self]
    rfl
  · show (_ ||| (1#8 <<< c)).getLsbD c = true
    rw [getLsbD_give (by omega)]
    simp

/-- Two payloads and two commands take the channels, a fifth message waits;
then channel 3 completes. -/
def retryOnChannel (callback : Option IpcTxCallback) : List IpcOp :=
  [.msgWithPayloadSend .rawFrame 0 2 16 4 none, .msgWithPayloadSend .rawFrame 0 2 16 4 none,
    .msgSend .dspReady 0 callback, .msgSend .dspReady 1 none, .msgSend .withoutPayload 2 none,
    .isr 0x8000#32]

/-- Without a waiting message the callback may free its channel. -/
theorem free_callback_harmless_idle :
    ∃ s', run ipcStep (ipcStart (fun _ => 0) (fun _ => 0) fun _ => ⟨0, 0, 0, 0⟩)
        [.msgSend .dspReady 0 (some .ipcFreeChannel), .isr 0x8000#32] = some s' ∧
      s'.ipc.availableBuffer = 0xF#8 := by
  have hfreed : Along ipcStep FreesOnce
      (ipcStart (fun _ => 0) (fun _ => 0) fun _ => ⟨0, 0, 0, 0⟩)
      [.msgSend .dspReady 0 (some .ipcFreeChannel), .isr 0x8000#32] := by
    refine ⟨trivial, fun s hs => ⟨?_, fun _ _ => trivial⟩⟩
    cases hs
    refine ⟨fun hbit => absurd hbit (by decide), fun hbit => absurd hbit (by decide),
      fun hbit => absurd hbit (by decide), ?_, trivial⟩
    rintro _ _ ⟨ele, rest, hlist, _⟩
    exact absurd hlist.symm (List.cons_ne_nil ele rest)
  obtain ⟨s', hrun, havail, _⟩ := free_callback_harmless (fun _ => 0) (fun _ => 0)
    (fun _ => ⟨0, 0, 0, 0⟩) [.msgSend .dspReady 0 none, .isr 0x8000#32]
    [.msgSend .dspReady 0 (some .ipcFreeChannel), .isr 0x8000#32] _
    (.cons (.msgSend .free) (.cons (.same _) .nil)) hfreed rfl
  exact ⟨s', hrun, havail⟩

/-- Channel 3 carries the fifth message, but is available. -/
theorem free_callback_releases :
    ¬ ∀ (ram shm : Nat → UInt8) (msgIn : Nat → IpcMsg) (ops ops' : List IpcOp) (s s' : IpcSys),
      List.Forall₂ IpcOp.Replaced ops ops' →
      run ipcStep (ipcStart ram shm msgIn) ops = some s →
      run ipcStep (ipcStart ram shm msgIn) ops' = some s' →
      s'.ipc.availableBuffer = s.ipc.availableBuffer := by
  intro h
  have havail := h (fun _ => 0) (fun _ => 0) (fun _ => ⟨0, 0, 0, 0⟩) (retryOnChannel none)
    (retryOnChannel (some .ipcFreeChannel)) _ _
    (.cons (.same _) (.cons (.same _) (.cons (.msgSend .free) (.cons (.same _) (.cons (.same _)
      (.cons (.same _) .nil)))))) rfl rfl
  revert havail
  decide

end Fr5080
