import Fr5080.Boot.HostComm

/-!
# Fr5080.Boot.Agree

The boot loaders of `fr5080_basic` and `fr5080_basic_xip`, fed with the same
bytes by the host and connected to flashes with the same contents.

`fr5080_basic` lets `flash_read` put its data behind the header of the request
instead of that of the response.  So its READ_ACK carries what the response
buffer holds there, and nothing ever stores to it: the zeros of a static array.
Apart from that the two differ in the header bytes that an arm does not set,
which are left from earlier responses, or from before the start: zeros in the
static array of `fr5080_basic`, unknown in the memory at `0x184000`.
-/

namespace Fr5080

open Embedded

/-- The two loops. -/
structure BothComm (φ : Type) where
  basic : HostComm φ
  xip : HostComm φ

/-- What a READ is answered with: the flash behind the header. -/
def BootRecord.ReadsFlash (r : BootRecord) : Prop :=
  r.req.code = UpOpcode.read.code →
    ∃ rsp, r.rsps = [rsp] ∧ rsp.bytes.drop updateParamHeaderSize = r.content

/-- The two loops answer a request with the same bytes, and a READ with the flash. -/
structure SameRound (b x : BootRecord) : Prop where
  same : b.rsps.map (·.bytes) = x.rsps.map (·.bytes)
  basic : b.ReadsFlash
  xip : x.ReadsFlash

/-- All answers so far agree. -/
def BothComm.Agree {φ : Type} (s : BothComm φ) : Prop :=
  List.Forall₂ SameRound s.basic.log s.xip.log

section

variable {φ : Type} (dev : FlashDev φ) (buffers : BootBuffers)

/-- Both loops receive and answer a request; `uninit` are the values of the two variables
`rsp_header`. -/
def bothStep (s : BothComm φ) (uninit : Nat × Nat) : Option (BothComm φ) := do
  let basic ← hostCommStep .basic dev buffers s.basic uninit.1
  let xip ← hostCommStep .xip dev .xip s.xip uninit.2
  some ⟨basic, xip⟩

/-- The start: the same bytes of the host, the same flash, and the static arrays of
`fr5080_basic` clear. -/
structure BothStart (s : BothComm φ) : Prop where
  rx : s.basic.rx = s.xip.rx
  flash : s.basic.boot.flash = s.xip.boot.flash
  result : s.basic.result = s.xip.result
  log : s.basic.log = [] ∧ s.xip.log = []
  clear : ∀ i < 0x200, s.basic.boot.mem (buffers.send + i) = 0

/-- The next request has a length of at most 505. -/
def ShortRequest (s : BothComm φ) (_uninit : Nat × Nat) : Prop :=
  s.basic.next.length.toNat ≤ 505

/-- The memory with the next request in the request buffer. -/
def HostComm.memReceived (s : HostComm φ) : Nat → UInt8 :=
  store s.boot.mem buffers.recv (s.rx.take (updateParamHeaderSize + bootPayloadLength s.next))

/-- The header bytes that the next request does not set. -/
def HostComm.leftover (s : HostComm φ) : List UInt8 :=
  slice s.boot.mem (buffers.send + (bootFields s.next).length)
    (updateParamHeaderSize - (bootFields s.next).length)

/-- When the next request is answered alike: an unknown opcode, if the two wild pointers show
the same bytes; a READ, if the flash is zero there; any other request, if the header bytes
that it does not set are the same in the two buffers. -/
def AnsweredAlike (s : BothComm φ) (uninit : Nat × Nat) : Prop :=
  let req := s.basic.next
  if ¬ Handled req.code then
    slice (s.basic.memReceived buffers) uninit.1 7 = slice (s.xip.memReceived .xip) uninit.2 7
  else if req.code = UpOpcode.read.code then
    dev.read s.basic.boot.flash req.address req.length.toNat =
      List.replicate req.length.toNat 0
  else s.basic.leftover buffers = s.xip.leftover .xip

instance (s : BothComm φ) (uninit : Nat × Nat) : Decidable (ShortRequest s uninit) :=
  inferInstanceAs (Decidable (_ ≤ _))

instance (s : BothComm φ) (uninit : Nat × Nat) : Decidable (AnsweredAlike dev buffers s uninit) :=
  inferInstanceAs (Decidable (if ¬ Handled s.basic.next.code then _ = _
    else if s.basic.next.code = UpOpcode.read.code then _ = _ else _ = _))

variable {dev buffers}

/-! ## one round -/

section

variable {project : BootProject} {s : HostComm φ} {mem : Nat → UInt8} {rx : List UInt8}

/-- A short request fits in its buffer. -/
theorem bootPayloadLength_le (hlen : s.next.length.toNat ≤ 505) :
    updateParamHeaderSize + bootPayloadLength s.next ≤ 0x200 := by
  have hsize : updateParamHeaderSize = 7 := rfl
  unfold bootPayloadLength
  split <;> omega

/-- The response buffer is not touched when a short request is received. -/
theorem receive_send (h : s.receive buffers = some (mem, rx))
    (hlen : s.next.length.toNat ≤ 505) {i : Nat} (hi : i < 0x200) :
    mem (buffers.send + i) = s.boot.mem (buffers.send + i) := by
  have hdisjoint := buffers.disjoint
  have hle := bootPayloadLength_le hlen
  rw [(receive_eq h).1]
  refine store_of_not_mem _ _ _ _ ?_
  rw [List.length_take]
  omega

/-- The payload of a request that is received. -/
theorem receive_payload (h : s.receive buffers = some (mem, rx)) :
    slice mem (buffers.recv + updateParamHeaderSize) (bootPayloadLength s.next) =
      (s.rx.drop updateParamHeaderSize).take (bootPayloadLength s.next) := by
  obtain ⟨hmem, _, hle, _⟩ := receive_eq h
  have hlen : (s.rx.take (updateParamHeaderSize + bootPayloadLength s.next)).length =
      updateParamHeaderSize + bootPayloadLength s.next := by
    rw [List.length_take]
    omega
  have hslice := slice_store_self s.boot.mem buffers.recv
    (s.rx.take (updateParamHeaderSize + bootPayloadLength s.next))
  rw [← hmem, hlen] at hslice
  have hdrop := congrArg (List.drop updateParamHeaderSize) hslice
  rw [drop_slice _ _ _ _ (Nat.le_add_right _ _), List.drop_take, Nat.add_sub_cancel_left] at hdrop
  exact hdrop

/-- The answer to a short request with a `case`, apart from READ: the fields that are set, and
what is left in the header. -/
theorem bytes_bootRsp_header (h : s.receive buffers = some (mem, rx))
    (hlen : s.next.length.toNat ≤ 505) (hhandled : Handled s.next.code)
    (hread : s.next.code ≠ UpOpcode.read.code) (uninit : Nat) :
    (bootRsp project dev buffers uninit s.next (s.received mem)).bytes =
      bootFields s.next ++ s.leftover buffers := by
  have hfields := @length_bootFields_le s.next
  have hsize : updateParamHeaderSize = 7 := rfl
  obtain ⟨k, hk⟩ := Nat.exists_eq_add_of_le hfields
  have hstores : bootReadStores project dev buffers s.next (s.received mem) = [] := if_neg hread
  have hlength : (bootRspLength s.next).toUInt16.toNat = updateParamHeaderSize := by
    rw [toNat_bootRspLength hlen, if_neg hread, Nat.add_zero]
  have hleft : slice mem (buffers.send + (bootFields s.next).length) k = s.leftover buffers := by
    rw [HostComm.leftover, hk, Nat.add_sub_cancel_left]
    refine slice_eq_slice_iff.mpr fun i hi => ?_
    rw [Nat.add_assoc]
    exact receive_send h hlen (by omega)
  simp only [bootRsp, if_pos hhandled, hlength, bootMem, hstores, List.foldl_nil]
  rw [hk, slice_store_add]
  exact congrArg _ hleft

/-- The answer to a short READ: the header, and what the response buffer holds behind it. -/
theorem bytes_bootRsp_read (hlen : s.next.length.toNat ≤ 505)
    (hread : s.next.code = UpOpcode.read.code) (uninit : Nat) :
    (bootRsp project dev buffers uninit s.next (s.received mem)).bytes =
      { s.next with code := s.next.code + 1 : UpdateParamHeader }.bytes ++
        slice (store mem (bootReadBuffer project buffers.recv buffers.send)
          (dev.read s.boot.flash s.next.address s.next.length.toNat))
            (buffers.send + updateParamHeaderSize) s.next.length.toNat := by
  have hecho : Echoes s.next.code := echoes_iff.mpr (.inr (.inl hread))
  have hhandled : Handled s.next.code := (handled_iff _).mpr (.inr (.inl hecho))
  have hfields : bootFields s.next =
      { s.next with code := s.next.code + 1 : UpdateParamHeader }.bytes := by
    rw [bootFields, if_neg hecho.ne.1, if_pos hecho]
  have hlength : (bootRspLength s.next).toUInt16.toNat =
      { s.next with code := s.next.code + 1 : UpdateParamHeader }.bytes.length +
        s.next.length.toNat := by
    rw [toNat_bootRspLength hlen, if_pos hread, UpdateParamHeader.length_bytes]
    rfl
  simp only [bootRsp, if_pos hhandled, hlength, bootMem, bootReadStores, if_pos hread, hfields,
    List.foldl_cons, List.foldl_nil]
  rw [slice_store_add, UpdateParamHeader.length_bytes]
  rfl

/-- The answer to an unknown opcode. -/
theorem bytes_bootRsp_unknown (hhandled : ¬ Handled s.next.code) (uninit : Nat) :
    (bootRsp project dev buffers uninit s.next (s.received mem)).bytes = slice mem uninit 7 := by
  have hecho : ¬ Echoes s.next.code := fun he => hhandled ((handled_iff _).mpr (.inr (.inl he)))
  have hne : s.next.code ≠ UpOpcode.getType.code ∧ s.next.code ≠ UpOpcode.read.code :=
    ⟨fun h => hhandled ((handled_iff _).mpr (.inl h)),
      fun h => hecho (echoes_iff.mpr (.inr (.inl h)))⟩
  have hfields : bootFields s.next = [] := by simp [bootFields, hhandled, hecho, hne]
  have hstores : bootReadStores project dev buffers s.next (s.received mem) = [] := if_neg hne.2
  have hlength : bootRspLength s.next = 7 := if_neg hne.2
  simp only [bootRsp, if_neg hhandled, bootMem, hfields, hstores, List.foldl_nil, store_nil,
    hlength]
  rfl

/-- The record of a round with a short request. -/
theorem hostCommStep_short {s' : HostComm φ} {uninit : Nat} (hlen : s.next.length.toNat ≤ 505)
    (h : hostCommStep project dev buffers s uninit = some s') :
    ∃ mem rx, s.receive buffers = some (mem, rx) ∧
      CommandSpec project dev buffers s.next (s.received mem) (s'.result, s'.boot) ∧ s'.rx = rx ∧
      ∃ r, s'.log = s.log ++ [r] ∧ r.req = s.next ∧
        r.rsps = [bootRsp project dev buffers uninit s.next (s.received mem)] ∧
        r.content = dev.read s.boot.flash s.next.address s.next.length.toNat := by
  obtain ⟨mem, rx, hreceive, rfl⟩ := hostCommStep_eq h
  have hreq : UpdateParamHeader.read (s.received mem).mem buffers.recv = s.next :=
    (receive_eq hreceive).2.2.2
  have hkept := @bootMem_recv φ project dev buffers s.next (s.received mem) hreq
    (fun _ _ => by
      have hsize : updateParamHeaderSize = 7 := rfl
      omega)
  exact ⟨mem, rx, hreceive, appBootProcessCmd_spec hreq, rfl, _, rfl, rfl,
    rsps_appBootProcessCmd hreq hkept, rfl⟩

end

/-! ## both loops -/

/-- The two loops before a request: what was received and the flash are the same, and the
response buffer of `fr5080_basic` is clear behind the header. -/
structure InStep (buffers : BootBuffers) (s : BothComm φ) : Prop where
  rx : s.basic.rx = s.xip.rx
  flash : s.basic.boot.flash = s.xip.boot.flash
  result : s.basic.result = s.xip.result
  clear : ∀ i, updateParamHeaderSize ≤ i → i < 0x200 → s.basic.boot.mem (buffers.send + i) = 0

variable {s s' : BothComm φ} {uninit : Nat × Nat}

theorem InStep.next (h : InStep buffers s) : s.basic.next = s.xip.next := by
  simp only [HostComm.next, h.rx]

theorem bothStep_eq (h : bothStep dev buffers s uninit = some s') :
    hostCommStep .basic dev buffers s.basic uninit.1 = some s'.basic ∧
      hostCommStep .xip dev .xip s.xip uninit.2 = some s'.xip := by
  simp only [bothStep, Option.bind_eq_bind, Option.bind_eq_some_iff, Option.some.injEq] at h
  obtain ⟨basic, hbasic, xip, hxip, rfl⟩ := h
  exact ⟨hbasic, hxip⟩

/-- What a command does to the flash depends on the flash and on the payload. -/
theorem bootFlash_congr {buffers' : BootBuffers} {req : UpdateParamHeader} {b b' : Boot φ}
    (hflash : b.flash = b'.flash)
    (hpayload : req.code = UpOpcode.write.code →
      slice b.mem (buffers.recv + updateParamHeaderSize) req.length.toNat =
        slice b'.mem (buffers'.recv + updateParamHeaderSize) req.length.toNat) :
    bootFlash dev buffers req b = bootFlash dev buffers' req b' := by
  simp only [bootFlash, hflash]
  split
  · next h => rw [hpayload h]
  · rfl

/-- The payload of a WRITE is received whole. -/
theorem bootPayloadLength_write {req : UpdateParamHeader} (h : req.code = UpOpcode.write.code) :
    bootPayloadLength req = req.length.toNat := by
  by_cases hlen : req.length = 0
  · simp [bootPayloadLength, hlen]
  · simp +decide [bootPayloadLength, hlen, h]

/-- A round keeps the loops in step. -/
theorem InStep.step (h : InStep buffers s) (hshort : ShortRequest s uninit)
    (hstep : bothStep dev buffers s uninit = some s') : InStep buffers s' := by
  obtain ⟨hbasic, hxip⟩ := bothStep_eq hstep
  have hshort' : s.xip.next.length.toNat ≤ 505 := h.next ▸ hshort
  obtain ⟨memb, rxb, hrecvb, hspecb, hrxb, _⟩ := hostCommStep_short hshort hbasic
  obtain ⟨memx, rxx, hrecvx, hspecx, hrxx, _⟩ := hostCommStep_short hshort' hxip
  constructor
  · rw [hrxb, hrxx, (receive_eq hrecvb).2.1, (receive_eq hrecvx).2.1, h.next, h.rx]
  · rw [hspecb.flash, hspecx.flash, h.next]
    refine bootFlash_congr h.flash fun hwrite => ?_
    have hpayb := receive_payload hrecvb
    have hpayx := receive_payload hrecvx
    rw [h.next, bootPayloadLength_write hwrite, h.rx] at hpayb
    rw [bootPayloadLength_write hwrite] at hpayx
    exact hpayb.trans hpayx.symm
  · exact (hspecb.result.trans (congrArg bootResult h.next)).trans hspecx.result.symm
  · intro i hi hlt
    have hdisjoint := buffers.disjoint
    have hsize : updateParamHeaderSize = 7 := rfl
    have hlen : s.basic.next.length.toNat ≤ 505 := hshort
    rw [hspecb.mem, bootMem_of_not_mem (by omega)]
    · exact (receive_send hrecvb hshort hlt).trans (h.clear i hi hlt)
    · intro _
      simp only [bootReadBuffer]
      omega

/-- The payload of a READ_ACK of `fr5080_basic`. -/
theorem InStep.readPayload_basic {mem : Nat → UInt8} {rx : List UInt8} (h : InStep buffers s)
    (hlen : s.basic.next.length.toNat ≤ 505)
    (hreceive : s.basic.receive buffers = some (mem, rx)) :
    slice (store mem (bootReadBuffer .basic buffers.recv buffers.send)
      (dev.read s.basic.boot.flash s.basic.next.address s.basic.next.length.toNat))
        (buffers.send + updateParamHeaderSize) s.basic.next.length.toNat =
      List.replicate s.basic.next.length.toNat 0 := by
  have hdisjoint := buffers.disjoint
  have hsize : updateParamHeaderSize = 7 := rfl
  rw [slice_store_of_disjoint]
  · refine List.ext_getElem (by simp) fun i hi _ => ?_
    rw [length_slice] at hi
    rw [getElem_slice, List.getElem_replicate, Nat.add_assoc,
      receive_send hreceive hlen (by omega)]
    exact h.clear _ (by omega) (by omega)
  · rw [dev.length_read]
    simp only [bootReadBuffer]
    omega

/-- The payload of a READ_ACK of `fr5080_basic_xip`. -/
theorem readPayload_xip (mem : Nat → UInt8) (f : φ) (address : UInt32) (n : Nat) :
    slice (store mem (bootReadBuffer .xip buffers.recv buffers.send) (dev.read f address n))
      (buffers.send + updateParamHeaderSize) n = dev.read f address n := by
  have hslice := slice_store_self mem (buffers.send + updateParamHeaderSize)
    (dev.read f address n)
  rwa [dev.length_read] at hslice

/-- A READ that is answered with zeros and one that is answered with the flash. -/
theorem sameRound_read_iff {b x : BootRecord} {rb rx : BootRsp} {header zeros flash : List UInt8}
    (hheader : header.length = updateParamHeaderSize)
    (hrspb : b.rsps = [rb]) (hbytesb : rb.bytes = header ++ zeros) (hcontentb : b.content = flash)
    (hrspx : x.rsps = [rx]) (hbytesx : rx.bytes = header ++ flash)
    (hcontentx : x.content = flash) : SameRound b x ↔ flash = zeros := by
  constructor
  · intro hround
    have hsame := hround.same
    simp only [hrspb, hrspx, List.map_cons, List.map_nil, hbytesb, hbytesx,
      List.cons.injEq, and_true] at hsame
    exact (List.append_cancel_left hsame).symm
  · intro hzero
    subst hzero
    refine ⟨?_, fun _ => ⟨_, hrspb, ?_⟩, fun _ => ⟨_, hrspx, ?_⟩⟩
    · simp only [hrspb, hrspx, List.map_cons, List.map_nil, hbytesb, hbytesx]
    · rw [hbytesb, hcontentb]
      exact List.drop_left' hheader
    · rw [hbytesx, hcontentx]
      exact List.drop_left' hheader

/-- A request other than READ. -/
theorem sameRound_iff_bytes {b x : BootRecord} {rb rx : BootRsp}
    (hrspb : b.rsps = [rb]) (hreadb : b.req.code ≠ UpOpcode.read.code)
    (hrspx : x.rsps = [rx]) (hreadx : x.req.code ≠ UpOpcode.read.code) :
    SameRound b x ↔ rb.bytes = rx.bytes := by
  constructor
  · intro hround
    simpa [hrspb, hrspx] using hround.same
  · intro hbytes
    refine ⟨?_, fun hcode => absurd hcode hreadb, fun hcode => absurd hcode hreadx⟩
    simp [hrspb, hrspx, hbytes]

/-- **One round** is answered alike exactly under the condition. -/
theorem sameRound_iff (h : InStep buffers s) (hshort : ShortRequest s uninit)
    (hstep : bothStep dev buffers s uninit = some s') :
    ∃ b x, s'.basic.log = s.basic.log ++ [b] ∧ s'.xip.log = s.xip.log ++ [x] ∧
      (SameRound b x ↔ AnsweredAlike dev buffers s uninit) := by
  obtain ⟨hbasic, hxip⟩ := bothStep_eq hstep
  have hnext := h.next
  have hlen : s.xip.next.length.toNat ≤ 505 := hnext ▸ hshort
  obtain ⟨memb, rxb, hrecvb, _, _, b, hlogb, hreqb, hrspb, hcontentb⟩ :=
    hostCommStep_short hshort hbasic
  obtain ⟨memx, rxx, hrecvx, _, _, x, hlogx, hreqx, hrspx, hcontentx⟩ :=
    hostCommStep_short hlen hxip
  rw [← hnext] at hreqx
  refine ⟨b, x, hlogb, hlogx, ?_⟩
  by_cases hread : s.basic.next.code = UpOpcode.read.code
  · -- a READ: zeros in `fr5080_basic`, the flash in `fr5080_basic_xip`
    have hbytesb := @bytes_bootRsp_read φ dev buffers .basic s.basic memb hshort hread uninit.1
    have hbytesx := @bytes_bootRsp_read φ dev .xip .xip s.xip memx hlen (hnext ▸ hread) uninit.2
    rw [h.readPayload_basic hshort hrecvb] at hbytesb
    rw [readPayload_xip, ← hnext, ← h.flash] at hbytesx
    rw [← hnext] at hrspx
    rw [← hnext, ← h.flash] at hcontentx
    simp only [AnsweredAlike, hread, if_true]
    exact sameRound_read_iff (UpdateParamHeader.length_bytes _) hrspb hbytesb hcontentb
      hrspx hbytesx hcontentx
  · rw [sameRound_iff_bytes hrspb (hreqb ▸ hread) hrspx (hreqx ▸ hread)]
    by_cases hhandled : Handled s.basic.next.code
    · rw [bytes_bootRsp_header hrecvb hshort hhandled hread,
        bytes_bootRsp_header hrecvx hlen (hnext ▸ hhandled) (hnext ▸ hread), hnext,
        List.append_cancel_left_eq]
      simp only [AnsweredAlike, hhandled, not_true_eq_false, if_false, hread]
    · rw [bytes_bootRsp_unknown hhandled, bytes_bootRsp_unknown (hnext ▸ hhandled)]
      simp only [AnsweredAlike, hhandled, not_false_eq_true, if_true, HostComm.memReceived,
        (receive_eq hrecvb).1, (receive_eq hrecvx).1]

/-- One more round. -/
theorem agree_append_iff {log log' : List BootRecord} {b x : BootRecord}
    (h : List.Forall₂ SameRound log log') :
    List.Forall₂ SameRound (log ++ [b]) (log' ++ [x]) ↔ SameRound b x := by
  constructor
  · intro happend
    have hlast := List.forall₂_drop_append _ _ _ happend
    rw [← h.length_eq, List.drop_left] at hlast
    exact (List.forall₂_cons.mp hlast).1
  · intro hround
    exact List.rel_append h (List.forall₂_cons.mpr ⟨hround, .nil⟩)

/-- **The two boot loaders**: over all requests of at most 505 bytes they answer with the same
bytes, and each READ with the flash, exactly when every request is answered alike. -/
theorem boot_loaders_agree_iff {dev : FlashDev φ} {buffers : BootBuffers} {s t : BothComm φ}
    {es : List (Nat × Nat)} (hstart : BothStart buffers s)
    (hshort : Along (bothStep dev buffers) ShortRequest s es)
    (h : run (bothStep dev buffers) s es = some t) :
    (∀ es1 t1, es1 <+: es → run (bothStep dev buffers) s es1 = some t1 → t1.Agree) ↔
      Along (bothStep dev buffers) (AnsweredAlike dev buffers) s es := by
  have hround : ∀ s uninit s', s.Agree → InStep buffers s → ShortRequest s uninit →
      bothStep dev buffers s uninit = some s' →
        (s'.Agree ↔ AnsweredAlike dev buffers s uninit) := by
    intro s uninit s' hagree hs hshort hstep
    obtain ⟨b, x, hlogb, hlogx, hiff⟩ := sameRound_iff hs hshort hstep
    rw [← hiff, BothComm.Agree, hlogb, hlogx, agree_append_iff hagree]
  have hs : InStep buffers s ∧ s.Agree := by
    refine ⟨⟨hstart.rx, hstart.flash, hstart.result, fun i _ hi => hstart.clear i hi⟩, ?_⟩
    rw [BothComm.Agree, hstart.log.1, hstart.log.2]
    exact .nil
  refine run_good_iff_along (I := fun s => InStep buffers s ∧ s.Agree) (fun _ hs => hs.2)
    ?_ ?_ hs hshort h
  · rintro s uninit s' ⟨hs, hagree⟩ hshort hC hstep
    exact ⟨hs.step hshort hstep, (hround s uninit s' hagree hs hshort hstep).mpr hC⟩
  · rintro s uninit s' ⟨hs, hagree⟩ hshort hC hstep
    exact mt (hround s uninit s' hagree hs hshort hstep).mp hC

/-- A place for the static arrays of `fr5080_basic`. -/
def BootBuffers.static : BootBuffers := ⟨0x150000, 0x150200, by decide, by decide⟩

/-- Both loops at their start. -/
def bothSent (byte : UInt8) (rx : List UInt8) : BothComm Flash :=
  ⟨hostSends byte rx, hostSends byte rx⟩

theorem bothSent_start (byte : UInt8) (rx : List UInt8) :
    BothStart .static (bothSent byte rx) :=
  ⟨rfl, rfl, rfl, ⟨rfl, rfl⟩, fun _ _ => rfl⟩

end

/-- The bytes of READ_ENABLE, GET_TYPE and a READ of four bytes. -/
def enableTypeRead : List UInt8 :=
  [6, 0, 0, 0, 0, 0, 0, 0, 0, 0, 0, 0, 0, 0, 8, 0, 0, 0, 0, 4, 0]

/-- On a flash full of zeros all three are answered alike, the READ with four zeros. -/
theorem boot_loaders_agree_iff_zeros :
    ∃ t, run (bothStep flashChip1M.dev .static) (bothSent 0 enableTypeRead)
        [(0, 0), (0, 0), (0, 0)] = some t ∧ t.Agree ∧
      (t.xip.log.map (·.rsps.map (·.bytes))).getLast? =
        some [[9, 0, 0, 0, 0, 4, 0, 0, 0, 0, 0]] := by
  have hview : (run (bothStep flashChip1M.dev .static) (bothSent 0 enableTypeRead)
      [(0, 0), (0, 0), (0, 0)]).map (fun t => (t.xip.log.map (·.rsps.map (·.bytes))).getLast?) =
        some (some [[9, 0, 0, 0, 0, 4, 0, 0, 0, 0, 0]]) := by decide +kernel
  obtain ⟨t, ht, hlast⟩ := Option.map_eq_some_iff.mp hview
  refine ⟨t, ht, ?_, hlast⟩
  exact (boot_loaders_agree_iff (bothSent_start _ _) (by decide +kernel) ht).mpr
    (by decide +kernel) _ t (List.prefix_refl _) ht

/-- A read of four bytes of a flash full of `0xAB`: `fr5080_basic` answers with zeros. -/
theorem boot_loaders_differ :
    ∃ t, Along (bothStep flashChip1M.dev .static) ShortRequest
        (bothSent 0xAB [8, 0, 0, 0, 0, 4, 0]) [(0, 0)] ∧
      run (bothStep flashChip1M.dev .static) (bothSent 0xAB [8, 0, 0, 0, 0, 4, 0]) [(0, 0)] =
        some t ∧ ¬ t.Agree := by
  have hview : (run (bothStep flashChip1M.dev .static) (bothSent 0xAB [8, 0, 0, 0, 0, 4, 0])
      [(0, 0)]).map (fun t => (t.basic.log.map (·.rsps.map (·.bytes)),
        t.xip.log.map (·.rsps.map (·.bytes)))) =
          some ([[[9, 0, 0, 0, 0, 4, 0, 0, 0, 0, 0]]],
            [[[9, 0, 0, 0, 0, 4, 0, 0xAB, 0xAB, 0xAB, 0xAB]]]) := by decide +kernel
  obtain ⟨t, ht, hlogs⟩ := Option.map_eq_some_iff.mp hview
  obtain ⟨hbasic, hxip⟩ := Prod.mk.inj hlogs
  refine ⟨t, by decide +kernel, ht, fun hagree => ?_⟩
  obtain ⟨b, hb, hb'⟩ := List.map_eq_singleton_iff.mp hbasic
  obtain ⟨x, hx, hx'⟩ := List.map_eq_singleton_iff.mp hxip
  rw [BothComm.Agree, hb, hx] at hagree
  have hsame := (List.forall₂_cons.mp hagree).1.same
  rw [hb', hx'] at hsame
  exact absurd hsame (by decide)

end Fr5080
