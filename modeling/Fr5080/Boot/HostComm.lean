import Fr5080.Boot.Response

/-!
# Fr5080.Boot.HostComm

`app_boot_host_comm_loop` on the bytes of the host, and whether request and
response stay apart in it.

In `fr5080_basic_xip` the response buffer ends where the request buffer begins,
and `app_boot_get_buffer` ignores the size it is asked for.  A READ of more than
505 bytes goes on into the request: the code that the command looks at behind
the `switch` is then a byte of the flash, and if that is
`UP_OPCODE_CHANGE_BANDRATE` the request gets no response.
-/

namespace Fr5080

open Embedded

/-! ## the loop -/

/-- What happened to one request: the memory before and after the command, its stores and
responses, and what `flash_read` would have delivered. -/
structure BootRecord where
  req : UpdateParamHeader
  before : Nat → UInt8
  after : Nat → UInt8
  stores : List (Nat × List UInt8)
  rsps : List BootRsp
  content : List UInt8

/-- The loop between two requests: `rx` are the bytes of the host that have not been
received, `log` is a history variable. -/
structure HostComm (φ : Type) where
  boot : Boot φ
  result : UInt8
  rx : List UInt8
  log : List BootRecord

/-- `uart_get_data_noint`: it waits until there are `size` bytes. -/
def uartGetDataNoint (size : Nat) (rx : List UInt8) : Option (List UInt8 × List UInt8) :=
  if size ≤ rx.length then some (rx.take size, rx.drop size) else none

section

variable {φ : Type} (project : BootProject) (dev : FlashDev φ) (buffers : BootBuffers)

/-- The header at the front of the bytes of the host. -/
def HostComm.next (s : HostComm φ) : UpdateParamHeader :=
  UpdateParamHeader.read (fun i => s.rx.getD i 0) 0

/-- The bytes behind the header that the loop receives. -/
def bootPayloadLength (req : UpdateParamHeader) : Nat :=
  if req.length ≠ 0 ∧ req.code ≠ UpOpcode.read.code ∧ req.code ≠ UpOpcode.readRam.code then
    req.length.toNat
  else 0

/-- A request is received: the memory, and the bytes behind it. -/
def HostComm.receive (s : HostComm φ) : Option ((Nat → UInt8) × List UInt8) := do
  let (header, rx) ← uartGetDataNoint updateParamHeaderSize s.rx
  let mem := store s.boot.mem buffers.recv header
  let (payload, rx) ← uartGetDataNoint
    (bootPayloadLength (UpdateParamHeader.read mem buffers.recv)) rx
  some (store mem (buffers.recv + updateParamHeaderSize) payload, rx)

/-- The state in which a command starts. -/
def HostComm.received (mem : Nat → UInt8) (s : HostComm φ) : Boot φ :=
  { s.boot with mem := mem, stores := [], rsps := [] }

/-- One round of `app_boot_host_comm_loop`. -/
def hostCommStep (s : HostComm φ) (uninit : Nat) : Option (HostComm φ) :=
  if s.result = upResultContinue then
    (s.receive buffers).map fun (mem, rx) =>
      let boot := s.received mem
      let req := UpdateParamHeader.read mem buffers.recv
      let out := appBootProcessCmd project dev (appBootGetBuffer buffers) buffers.recv uninit boot
      ⟨out.2, out.1, rx, s.log ++ [⟨req, mem, out.2.mem, out.2.stores, out.2.rsps,
        dev.read boot.flash req.address req.length.toNat⟩]⟩
  else none

variable {project dev buffers} {s s' : HostComm φ} {uninit : Nat}

/-- A header is read from its seven bytes. -/
theorem UpdateParamHeader.read_congr {m m' : Nat → UInt8} {a a' : Nat}
    (h : ∀ i < updateParamHeaderSize, m (a + i) = m' (a' + i)) :
    UpdateParamHeader.read m a = UpdateParamHeader.read m' a' := by
  have hsize : updateParamHeaderSize = 7 := rfl
  have hcode := h 0 (by decide)
  have haddress : word32 m (a + 1) = word32 m' (a' + 1) := word32_congr fun i hi => by
    simpa only [Nat.add_assoc] using h (1 + i) (by omega)
  rw [Nat.add_zero, Nat.add_zero] at hcode
  simp only [UpdateParamHeader.read, word16, hcode, haddress, Nat.add_assoc, h 5 (by decide),
    h 6 (by decide)]

/-- A header that has been stored. -/
theorem UpdateParamHeader.read_store {m : Nat → UInt8} {a n : Nat} {xs : List UInt8}
    (hn : updateParamHeaderSize ≤ n) (hxs : updateParamHeaderSize ≤ xs.length) :
    UpdateParamHeader.read (store m a (xs.take n)) a =
      UpdateParamHeader.read (fun i => xs.getD i 0) 0 := by
  refine UpdateParamHeader.read_congr fun i hi => ?_
  have hlt : i < xs.length := by omega
  rw [store_add m a _ i (by rw [List.length_take]; omega), List.getElem_take, Nat.zero_add]
  simp [hlt]

/-- What is received is in the request buffer, header and payload. -/
theorem receive_eq {mem : Nat → UInt8} {rx : List UInt8} (h : s.receive buffers = some (mem, rx)) :
    mem = store s.boot.mem buffers.recv
        (s.rx.take (updateParamHeaderSize + bootPayloadLength s.next)) ∧
      rx = s.rx.drop (updateParamHeaderSize + bootPayloadLength s.next) ∧
      updateParamHeaderSize + bootPayloadLength s.next ≤ s.rx.length ∧
      UpdateParamHeader.read mem buffers.recv = s.next := by
  by_cases hheader : updateParamHeaderSize ≤ s.rx.length
  · have hnext := @UpdateParamHeader.read_store s.boot.mem buffers.recv _ s.rx (Nat.le_refl _)
      hheader
    change _ = s.next at hnext
    by_cases hpayload : bootPayloadLength s.next ≤ s.rx.length - updateParamHeaderSize
    · simp [HostComm.receive, uartGetDataNoint, hheader, hnext, hpayload] at h
      obtain ⟨rfl, rfl⟩ := h
      have hlen : (s.rx.take updateParamHeaderSize).length = updateParamHeaderSize := by
        rw [List.length_take]
        omega
      have hstore := store_store_append s.boot.mem buffers.recv
        (s.rx.take updateParamHeaderSize)
        ((s.rx.drop updateParamHeaderSize).take (bootPayloadLength s.next))
      rw [hlen, ← List.take_add] at hstore
      rw [hstore]
      refine ⟨rfl, rfl, by omega, ?_⟩
      exact UpdateParamHeader.read_store (Nat.le_add_right _ _) hheader
    · simp [HostComm.receive, uartGetDataNoint, hheader, hnext, hpayload] at h
  · simp [HostComm.receive, uartGetDataNoint, hheader] at h

/-- **One round**: the record that it adds to the log. -/
theorem hostCommStep_eq (h : hostCommStep project dev buffers s uninit = some s') :
    ∃ mem rx, s.receive buffers = some (mem, rx) ∧
      let boot := s.received mem
      let out := appBootProcessCmd project dev (appBootGetBuffer buffers) buffers.recv uninit boot
      s' = ⟨out.2, out.1, rx, s.log ++ [⟨s.next, mem, out.2.mem, out.2.stores, out.2.rsps,
        dev.read s.boot.flash s.next.address s.next.length.toNat⟩]⟩ := by
  unfold hostCommStep at h
  split at h
  · obtain ⟨⟨mem, rx⟩, hreceive, rfl⟩ := Option.map_eq_some_iff.mp h
    refine ⟨mem, rx, hreceive, ?_⟩
    rw [← (receive_eq hreceive).2.2.2]
    rfl
  · cases h

/-! ## request and response -/

/-- Request and response are kept apart: the command stores into the 0x200 bytes of the
response buffer only, the rest of the memory, the request with it, is as it was received, and
there is one response, with the next code if the opcode has a `case`. -/
structure KeepsApart (buffers : BootBuffers) (r : BootRecord) : Prop where
  inside : ∀ w ∈ r.stores, buffers.send ≤ w.1 ∧ w.1 + w.2.length ≤ buffers.send + 0x200
  kept : ∀ a, a < buffers.send ∨ buffers.send + 0x200 ≤ a → r.after a = r.before a
  codeSeen : r.after buffers.recv = r.req.code
  responds : ∃ rsp, r.rsps = [rsp] ∧
    (Handled r.req.code → rsp.buffer = buffers.send ∧ rsp.bytes.head? = some (r.req.code + 1))

/-- The next request does not read more than the response buffer holds behind the header. -/
def ReadFits (s : HostComm φ) (_uninit : Nat) : Prop :=
  s.next.code = UpOpcode.read.code → s.next.length.toNat ≤ 0x200 - updateParamHeaderSize

instance (s : HostComm φ) (uninit : Nat) : Decidable (ReadFits s uninit) :=
  inferInstanceAs (Decidable (_ → _))

/-- A round whose request fits. -/
theorem keepsApart_of_readFits
    (h : hostCommStep .xip dev buffers s uninit = some s') (hfits : ReadFits s uninit) :
    ∃ r, s'.log = s.log ++ [r] ∧ KeepsApart buffers r := by
  obtain ⟨mem, rx, hreceive, rfl⟩ := hostCommStep_eq h
  have hreq : UpdateParamHeader.read (s.received mem).mem buffers.recv = s.next :=
    (receive_eq hreceive).2.2.2
  have hsize : updateParamHeaderSize = 7 := rfl
  have hlen : s.next.code = UpOpcode.read.code → s.next.length.toNat ≤ 505 := hfits
  have hkept := @bootMem_recv φ .xip dev buffers s.next (s.received mem) hreq
    (fun _ hcode => by have := hlen hcode; omega)
  have hspec := @appBootProcessCmd_spec φ .xip dev buffers uninit s.next (s.received mem) hreq
  refine ⟨_, rfl, ?_, ?_, ?_, ?_⟩
  · obtain ⟨header, hstores, hheader⟩ := hspec.stores
    intro w hw
    have hmem : w ∈ bootReadStores .xip dev buffers s.next (s.received mem) ++ header := by
      rwa [hstores] at hw
    rcases List.mem_append.mp hmem with hw | hw
    · unfold bootReadStores at hw
      split at hw
      · next hcode =>
          have := hlen hcode
          cases List.mem_singleton.mp hw
          simp only [dev.length_read, bootReadBuffer]
          omega
      · cases hw
    · have := hheader w hw
      omega
  · intro a ha
    rw [hspec.mem]
    refine bootMem_of_not_mem (by omega) fun hcode => ?_
    have := hlen hcode
    simp only [bootReadBuffer]
    omega
  · rw [hspec.mem]
    exact hkept
  · refine ⟨_, rsps_appBootProcessCmd hreq hkept, fun hhandled => ⟨if_pos hhandled, ?_⟩⟩
    exact head_bootRsp hhandled hlen

/-- A round whose request does not fit stores into the request buffer. -/
theorem not_keepsApart_of_not_readFits
    (h : hostCommStep .xip dev buffers s uninit = some s') (hfits : ¬ ReadFits s uninit) :
    ∃ r, s'.log = s.log ++ [r] ∧ ¬ KeepsApart buffers r := by
  obtain ⟨mem, rx, hreceive, rfl⟩ := hostCommStep_eq h
  have hreq : UpdateParamHeader.read (s.received mem).mem buffers.recv = s.next :=
    (receive_eq hreceive).2.2.2
  obtain ⟨hcode, hlen⟩ := Classical.not_imp.mp hfits
  have hspec := @appBootProcessCmd_spec φ .xip dev buffers uninit s.next (s.received mem) hreq
  obtain ⟨header, hstores, _⟩ := hspec.stores
  refine ⟨_, rfl, fun hkeeps => hlen ?_⟩
  have hmem : (buffers.send + updateParamHeaderSize,
      dev.read (s.received mem).flash s.next.address s.next.length.toNat) ∈
        (appBootProcessCmd .xip dev (appBootGetBuffer buffers) buffers.recv uninit
          (s.received mem)).2.stores := by
    rw [hstores, bootReadStores, if_pos hcode]
    simp [bootReadBuffer]
  have hinside := (hkeeps.inside _ hmem).2
  simp only [dev.length_read] at hinside
  omega

/-- **Request and response**: over every byte stream they are kept apart exactly when no READ in
it asks for more than 505 bytes. -/
theorem boot_buffers_apart_iff {dev : FlashDev φ} {s t : HostComm φ} {es : List Nat}
    (hlog : s.log = []) (h : run (hostCommStep .xip dev .xip) s es = some t) :
    (∀ r ∈ t.log, KeepsApart .xip r) ↔ Along (hostCommStep .xip dev .xip) ReadFits s es := by
  have hundamaged := run_undamaged_iff_along (I := fun s => ∀ r ∈ s.log, KeepsApart .xip r)
    (D := fun s : HostComm φ => ∃ r ∈ s.log, ¬ KeepsApart .xip r) (C := ReadFits)
    ?_ ?_ ?_ ?_ (by simp [hlog]) h
  · rw [← hundamaged]
    simp
  · intro s uninit s' hs hfits hstep
    obtain ⟨r, hlog', hr⟩ := keepsApart_of_readFits hstep hfits
    intro r' hr'
    rw [hlog'] at hr'
    rcases List.mem_append.mp hr' with hr' | hr'
    · exact hs r' hr'
    · rwa [List.mem_singleton.mp hr']
  · intro s uninit s' _ hfits hstep
    obtain ⟨r, hlog', hr⟩ := not_keepsApart_of_not_readFits hstep hfits
    exact ⟨r, by simp [hlog'], hr⟩
  · rintro s uninit s' ⟨r, hmem, hr⟩ hstep
    obtain ⟨mem, rx, _, rfl⟩ := hostCommStep_eq hstep
    exact ⟨r, List.mem_append_left _ hmem, hr⟩
  · rintro s hs ⟨r, hmem, hr⟩
    exact hr (hs r hmem)

/-- The loop at its start, with the bytes of the host; the flash is full of one byte. -/
def hostSends (byte : UInt8) (rx : List UInt8) : HostComm Flash :=
  ⟨⟨fun _ => 0, ⟨fun _ => byte, 0x1C, false, []⟩, [], [], []⟩, upResultContinue, rx, []⟩

end

/-- A read of four bytes. -/
theorem boot_buffers_apart_iff_read :
    ∃ t, run (hostCommStep .xip flashChip1M.dev .xip) (hostSends 0xFF [8, 0, 0, 0, 0, 4, 0]) [0] =
      some t ∧ ∀ r ∈ t.log, KeepsApart .xip r := by
  have hsome : (run (hostCommStep .xip flashChip1M.dev .xip) (hostSends 0xFF [8, 0, 0, 0, 0, 4, 0])
      [0]).isSome = true := by decide +kernel
  obtain ⟨t, ht⟩ := Option.isSome_iff_exists.mp hsome
  exact ⟨t, ht, (boot_buffers_apart_iff rfl ht).mpr (by decide +kernel)⟩

/-- A read of 506 bytes of a flash full of `0x12`: the code of the request is overwritten, and
there is no response. -/
theorem boot_read_overwrites_request :
    ∃ t, run (hostCommStep .xip flashChip1M.dev .xip)
      (hostSends 0x12 [8, 0, 0, 0, 0, 0xFA, 0x01]) [0] = some t ∧
      ∃ r ∈ t.log, r.rsps = [] ∧ ¬ KeepsApart .xip r := by
  have hview : (run (hostCommStep .xip flashChip1M.dev .xip)
      (hostSends 0x12 [8, 0, 0, 0, 0, 0xFA, 0x01]) [0]).map
        (fun t => t.log.map fun r => (r.req.code, r.after BootBuffers.xip.recv, r.rsps)) =
          some [(8, 0x12, [])] := by decide +kernel
  obtain ⟨t, ht, hlog⟩ := Option.map_eq_some_iff.mp hview
  obtain ⟨r, hr, hdata⟩ := List.map_eq_singleton_iff.mp hlog
  simp only [Prod.mk.injEq] at hdata
  refine ⟨t, ht, r, by simp [hr], hdata.2.2, fun hkeeps => ?_⟩
  obtain ⟨rsp, hrsps, _⟩ := hkeeps.responds
  rw [hdata.2.2] at hrsps
  cases hrsps

end Fr5080
