import Fr5080.Ipc.Delivery
import Fr5080.Ota.Ota

/-!
# Fr5080.Ipc.Isolation

What a payload message does to the payload of the other channel.

The two buffers towards the MCU lie 0x200 bytes apart, and a message may be
up to 1023 bytes long.  Where the message on channel 0 is longer than 0x200
bytes it reaches into the buffer of channel 1, and a message written to
channel 1 then overwrites its tail.  `Ipc.Fits` is the exact condition under
which the other payload survives (`payload_isolation_iff`); two messages of
at most 0x200 bytes always fit (`Ipc.fits_of_le`).
-/

namespace Fr5080

open Embedded

variable {s : Ipc}

/-! ## the other payload -/

/-- The number of payload bytes of the message in flight on channel `chn`;
a command has none. -/
def Ipc.payloadLength (s : Ipc) (chn : Nat) : Nat :=
  match (s.log.flight chn).bind (s.log.submitted[·]?) with
  | some m => m.bytes.length
  | none => 0

/-- From `s` to `s'` a message of `total` bytes was written to channel `c`:
every other payload in flight is as before and the register shows the length. -/
def Ipc.IsolatedSend (s s' : Ipc) (c total : Nat) : Prop :=
  (∀ other < ipcWithLoadChannels, other ≠ c →
    slice s'.shm (ipcGetBufferOffset .dsp2mcu other) (s.payloadLength other) =
      slice s.shm (ipcGetBufferOffset .dsp2mcu other) (s.payloadLength other)) ∧
    (s'.msgOut c).length = total

/-- `data` fits on channel `c`: of the bytes of channel 0 beyond its 0x200-byte
buffer, none meets a different payload byte of channel 1. -/
def Ipc.Fits (s : Ipc) (c : Nat) (data : List UInt8) : Prop :=
  match c with
  | 0 => ∀ i, 0x200 + i < data.length → i < s.payloadLength 1 →
      data[0x200 + i]? = some (s.shm (ipcGetBufferOffset .dsp2mcu 1 + i))
  | 1 => ∀ i, i < data.length → 0x200 + i < s.payloadLength 0 →
      data[i]? = some (s.shm (ipcGetBufferOffset .dsp2mcu 0 + (0x200 + i)))
  | _ => True

/-- Messages of at most 0x200 bytes fit. -/
theorem Ipc.fits_of_le {c : Nat} {data : List UInt8} (hdata : data.length ≤ 0x200)
    (hother : s.payloadLength 0 ≤ 0x200) : s.Fits c data := by
  match c with
  | 0 => intro i hi; omega
  | 1 => intro i _ hi; omega
  | _ + 2 => trivial

theorem offset_zero : ipcGetBufferOffset .dsp2mcu 0 = 0x1F1800 := rfl

theorem offset_one : ipcGetBufferOffset .dsp2mcu 1 = 0x1F1800 + 0x200 := rfl

/-- A store leaves a slice alone exactly when every byte it writes there is
the byte already present. -/
theorem slice_store_eq_iff {m : Nat → UInt8} {off off' n : Nat} {xs : List UInt8} :
    slice (store m off xs) off' n = slice m off' n ↔
      ∀ i < xs.length, off' ≤ off + i → off + i < off' + n → xs[i]? = some (m (off + i)) := by
  rw [slice_eq_slice_iff]
  constructor
  · intro h i hi hle hlt
    have hcell := h (off + i - off') (by omega)
    rw [Nat.add_sub_cancel' hle, store_add m off xs i hi] at hcell
    rw [List.getElem?_eq_getElem hi, hcell]
  · intro h j hj
    by_cases hin : off ≤ off' + j ∧ off' + j < off + xs.length
    · have hcell := h (off' + j - off) (by omega) (by omega) (by omega)
      rw [Nat.add_sub_cancel' hin.1] at hcell
      simp only [store, hin.1, if_true, hcell, Option.getD_some]
    · exact store_of_not_mem m off xs (off' + j) (by omega)

/-- Storing `data` in the buffer of channel `c` keeps the other payload
exactly when it fits. -/
theorem Ipc.fits_iff {c : Nat} (hc : c < ipcWithLoadChannels) {data : List UInt8} :
    (∀ other < ipcWithLoadChannels, other ≠ c →
      slice (store s.shm (ipcGetBufferOffset .dsp2mcu c) data)
          (ipcGetBufferOffset .dsp2mcu other) (s.payloadLength other) =
        slice s.shm (ipcGetBufferOffset .dsp2mcu other) (s.payloadLength other)) ↔
      s.Fits c data := by
  have hload : ipcWithLoadChannels = 2 := rfl
  simp only [slice_store_eq_iff]
  match c, hc with
  | 0, _ =>
      constructor
      · intro h i hi hother
        have hbyte := h 1 (by omega) (by omega) (0x200 + i) hi
        rw [offset_zero, offset_one] at hbyte
        rw [offset_one, Nat.add_assoc]
        exact hbyte (by omega) (by omega)
      · intro h other hother hne i hi hle hlt
        obtain rfl : other = 1 := by omega
        rw [offset_zero, offset_one] at hle hlt
        have hbyte := h (i - 0x200) (by omega) (by omega)
        rw [offset_one, Nat.add_assoc, Nat.add_sub_cancel' (by omega)] at hbyte
        exact hbyte
  | 1, _ =>
      constructor
      · intro h i hi hother
        have hbyte := h 0 (by omega) (by omega) i hi
        rw [offset_zero, offset_one] at hbyte
        rw [offset_zero, ← Nat.add_assoc]
        exact hbyte (by omega) (by omega)
      · intro h other hother hne i hi hle hlt
        obtain rfl : other = 0 := by omega
        rw [offset_zero, offset_one] at hle hlt
        have hbyte := h i hi (by omega)
        rw [offset_zero, ← Nat.add_assoc] at hbyte
        exact hbyte

/-- A message with something to carry gets a channel with a buffer. -/
theorem ipcAllocScan_of_nonempty {length : UInt16} {availableBuffer : BitVec 8} {c : Nat}
    (hlength : length ≠ 0) (hscan : ipcAllocScan availableBuffer (ipcAllocLimit length) = some c) :
    c < ipcWithLoadChannels := by
  rw [ipcAllocLimit_of_ne_zero hlength] at hscan
  exact (ipcAllocScan_some hscan).1

/-- **One write** of at most 1023 bytes to the channel found for it is isolated
from the other channel exactly when it fits. -/
theorem Ipc.isolatedSend_iff {s' : Ipc} {c : Nat} {data : List UInt8} (format : UInt8)
    {length : UInt16} (hshm : s'.shm = store s.shm (ipcGetBufferOffset .dsp2mcu c) data)
    (hmsg : s'.msgOut c = ipcMsgWord c format length) (hdata : data.length = length.toNat)
    (hmax : data.length ≤ 1023)
    (hscan : ipcAllocScan s.availableBuffer (ipcAllocLimit length) = some c) :
    s.IsolatedSend s' c data.length ↔ s.Fits c data := by
  have hfield : (s'.msgOut c).length = data.length := by
    rw [hmsg]
    show length.toNat % 2 ^ 10 = data.length
    omega
  unfold Ipc.IsolatedSend
  rw [hshm, and_iff_left hfield]
  by_cases hempty : length = 0
  · have hnil : data = [] := by
      apply List.eq_nil_of_length_eq_zero
      rw [hdata, hempty]
      rfl
    subst hnil
    refine iff_of_true (fun _ _ _ => by rw [store_nil]) ?_
    match c with
    | 0 => intro i hi; exact absurd hi (Nat.not_lt_zero _)
    | 1 => intro i hi; exact absurd hi (Nat.not_lt_zero _)
    | _ + 2 => trivial
  · exact Ipc.fits_iff (ipcAllocScan_of_nonempty hempty hscan)

/-! ## the ways a payload leaves -/

/-- A new payload message on a free channel is isolated exactly when it fits,
and its bytes are in the buffer; without a free channel it only waits. -/
theorem offer_isolated_iff {ele : IpcMsgElem} {m : IpcSubmission} (hele : ele.Carries m)
    (hkind : m.kind = .payloadSend) (hbytes : m.bytes.length = m.length)
    (hmax : m.length ≤ 1023) {s' : Ipc} (hs' : s' = (s.submit m).offer ele m.bytes) :
    (∀ c, ipcAllocScan s.availableBuffer (ipcAllocLimit ele.allocLength) = some c →
      (s.IsolatedSend s' c m.length ↔ s.Fits c m.bytes) ∧
        slice s'.shm (ipcGetBufferOffset .dsp2mcu c) m.length = m.bytes) ∧
    (ipcAllocScan s.availableBuffer (ipcAllocLimit ele.allocLength) = none →
      s'.shm = s.shm ∧ s'.ipcMsgList = s.ipcMsgList ++ [ele]) := by
  obtain ⟨hlength, hpay⟩ := hele.payload_length hkind (by omega)
  constructor
  · intro c hscan
    have hscan' : ipcAllocScan (s.submit m).availableBuffer (ipcAllocLimit ele.allocLength) =
        some c := hscan
    rw [Ipc.offer, hscan'] at hs'
    subst hs'
    rw [← hlength] at hscan
    rw [← hbytes]
    exact ⟨Ipc.isolatedSend_iff ele.msg.code rfl (Function.update_self ..)
      (hbytes.trans hpay.symm) (by omega) hscan, slice_store_self _ _ _⟩
  · intro hscan
    have hscan' : ipcAllocScan (s.submit m).availableBuffer (ipcAllocLimit ele.allocLength) =
        none := hscan
    rw [Ipc.offer, hscan'] at hs'
    subst hs'
    exact ⟨rfl, rfl⟩

/-- `ipc_msg_sent` with a payload message at the head of the list. -/
theorem deferred_isolated_iff {ele : IpcMsgElem} {rest : List IpcMsgElem} {m : IpcSubmission}
    {c : Nat} (hlist : s.ipcMsgList = ele :: rest) (hele : ele.Carries m)
    (hkind : m.kind = .payloadSend) (hmax : m.length ≤ 1023)
    (hscan : ipcAllocScan s.availableBuffer (ipcAllocLimit ele.allocLength) = some c) :
    s.IsolatedSend (ipcMsgSent s) c m.length ↔ s.Fits c m.bytes := by
  obtain ⟨hdata, hlen⟩ := hele.dataOf hkind (by omega)
  obtain ⟨hlength, hpay⟩ := hele.payload_length hkind (by omega)
  rw [ipcMsgSent_cons hlist, hscan, ← hlen, ← hdata]
  exact Ipc.isolatedSend_iff ele.msg.code rfl (Function.update_self ..)
    (hlen.trans hpay.symm) (by omega) (by rw [hlength]; exact hscan)

/-- The reply to a flash read: the header, then the bytes of the flash. -/
def otaReadReply (localFlashOp chn : Nat) (s : Ipc) : List UInt8 :=
  let buffer := ipcGetBufferOffset .mcu2dsp chn
  let ram := otaReadRam localFlashOp chn s
  slice ram localFlashOp ipcMsgFlashOpSize.toNat ++
    slice ram (word32 s.shm (buffer + 8) ||| qspi1DacAddress).toNat
      (word32 s.shm (buffer + 4)).toNat

theorem length_otaReadReply (localFlashOp chn : Nat) :
    (otaReadReply localFlashOp chn s).length =
      16 + (word32 s.shm (ipcGetBufferOffset .mcu2dsp chn + 4)).toNat := by
  have hsize : ipcMsgFlashOpSize.toNat = 16 := rfl
  rw [otaReadReply, List.length_append, length_slice, length_slice, hsize]

/-- The message a flash read submits. -/
def otaReadSubmission (localFlashOp chn : Nat) (s : Ipc) : IpcSubmission :=
  let buffer := ipcGetBufferOffset .mcu2dsp chn
  ipcMsgWithPayloadSubmission .flashOperation localFlashOp ipcMsgFlashOpSize
    (word32 s.shm (buffer + 8) ||| qspi1DacAddress).toNat
    (word32 s.shm (buffer + 4)).toUInt16 none { s with ram := otaReadRam localFlashOp chn s }

/-- The conversion to the 16 bits of the parameter loses nothing of at most
1007 bytes: the message is the whole reply. -/
theorem otaReadSubmission_bytes (localFlashOp : Nat) {chn : Nat}
    (hmax : (word32 s.shm (ipcGetBufferOffset .mcu2dsp chn + 4)).toNat ≤ 1007) :
    (otaReadSubmission localFlashOp chn s).bytes = otaReadReply localFlashOp chn s ∧
      (otaReadSubmission localFlashOp chn s).length =
        16 + (word32 s.shm (ipcGetBufferOffset .mcu2dsp chn + 4)).toNat := by
  have hsize : ipcMsgFlashOpSize.toNat = 16 := rfl
  have hconv : (word32 s.shm (ipcGetBufferOffset .mcu2dsp chn + 4)).toUInt16.toNat =
      (word32 s.shm (ipcGetBufferOffset .mcu2dsp chn + 4)).toNat := by
    rw [UInt32.toNat_toUInt16, Nat.mod_eq_of_lt (by omega)]
  simp only [otaReadSubmission, ipcMsgWithPayloadSubmission, otaReadReply, hconv, hsize, and_self]

/-- The reply needs a channel with a buffer, and is isolated exactly when it fits. -/
theorem otaRead_isolated_iff (localFlashOp chn : Nat)
    (hmax : (word32 s.shm (ipcGetBufferOffset .mcu2dsp chn + 4)).toNat ≤ 1007) :
    (∀ c, ipcAllocScan s.availableBuffer ipcWithLoadChannels = some c →
      slice (otaRecvIpcMsgRead localFlashOp chn s).shm (ipcGetBufferOffset .dsp2mcu c)
          (otaReadReply localFlashOp chn s).length = otaReadReply localFlashOp chn s ∧
        (s.IsolatedSend (otaRecvIpcMsgRead localFlashOp chn s) c
          (otaReadReply localFlashOp chn s).length ↔ s.Fits c (otaReadReply localFlashOp chn s))) ∧
    (ipcAllocScan s.availableBuffer ipcWithLoadChannels = none →
      (otaRecvIpcMsgRead localFlashOp chn s).shm = s.shm ∧ ∃ ele,
        (otaRecvIpcMsgRead localFlashOp chn s).ipcMsgList = s.ipcMsgList ++ [ele] ∧
          ele.Carries (otaReadSubmission localFlashOp chn s)) := by
  obtain ⟨hbytes, hlength⟩ := otaReadSubmission_bytes localFlashOp hmax
  have hlen := length_otaReadReply (s := s) localFlashOp chn
  have hne : ipcMsgFlashOpSize +
      (word32 s.shm (ipcGetBufferOffset .mcu2dsp chn + 4)).toUInt16 ≠ 0 := by
    intro hzero
    have hsum := congrArg UInt16.toNat hzero
    have hsize : ipcMsgFlashOpSize.toNat = 16 := rfl
    rw [UInt16.toNat_add, UInt32.toNat_toUInt16, hsize, UInt16.toNat_zero] at hsum
    omega
  obtain ⟨ele, hele, hlimit, hsend⟩ : ∃ ele : IpcMsgElem,
      ele.Carries (otaReadSubmission localFlashOp chn s) ∧
      ipcAllocLimit ele.allocLength = ipcWithLoadChannels ∧
      otaRecvIpcMsgRead localFlashOp chn s =
        (({ s with ram := otaReadRam localFlashOp chn s } : Ipc).submit
          (otaReadSubmission localFlashOp chn s)).offer ele
          (otaReadSubmission localFlashOp chn s).bytes :=
    ⟨_, (IpcOp.offer_carries (.msgWithPayloadSend _ _ _ _ _ _) rfl).2.1,
      ipcAllocLimit_of_ne_zero hne, ipcMsgWithPayloadSend_eq ..⟩
  obtain ⟨hsome, hnone⟩ := offer_isolated_iff
    (s := { s with ram := otaReadRam localFlashOp chn s }) hele rfl
    (by rw [hbytes, hlength, hlen]) (by rw [hlength]; omega) hsend
  rw [hlimit, hbytes, hlength, ← hlen] at hsome
  rw [hlimit] at hnone
  constructor
  · intro c hscan
    obtain ⟨hiff, hbuf⟩ := hsome c hscan
    exact ⟨hbuf, hiff⟩
  · intro hscan
    obtain ⟨hshm, hlist⟩ := hnone hscan
    exact ⟨hshm, ele, hlist, hele⟩

/-- **Payload isolation**: a payload message of at most 1023 bytes leaves the
payload of the other channel unchanged and shows its whole length — at once,
from the list, or as the reply to a flash read — exactly when it fits. -/
theorem payload_isolation_iff (s : Ipc) :
    (∀ msg header headerLength payload payloadLength callback,
      headerLength.toNat + payloadLength.toNat ≤ 1023 →
      let m := ipcMsgWithPayloadSubmission msg header headerLength payload payloadLength callback s
      let s' := ipcMsgWithPayloadSend msg header headerLength payload payloadLength callback s
      let scan := ipcAllocScan s.availableBuffer (ipcAllocLimit (headerLength + payloadLength))
      (∀ c, scan = some c → (s.IsolatedSend s' c m.length ↔ s.Fits c m.bytes)) ∧
        (scan = none → s'.shm = s.shm)) ∧
    (∀ ele rest m c, s.ipcMsgList = ele :: rest → ele.Carries m → m.kind = .payloadSend →
      m.length ≤ 1023 →
      ipcAllocScan s.availableBuffer (ipcAllocLimit ele.allocLength) = some c →
      (s.IsolatedSend (ipcMsgSent s) c m.length ↔ s.Fits c m.bytes)) ∧
    (∀ localFlashOp chn length,
      (word32 s.shm (ipcGetBufferOffset .mcu2dsp chn + 4)).toNat = length → length ≤ 1007 →
      let reply := otaReadReply localFlashOp chn s
      let s' := otaRecvIpcMsgRead localFlashOp chn s
      let scan := ipcAllocScan s.availableBuffer ipcWithLoadChannels
      reply.length = 16 + length ∧
        (∀ c, scan = some c → slice s'.shm (ipcGetBufferOffset .dsp2mcu c) (16 + length) = reply ∧
          (s.IsolatedSend s' c (16 + length) ↔ s.Fits c reply)) ∧
        (scan = none → s'.shm = s.shm ∧ ∃ ele, s'.ipcMsgList = s.ipcMsgList ++ [ele] ∧
          ele.Carries (otaReadSubmission localFlashOp chn s) ∧
          (otaReadSubmission localFlashOp chn s).bytes = reply)) := by
  refine ⟨?_, ?_, ?_⟩
  · intro msg header headerLength payload payloadLength callback hmax
    obtain ⟨_, hele, _⟩ := IpcOp.offer_carries (s := s) (.msgWithPayloadSend msg header
      headerLength payload payloadLength callback) rfl
    obtain ⟨hsome, hnone⟩ := offer_isolated_iff (s := s) hele rfl
      (by simp [ipcMsgWithPayloadSubmission]) hmax
      (ipcMsgWithPayloadSend_eq msg header headerLength payload payloadLength callback s)
    exact ⟨fun c hscan => (hsome c hscan).1, fun hscan => (hnone hscan).1⟩
  · intro ele rest m c hlist hele hkind hmax hscan
    exact deferred_isolated_iff hlist hele hkind hmax hscan
  · intro localFlashOp chn length hlength hmax
    subst hlength
    have hlen := length_otaReadReply (s := s) localFlashOp chn
    have hota := otaRead_isolated_iff (s := s) localFlashOp chn hmax
    rw [hlen] at hota
    refine ⟨hlen, hota.1, fun hscan => ?_⟩
    obtain ⟨hshm, ele, hlist, hele⟩ := hota.2 hscan
    exact ⟨hshm, ele, hlist, hele, (otaReadSubmission_bytes localFlashOp hmax).1⟩

/-- The driver with a message of six bytes in flight on channel 1. -/
def sixInFlight : Ipc :=
  ipcMsgWithPayloadSend .rawFrame 0 2 2 4 none
    (ipcStart (fun a => if a < 16 then 1 else 0) (fun _ => 0) fun _ => ⟨0, 0, 0, 0⟩).ipc

/-- A message of 512 bytes on channel 0 fits. -/
theorem payload_isolation_iff_second :
    sixInFlight.payloadLength 1 = 6 ∧
      sixInFlight.IsolatedSend
        (ipcMsgWithPayloadSend .flashOperation 16 16 32 496 none sixInFlight) 0 512 := by
  refine ⟨by decide +kernel, ?_⟩
  have h := (payload_isolation_iff sixInFlight).1 .flashOperation 16 16 32 496 none (by decide)
  exact (h.1 0 (by decide +kernel)).mpr
    (Ipc.fits_of_le (by simp [ipcMsgWithPayloadSubmission]) (by decide +kernel))

/-- While six bytes are in flight on channel 1, a message of 516 bytes on
channel 0 overwrites the first four of them. -/
theorem payload_damages_other :
    ¬ ∀ (ram shm : Nat → UInt8) (msgIn : Nat → IpcMsg) (ops : List IpcOp) (s : IpcSys),
      run ipcStep (ipcStart ram shm msgIn) ops = some s →
      ∀ msg header headerLength payload payloadLength callback c,
        headerLength.toNat + payloadLength.toNat ≤ 1023 →
        ipcAllocScan s.ipc.availableBuffer (ipcAllocLimit (headerLength + payloadLength)) =
          some c →
        s.ipc.IsolatedSend
          (ipcMsgWithPayloadSend msg header headerLength payload payloadLength callback s.ipc) c
          (headerLength.toNat + payloadLength.toNat) := by
  intro h
  have hsend := (h (fun a => if a < 16 then 1 else 0) (fun _ => 0) (fun _ => ⟨0, 0, 0, 0⟩)
    [.msgWithPayloadSend .rawFrame 0 2 2 4 none] _ rfl .flashOperation 16 16 32 500 none 0
    (by decide) rfl).1 1 (by decide) (by decide)
  rw [slice_eq_slice_iff] at hsend
  have hbyte := hsend 0 (by decide)
  revert hbyte
  decide +kernel

end Fr5080
