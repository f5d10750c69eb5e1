import Fr5080.Boot.Loader
import Fr5080.Flash.Pages

/-!
# Fr5080.Boot.Response

The response law of `app_boot_process_cmd` of `fr5080_basic_xip`: one response to
each request, with the code behind that of the request.

`rsp_header` gets its value in the arms of the `switch`; there is none for the
opcodes without a `case`, and `default` goes on to the call of the callback that
all arms share.  So an unknown opcode is answered with seven bytes from wherever
`rsp_header` happens to point.
-/

namespace Fr5080

open Embedded

variable {φ : Type} (dev : FlashDev φ) (uninit : Nat) (s : Boot φ)

/-- The request in `boot_recv_buffer`. -/
def Boot.request (buffers : BootBuffers) (s : Boot φ) : UpdateParamHeader :=
  UpdateParamHeader.read s.mem buffers.recv

/-- `app_boot_process_cmd` of `fr5080_basic_xip`, as `app_boot_host_comm_loop` calls it. -/
def bootProcessXip : Boot φ :=
  (appBootProcessCmd .xip dev (appBootGetBuffer .xip) BootBuffers.xip.recv uninit s).2

/-- An opcode with a `case` gets one response, from the response buffer and with the next
code, which repeats address and length where the arm says so; any other opcode gets none. -/
def ResponseLaw : Prop :=
  let req := s.request .xip
  let s' := bootProcessXip dev uninit s
  if Handled req.code then
    ∃ rsp, s'.rsps = s.rsps ++ [rsp] ∧ rsp.buffer = BootBuffers.xip.send ∧
      rsp.bytes.head? = some (req.code + 1) ∧
      (Echoes req.code → rsp.bytes.take updateParamHeaderSize =
        { req with code := req.code + 1 : UpdateParamHeader }.bytes)
  else s'.rsps = s.rsps

/-- For requests of any opcode with at most 505 bytes, the response law holds exactly for the
opcodes that have a `case`. -/
theorem response_law_iff (dev : FlashDev φ) (uninit : Nat) (s : Boot φ)
    (hlen : (s.request .xip).length.toNat ≤ 505) :
    ResponseLaw dev uninit s ↔ Handled (s.request .xip).code := by
  have hkept : bootMem .xip dev .xip (s.request .xip) s BootBuffers.xip.recv =
      (s.request .xip).code := by
    refine bootMem_recv rfl fun _ _ => ?_
    show _ + 7 ≤ 0x200
    omega
  have hrsps : (bootProcessXip dev uninit s).rsps =
      s.rsps ++ [bootRsp .xip dev .xip uninit (s.request .xip) s] :=
    rsps_appBootProcessCmd rfl hkept
  generalize hreq : s.request .xip = req at *
  simp only [ResponseLaw, hreq]
  split
  · next h =>
      refine iff_of_true ⟨_, hrsps, if_pos h, head_bootRsp h fun _ => hlen, fun hecho => ?_⟩ h
      have hfields : bootFields req =
          { req with code := req.code + 1 : UpdateParamHeader }.bytes := by
        rw [bootFields, if_neg hecho.ne.1, if_pos hecho]
      have hle : (bootFields req).length ≤ (bootRspLength req).toUInt16.toNat := by
        rw [toNat_bootRspLength hlen]
        exact Nat.le_trans length_bootFields_le (Nat.le_add_right _ _)
      obtain ⟨rest, hbytes⟩ := @bytes_bootRsp φ .xip dev .xip uninit req s h hle
      rw [hbytes, hfields]
      exact List.take_left' (UpdateParamHeader.length_bytes _)
  · next h =>
      refine iff_of_false (fun heq => ?_) h
      rw [hrsps] at heq
      simp at heq

/-- A request of the host in the receive buffer, and nothing else in memory. -/
def requested (req : UpdateParamHeader) : Boot Flash :=
  ⟨store (fun _ => 0) BootBuffers.xip.recv req.bytes, erasedFlash, [], [], []⟩

/-- A read of four bytes. -/
theorem response_law_iff_read : ResponseLaw flashChip1M.dev 0 (requested ⟨8, 0x1000, 4⟩) :=
  (response_law_iff flashChip1M.dev 0 (requested ⟨8, 0x1000, 4⟩) (by decide)).mpr (by decide)

/-- `UP_OPCODE_READ_RAM` is answered from an uninitialised pointer. -/
theorem response_to_unknown : ¬ ResponseLaw flashChip1M.dev 0 (requested ⟨0xA, 0, 0⟩) := by
  have hcode : ((requested ⟨0xA, 0, 0⟩).request .xip).code = 0xA := by decide
  have hhandled : ¬ Handled 0xA := by decide
  have hrsps : (bootProcessXip flashChip1M.dev 0 (requested ⟨0xA, 0, 0⟩)).rsps.length = 1 := by
    decide +kernel
  intro h
  simp only [ResponseLaw, hcode, hhandled, if_false] at h
  rw [h] at hrsps
  cases hrsps

end Fr5080
