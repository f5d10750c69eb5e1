import Fr5080.Ota.Erase

/-!
# Fr5080.Flash.Nested

`qspi_flash_erase` and `qspi_flash_write` in task context, with OTA requests
served by the IPC interrupt in between.

Both lift the block protection at their entry and put it back at their exit,
also when they run inside each other: an OTA request inside a flash operation
leaves the chip protected.  `FlashWindow` are the points of the code where
this does harm, between the moment the status register may be written and the
last page; everywhere else the code lifts the protection after it or has done
its work.  `WellFormed` is the order of the statements, which makes an outline
of the code (`Ready`) possible.
-/

namespace Fr5080

open Embedded

/-! ## the task and the interrupt -/

/-- The calls of the task. -/
inductive FlashCall
  | erase (offset size : UInt32)
  | write (offset : UInt32) (buffer : List UInt8)

/-- The code of a call. -/
def FlashCall.code : FlashCall → List FlashStmt
  | .erase offset size => qspiFlashEraseCode offset size
  | .write offset buffer => qspiFlashWriteCode offset buffer

/-- The requests of the MCU that change the flash and return; `regs` are the size arguments
that `ota.c` does not pass. -/
inductive OtaFlashRequest
  | erase (offset length : UInt32) (regs : Nat → UInt32)
  | write (offset : UInt32) (buffer : List UInt8)

/-- What `ota_recv_ipc_msg` does with a request (`flash_otaRecvIpcMsg_serve`). -/
def OtaFlashRequest.serve (chip : FlashChip) : OtaFlashRequest → Flash → Flash
  | .erase offset length regs, f => otaEraseLoop chip regs 0 (offset &&& 0xFFFFF000) length f
  | .write offset buffer, f => qspiFlashWrite chip offset buffer f

/-- One step: a call, a statement, or a request in the interrupt. -/
def nestedStep (chip : FlashChip) :
    TaskState FlashStmt FlashCtx → TaskEvent FlashCall OtaFlashRequest →
      Option (TaskState FlashStmt FlashCtx) :=
  taskStep (FlashStmt.exec chip) (fun r c => { c with flash := r.serve chip c.flash })
    FlashCall.code

/-- All blocks are protected. -/
abbrev Protected (status : BitVec 8) : Prop := status &&& flashBlockProtect = flashBlockProtect

/-- The status register at an operation. -/
def FlashOp.status : FlashOp → BitVec 8
  | .erase _ status => status
  | .program _ _ status => status

/-- A request that does something. -/
def OtaFlashRequest.Effective : OtaFlashRequest → Prop
  | .erase _ length _ => length ≠ 0
  | .write _ _ => True

/-- The code is about to write the lifted protection, or to erase or program. -/
def FlashWindow : List FlashStmt → Prop
  | .writeStatus protect :: _ => protect = 0
  | .erase _ _ :: _ => True
  | .page _ _ :: _ => True
  | _ => False

/-- The request comes while the code counts on the lifted protection. -/
def Defeats (t : TaskState FlashStmt FlashCtx) : TaskEvent FlashCall OtaFlashRequest → Prop
  | .interrupt r => r.Effective ∧ FlashWindow t.code
  | _ => False

variable {chip : FlashChip}

theorem not_protected_of_unprotected {status : BitVec 8} (h : Unprotected status) :
    ¬ Protected status := by
  intro hprotected
  rw [Protected, h] at hprotected
  exact absurd hprotected (by decide)

theorem protected_protect (f : Flash) : Protected f.protect.status := by
  have hbits : ∀ status : BitVec 8, Protected (unprotectedStatus status ||| flashBlockProtect) := by
    decide
  exact hbits f.status

/-! ## what a request does -/

/-- What a flash operation that nothing interrupts does to the protection. -/
structure FlashServed (f f' : Flash) : Prop where
  isProtected : Protected f'.status
  latch : f'.volatileEnabled = false
  log : ∃ ops, f'.log = f.log ++ ops ∧ ∀ op ∈ ops, Unprotected op.status

theorem FlashServed.trans {f f' f'' : Flash} (h : FlashServed f f') (h' : FlashServed f' f'') :
    FlashServed f f'' := by
  obtain ⟨ops, hlog, hops⟩ := h.log
  obtain ⟨ops', hlog', hops'⟩ := h'.log
  refine ⟨h'.isProtected, h'.latch, ops ++ ops', by rw [hlog', hlog, List.append_assoc], ?_⟩
  simp only [List.mem_append]
  grind

theorem qspiFlashErase_served (offset size : UInt32) (f : Flash) :
    FlashServed f (qspiFlashErase chip offset size f) := by
  refine ⟨?_, ?_, _, log_qspiFlashErase offset size f, ?_⟩
  · rw [qspiFlashErase_eq]
    exact protected_protect _
  · rw [qspiFlashErase_eq]
    rfl
  · intro op hop
    obtain ⟨j, -, rfl⟩ := List.mem_map.mp hop
    exact unprotected_unprotectedStatus f.status

theorem qspiFlashWrite_served (offset : UInt32) (buffer : List UInt8) (f : Flash) :
    FlashServed f (qspiFlashWrite chip offset buffer f) := by
  obtain ⟨ops, hlog, hops, -⟩ := @log_qspiFlashWrite chip offset buffer f
  refine ⟨?_, ?_, ops, hlog, fun op hop => ?_⟩
  · rw [qspiFlashWrite, qspiFlashWriteCode, runFlashCode_protected]
    exact protected_protect _
  · rw [qspiFlashWrite, qspiFlashWriteCode, runFlashCode_protected]
    rfl
  · obtain ⟨_, _, rfl⟩ := hops op hop
    exact unprotected_unprotectedStatus f.status

theorem otaEraseLoop_served (regs : Nat → UInt32) (calls : Nat) (offset length : UInt32)
    (f : Flash) (h : length ≠ 0) :
    FlashServed f (otaEraseLoop chip regs calls offset length f) := by
  fun_induction otaEraseLoop chip regs calls offset length f with
  | case1 => exact absurd rfl h
  | case2 calls offset length f hne hgt ih =>
      have hleft : length - 0x1000 ≠ 0 := by
        have hlt : 0x1000 < length.toNat := UInt32.lt_iff_toNat_lt.mp hgt
        have hsub := UInt32.toNat_sub_of_le _ _ (UInt32.le_of_lt hgt)
        rw [← UInt32.toNat_inj.ne, hsub]
        exact Nat.sub_ne_zero_of_lt hlt
      exact (qspiFlashErase_served offset (regs calls) f).trans (ih hleft)
  | case3 calls offset length f hne hle => exact qspiFlashErase_served offset (regs calls) f

/-- An effective request works on a chip without protection and leaves it protected. -/
theorem OtaFlashRequest.serve_served {r : OtaFlashRequest} (h : r.Effective) (f : Flash) :
    FlashServed f (r.serve chip f) := by
  cases r with
  | erase offset length regs => exact otaEraseLoop_served regs 0 _ length f h
  | write offset buffer => exact qspiFlashWrite_served offset buffer f

/-- Any other request does nothing. -/
theorem OtaFlashRequest.serve_of_not_effective {r : OtaFlashRequest} (h : ¬ r.Effective)
    (f : Flash) : r.serve chip f = f := by
  cases r with
  | erase offset length regs =>
      have hzero : length = 0 := not_not.mp h
      rw [serve, hzero, otaEraseLoop, if_pos rfl]
  | write offset buffer => exact absurd trivial h

/-- The service of erase and write requests. -/
theorem flash_otaRecvIpcMsg_serve (regs : Nat → UInt32) (crc32 : UInt32 → List UInt8 → UInt32)
    (localFlashOp chn : Nat) (s : OtaSys) :
    let buffer := ipcGetBufferOffset .mcu2dsp chn
    let length := word32 s.ipc.shm (buffer + 4)
    let offset := word32 s.ipc.shm (buffer + 8)
    let flash := (otaRecvIpcMsg chip regs crc32 localFlashOp chn s).flash
    (s.ipc.shm buffer = IpcMsgFlashOpcode.erase.code →
      flash = (OtaFlashRequest.erase offset length regs).serve chip s.flash) ∧
    (s.ipc.shm buffer = IpcMsgFlashOpcode.write.code →
      flash = (OtaFlashRequest.write offset (slice s.ipc.shm
        (buffer + ipcMsgFlashOpSize.toNat) length.toNat)).serve chip s.flash) := by
  have hne : IpcMsgFlashOpcode.write.code ≠ IpcMsgFlashOpcode.erase.code ∧
      IpcMsgFlashOpcode.write.code ≠ IpcMsgFlashOpcode.read.code := by decide
  refine ⟨fun hopcode => flash_otaRecvIpcMsg_erase hopcode, fun hopcode => ?_⟩
  simp only [otaRecvIpcMsg, hopcode, hne, if_true, if_false, OtaFlashRequest.serve]

/-! ## the order of the statements -/

/-- A statement that erases or programs. -/
def FlashStmt.OnArray : FlashStmt → Prop
  | .erase _ _ => True
  | .page _ _ => True
  | _ => False

/-- What comes behind a statement. -/
def FlashStmt.Follows : FlashStmt → List FlashStmt → Prop
  | .readStatus, cs => ∃ rest, cs = .volatileEnable :: rest
  | .volatileEnable, cs => ∃ protect rest, cs = .writeStatus protect :: rest
  | .writeStatus protect, cs =>
      (protect = 0 ∧ ∃ c rest, cs = c :: rest ∧ c.OnArray) ∨
        (protect = flashBlockProtect ∧ cs = [])
  | .erase _ _, cs => ∃ c rest, cs = c :: rest ∧ (c.OnArray ∨ c = .readStatus)
  | .page _ _, cs => ∃ c rest, cs = c :: rest ∧ (c.OnArray ∨ c = .readStatus)

/-- Each statement is followed by what may follow it. -/
def WellFormed : List FlashStmt → Prop
  | [] => True
  | c :: cs => c.Follows cs ∧ WellFormed cs

/-- Operations on the array between the protection functions. -/
theorem wellFormed_protected {ops : List FlashStmt} (hne : ops ≠ []) (hops : ∀ c ∈ ops, c.OnArray) :
    WellFormed (flashProtectDisable ++ ops ++ flashProtectEnable) := by
  have henable : WellFormed flashProtectEnable :=
    ⟨⟨_, rfl⟩, ⟨_, _, rfl⟩, Or.inr ⟨rfl, rfl⟩, trivial⟩
  have htail : ∀ ops : List FlashStmt, (∀ c ∈ ops, c.OnArray) →
      WellFormed (ops ++ flashProtectEnable) := by
    intro ops hops
    induction ops with
    | nil => exact henable
    | cons c cs ih =>
        have hnext : ∃ c' rest, cs ++ flashProtectEnable = c' :: rest ∧
            (c'.OnArray ∨ c' = .readStatus) := by
          cases cs with
          | nil => exact ⟨_, _, rfl, Or.inr rfl⟩
          | cons c' cs => exact ⟨c', _, rfl, Or.inl (hops c' (by simp))⟩
        refine ⟨?_, ih fun c' hc' => hops c' (List.mem_cons_of_mem _ hc')⟩
        cases c with
        | erase offset size => exact hnext
        | page offset bytes => exact hnext
        | readStatus => exact absurd (hops _ List.mem_cons_self) id
        | volatileEnable => exact absurd (hops _ List.mem_cons_self) id
        | writeStatus protect => exact absurd (hops _ List.mem_cons_self) id
  obtain ⟨c, cs, rfl⟩ := List.exists_cons_of_ne_nil hne
  exact ⟨⟨_, rfl⟩, ⟨_, _, rfl⟩, Or.inl ⟨rfl, c, _, rfl, hops c List.mem_cons_self⟩, htail _ hops⟩

theorem wellFormed_code (p : FlashCall) : WellFormed p.code := by
  cases p with
  | erase offset size =>
      refine wellFormed_protected (List.cons_ne_nil _ []) fun c hc => ?_
      rw [List.mem_singleton.mp hc]
      trivial
  | write offset buffer =>
      refine wellFormed_protected (List.cons_ne_nil _ _) fun c hc => ?_
      obtain ⟨_, _, rfl⟩ := mem_qspiFlashWritePages hc
      trivial

/-! ## the outline -/

/-- What the code at a point counts on. -/
def Ready : List FlashStmt → Flash → Prop
  | [], f => Protected f.status
  | .writeStatus protect :: _, f =>
      f.volatileEnabled = true ∨ f.status &&& flashBlockProtect = protect
  | .erase _ _ :: _, f => Unprotected f.status
  | .page _ _ :: _, f => Unprotected f.status
  | _, _ => True

/-- Nothing has met the protection so far, and nothing will in the code that remains. -/
structure NestedInv (cs : List FlashStmt) (f : Flash) : Prop where
  order : WellFormed cs
  log : ∀ op ∈ f.log, Unprotected op.status
  ready : Ready cs f

/-- Something has met the protection, or will in the code that remains. -/
def NestedDamage (cs : List FlashStmt) (f : Flash) : Prop :=
  (∃ op ∈ f.log, ¬ Unprotected op.status) ∨
    WellFormed cs ∧ FlashWindow cs ∧ Protected f.status ∧ f.volatileEnabled = false

theorem ready_of_onArray {c : FlashStmt} (h : c.OnArray) (cs : List FlashStmt) (f : Flash) :
    Ready (c :: cs) f ↔ Unprotected f.status := by
  cases c <;> first | exact Iff.rfl | exact absurd h id

theorem window_of_onArray {c : FlashStmt} (h : c.OnArray) (cs : List FlashStmt) :
    FlashWindow (c :: cs) := by
  cases c <;> trivial

/-- An operation on the array is logged with the status register, which stays. -/
theorem exec_onArray {c : FlashStmt} (h : c.OnArray) (s : FlashCtx) :
    (c.exec chip s).1.flash.status = s.flash.status ∧
      ∃ op ops, (c.exec chip s).1.flash.log = s.flash.log ++ (op :: ops) ∧
        ∀ op' ∈ op :: ops, op'.status = s.flash.status := by
  cases c with
  | erase offset size =>
      have hpos : ∃ n, flashEraseCount size = n + 1 := by
        by_cases hzero : size = 0
        · exact ⟨0, by simp [flashEraseCount, hzero]⟩
        · have hne : size.toNat ≠ 0 := fun h => hzero (UInt32.toNat_inj.mp h)
          exact Nat.exists_eq_succ_of_ne_zero (by
            simp only [flashEraseCount, hzero, if_false, flashSectorSize]
            omega)
      obtain ⟨n, hn⟩ := hpos
      simp only [FlashStmt.exec, flashErase_eq, Flash.status_eraseSectors, Flash.log_eraseSectors,
        hn, List.range_succ_eq_map, List.map_cons]
      refine ⟨trivial, _, _, rfl, ?_⟩
      simp [FlashOp.status]
  | page offset bytes =>
      refine ⟨rfl, .program offset bytes s.flash.status, [], rfl, ?_⟩
      simp [FlashOp.status]
  | readStatus => exact absurd h id
  | volatileEnable => exact absurd h id
  | writeStatus protect => exact absurd h id

/-- The other statements do nothing to the array. -/
theorem log_exec {c : FlashStmt} (h : ¬ c.OnArray) (s : FlashCtx) :
    (c.exec chip s).1.flash.log = s.flash.log := by
  cases c <;> first | rfl | exact absurd trivial h

/-- The protection after the status register has been written. -/
theorem status_writeStatus {f : Flash} {protect : BitVec 8} (status : BitVec 8)
    (hprotect : protect = 0 ∨ protect = flashBlockProtect)
    (h : f.volatileEnabled = true ∨ f.status &&& flashBlockProtect = protect) :
    (f.writeStatus (status &&& 0x83 ||| protect)).status &&& flashBlockProtect = protect := by
  have hbits : ∀ status : BitVec 8,
      (status &&& 0x83 ||| 0) &&& 0xFC &&& flashBlockProtect = 0 ∧
        (status &&& 0x83 ||| flashBlockProtect) &&& 0xFC &&& flashBlockProtect =
          flashBlockProtect := by decide
  cases hlatch : f.volatileEnabled with
  | true =>
      simp only [Flash.writeStatus, hlatch, if_true]
      cases hprotect with
      | inl hzero => rw [hzero]; exact (hbits status).1
      | inr hblock => rw [hblock]; exact (hbits status).2
  | false =>
      have hsame := h.resolve_left (by simp [hlatch])
      simpa [Flash.writeStatus, hlatch] using hsame

/-- A write of the status register that is not enabled does nothing. -/
theorem Flash.writeStatus_of_not_enabled {f : Flash} (h : f.volatileEnabled = false)
    (status : BitVec 8) : f.writeStatus status = f := by
  obtain ⟨cells, status', enabled, log⟩ := f
  cases h
  rfl

/-! ## the steps -/

/-- A statement that finds what it counts on leaves what the next one counts on. -/
theorem NestedInv.stmt {c : FlashStmt} {cs : List FlashStmt} {s : FlashCtx}
    (h : NestedInv (c :: cs) s.flash) : NestedInv cs (c.exec chip s).1.flash := by
  obtain ⟨⟨hfollows, horder⟩, hlog, hready⟩ := h
  by_cases harray : c.OnArray
  · obtain ⟨hstatus, op, ops, hlog', hops⟩ := @exec_onArray chip c harray s
    have hunprotected := (ready_of_onArray harray cs s.flash).mp hready
    refine ⟨horder, ?_, ?_⟩
    · rw [hlog']
      intro op' hop'
      cases List.mem_append.mp hop' with
      | inl hold => exact hlog op' hold
      | inr hnew => rw [hops op' hnew]; exact hunprotected
    · have hnext : ∃ c' rest, cs = c' :: rest ∧ (c'.OnArray ∨ c' = .readStatus) := by
        cases c <;> first | exact hfollows | exact absurd harray id
      obtain ⟨c', rest, rfl, harray' | rfl⟩ := hnext
      · rw [ready_of_onArray harray', hstatus]
        exact hunprotected
      · trivial
  · refine ⟨horder, by rw [log_exec harray]; exact hlog, ?_⟩
    cases c with
    | readStatus =>
        obtain ⟨rest, rfl⟩ := hfollows
        trivial
    | volatileEnable =>
        obtain ⟨protect, rest, rfl⟩ := hfollows
        exact Or.inl rfl
    | writeStatus protect =>
        rcases hfollows with ⟨rfl, c', rest, rfl, harray'⟩ | ⟨rfl, rfl⟩
        · rw [ready_of_onArray harray']
          exact status_writeStatus s.status (Or.inl rfl) hready
        · exact status_writeStatus s.status (Or.inr rfl) hready
    | erase offset size => exact absurd trivial harray
    | page offset bytes => exact absurd trivial harray

/-- A request outside of the window does not matter to the code that remains. -/
theorem NestedInv.served {cs : List FlashStmt} {f f' : Flash} (h : NestedInv cs f)
    (hserved : FlashServed f f') (hwindow : ¬ FlashWindow cs) : NestedInv cs f' := by
  obtain ⟨ops, hlog, hops⟩ := hserved.log
  refine ⟨h.order, ?_, ?_⟩
  · rw [hlog]
    intro op hop
    cases List.mem_append.mp hop with
    | inl hold => exact h.log op hold
    | inr hnew => exact hops op hnew
  · cases cs with
    | nil => exact hserved.isProtected
    | cons c cs =>
        cases c with
        | writeStatus protect =>
            rcases h.order.1 with ⟨hzero, -⟩ | ⟨rfl, -⟩
            · exact absurd hzero hwindow
            · exact Or.inr hserved.isProtected
        | erase offset size => exact absurd trivial hwindow
        | page offset bytes => exact absurd trivial hwindow
        | readStatus => trivial
        | volatileEnable => trivial

/-- A request inside of the window leaves damage. -/
theorem NestedInv.defeated {cs : List FlashStmt} {f f' : Flash} (h : NestedInv cs f)
    (hserved : FlashServed f f') (hwindow : FlashWindow cs) : NestedDamage cs f' :=
  Or.inr ⟨h.order, hwindow, hserved.isProtected, hserved.latch⟩

/-- No statement undoes the damage. -/
theorem NestedDamage.stmt {c : FlashStmt} {cs : List FlashStmt} {s : FlashCtx}
    (h : NestedDamage (c :: cs) s.flash) : NestedDamage cs (c.exec chip s).1.flash := by
  by_cases harray : c.OnArray
  · obtain ⟨-, op, ops, hlog, hops⟩ := @exec_onArray chip c harray s
    left
    rw [hlog]
    rcases h with ⟨op', hop', hbad⟩ | ⟨-, -, hprotected, -⟩
    · exact ⟨op', List.mem_append_left _ hop', hbad⟩
    · refine ⟨op, by simp, fun hop => ?_⟩
      rw [hops op List.mem_cons_self] at hop
      exact not_protected_of_unprotected hop hprotected
  · rcases h with hbad | ⟨⟨hfollows, horder⟩, hwindow, hprotected, hlatch⟩
    · left
      rw [log_exec harray]
      exact hbad
    · -- the write that was to lift the protection is lost
      right
      cases c with
      | writeStatus protect =>
          cases hwindow
          obtain ⟨-, c', rest, rfl, harray'⟩ := hfollows.resolve_right fun h =>
            absurd h.1 (by decide)
          have hsame : ((FlashStmt.writeStatus 0).exec chip s).1.flash = s.flash :=
            Flash.writeStatus_of_not_enabled hlatch _
          rw [hsame]
          exact ⟨horder, window_of_onArray harray' rest, hprotected, hlatch⟩
      | readStatus => exact absurd hwindow id
      | volatileEnable => exact absurd hwindow id
      | erase offset size => exact absurd trivial harray
      | page offset bytes => exact absurd trivial harray

/-- No request does. -/
theorem NestedDamage.served {cs : List FlashStmt} {f f' : Flash} (h : NestedDamage cs f)
    (hserved : FlashServed f f') : NestedDamage cs f' := by
  obtain ⟨ops, hlog, -⟩ := hserved.log
  rcases h with ⟨op, hop, hbad⟩ | ⟨horder, hwindow, -, -⟩
  · left
    rw [hlog]
    exact ⟨op, List.mem_append_left _ hop, hbad⟩
  · exact Or.inr ⟨horder, hwindow, hserved.isProtected, hserved.latch⟩

theorem not_nestedDamage {cs : List FlashStmt} {f : Flash} (h : NestedInv cs f) :
    ¬ NestedDamage cs f := by
  rintro (⟨op, hop, hbad⟩ | ⟨-, hwindow, hprotected, hlatch⟩)
  · exact hbad (h.log op hop)
  · have hready := h.ready
    cases cs with
    | nil => exact hwindow
    | cons c cs =>
        by_cases harray : c.OnArray
        · exact not_protected_of_unprotected ((ready_of_onArray harray cs f).mp hready) hprotected
        · cases c with
          | writeStatus protect =>
              cases hwindow
              refine not_protected_of_unprotected (hready.resolve_left ?_) hprotected
              simp [hlatch]
          | readStatus => exact hwindow
          | volatileEnable => exact hwindow
          | erase offset size => exact absurd trivial harray
          | page offset bytes => exact absurd trivial harray

/-! ## runs -/

/-- A step that brings no request into the window. -/
theorem NestedInv.step {t t' : TaskState FlashStmt FlashCtx}
    {e : TaskEvent FlashCall OtaFlashRequest} (h : NestedInv t.code t.state.flash)
    (hC : ¬ Defeats t e) (hstep : nestedStep chip t e = some t') :
    NestedInv t'.code t'.state.flash := by
  obtain ⟨p, rfl, hcode, rfl⟩ | ⟨c, cs, rfl, hcode, rfl⟩ | ⟨r, rfl, rfl⟩ := taskStep_cases hstep
  · exact ⟨wellFormed_code p, h.log, by cases p <;> trivial⟩
  · rw [hcode] at h
    rw [if_pos (FlashStmt.exec_goes_on c t.state)]
    exact h.stmt
  · by_cases heffective : r.Effective
    · exact h.served (OtaFlashRequest.serve_served heffective _) fun hwindow =>
        hC ⟨heffective, hwindow⟩
    · rw [OtaFlashRequest.serve_of_not_effective heffective]
      exact h

/-- A step that does. -/
theorem NestedInv.step_defeated {t t' : TaskState FlashStmt FlashCtx}
    {e : TaskEvent FlashCall OtaFlashRequest} (h : NestedInv t.code t.state.flash)
    (hC : Defeats t e) (hstep : nestedStep chip t e = some t') :
    NestedDamage t'.code t'.state.flash := by
  obtain ⟨p, rfl, hcode, rfl⟩ | ⟨c, cs, rfl, hcode, rfl⟩ | ⟨r, rfl, rfl⟩ := taskStep_cases hstep
  · exact absurd hC id
  · exact absurd hC id
  · exact h.defeated (OtaFlashRequest.serve_served hC.1 _) hC.2

/-- Damage stays. -/
theorem NestedDamage.step {t t' : TaskState FlashStmt FlashCtx}
    {e : TaskEvent FlashCall OtaFlashRequest} (h : NestedDamage t.code t.state.flash)
    (hstep : nestedStep chip t e = some t') : NestedDamage t'.code t'.state.flash := by
  obtain ⟨p, rfl, hcode, rfl⟩ | ⟨c, cs, rfl, hcode, rfl⟩ | ⟨r, rfl, rfl⟩ := taskStep_cases hstep
  · rw [hcode] at h
    exact Or.inl (h.resolve_right fun h => h.2.1)
  · rw [hcode] at h
    rw [if_pos (FlashStmt.exec_goes_on c t.state)]
    exact h.stmt
  · by_cases heffective : r.Effective
    · exact h.served (OtaFlashRequest.serve_served heffective _)
    · rw [OtaFlashRequest.serve_of_not_effective heffective]
      exact h

/-- A run has done no damage if and only if no request came in the window. -/
theorem nested_undamaged_iff {s t : TaskState FlashStmt FlashCtx}
    {es : List (TaskEvent FlashCall OtaFlashRequest)} (h : NestedInv s.code s.state.flash)
    (hrun : run (nestedStep chip) s es = some t) :
    ¬ NestedDamage t.code t.state.flash ↔
      Along (nestedStep chip) (fun t e => ¬ Defeats t e) s es :=
  run_undamaged_iff_along (I := fun t => NestedInv t.code t.state.flash)
    (fun _ _ _ hinv hC hstep => hinv.step hC hstep)
    (fun _ _ _ hinv hC hstep => hinv.step_defeated (not_not.mp hC) hstep)
    (fun _ _ _ hdamage hstep => hdamage.step hstep) (fun _ => not_nestedDamage) h hrun

/-- A call, or a request that does something. -/
def FlashWork : TaskEvent FlashCall OtaFlashRequest → Prop
  | .call _ => True
  | .stmt => False
  | .interrupt r => r.Effective

/-- An idle task, with whatever protection: from the first work on the code is well outlined, and
nothing has met the protection by then. -/
theorem nested_first_work {s : FlashCtx} {t : TaskState FlashStmt FlashCtx}
    {es : List (TaskEvent FlashCall OtaFlashRequest)} (hlog : s.flash.log = [])
    (hrun : run (nestedStep chip) ⟨[], s⟩ es = some t) :
    ((∀ e ∈ es, ¬ FlashWork e) ∧ t = ⟨[], s⟩) ∨
      ∃ t1 es1, NestedInv t1.code t1.state.flash ∧ run (nestedStep chip) t1 es1 = some t ∧
        (Along (nestedStep chip) (fun t e => ¬ Defeats t e) ⟨[], s⟩ es ↔
          Along (nestedStep chip) (fun t e => ¬ Defeats t e) t1 es1) := by
  induction es with
  | nil => exact Or.inl ⟨fun e he => absurd he List.not_mem_nil, (Option.some.inj hrun).symm⟩
  | cons e es ih =>
      obtain ⟨t1, hstep, hrun1⟩ := run_cons_eq_some.mp hrun
      -- the code of an idle task has no window
      have hidle : ¬ Defeats ⟨[], s⟩ e := by
        intro h
        cases e with
        | call p => exact h
        | stmt => exact h
        | interrupt r => exact h.2
      have halong : Along (nestedStep chip) (fun t e => ¬ Defeats t e) ⟨[], s⟩ (e :: es) ↔
          Along (nestedStep chip) (fun t e => ¬ Defeats t e) t1 es := by
        rw [Along, hstep]
        exact ⟨fun h => h.2 t1 rfl, fun h => ⟨hidle, fun t2 h2 => Option.some.inj h2 ▸ h⟩⟩
      have hnone : ∀ op ∈ s.flash.log, Unprotected op.status := by simp [hlog]
      obtain ⟨p, rfl, -, rfl⟩ | ⟨c, cs, rfl, hcode, -⟩ | ⟨r, rfl, rfl⟩ := taskStep_cases hstep
      · exact Or.inr ⟨_, es, ⟨wellFormed_code p, hnone, by cases p <;> trivial⟩, hrun1, halong⟩
      · cases hcode
      · by_cases heffective : r.Effective
        · have hserved := @OtaFlashRequest.serve_served chip r heffective s.flash
          obtain ⟨ops, hops, hunprotected⟩ := hserved.log
          refine Or.inr ⟨⟨[], { s with flash := r.serve chip s.flash }⟩, es,
            ⟨trivial, ?_, hserved.isProtected⟩, hrun1, halong⟩
          rw [hops, hlog]
          exact hunprotected
        · rw [OtaFlashRequest.serve_of_not_effective heffective] at hrun1 halong
          obtain ⟨hquiet, hsame⟩ | ⟨t2, es2, hinv, hrun2, halong2⟩ := ih hrun1
          · refine Or.inl ⟨fun e he => ?_, hsame⟩
            cases he with
            | head => exact heffective
            | tail _ he => exact hquiet e he
          · exact Or.inr ⟨t2, es2, hinv, hrun2, halong.trans halong2⟩

/-- **Nested operations**: all operations on the array, of the task and of the requests, meet an
unprotected chip if no request comes in the window; and once the task is done, and there was a
call or a request that does something, they have, and the chip is protected, if and only if none
came. -/
theorem nested_flash_iff {f : Flash} {status : BitVec 8} {t : TaskState FlashStmt FlashCtx}
    {es : List (TaskEvent FlashCall OtaFlashRequest)} (hlog : f.log = [])
    (hrun : run (nestedStep chip) ⟨[], ⟨f, status⟩⟩ es = some t) :
    (Along (nestedStep chip) (fun t e => ¬ Defeats t e) ⟨[], ⟨f, status⟩⟩ es →
        ∀ op ∈ t.state.flash.log, Unprotected op.status) ∧
      (t.code = [] → (∃ e ∈ es, FlashWork e) →
        ((∀ op ∈ t.state.flash.log, Unprotected op.status) ∧ Protected t.state.flash.status ↔
          Along (nestedStep chip) (fun t e => ¬ Defeats t e) ⟨[], ⟨f, status⟩⟩ es)) := by
  obtain ⟨hquiet, rfl⟩ | ⟨t1, es1, hstart, hrun1, halong⟩ := nested_first_work hlog hrun
  · refine ⟨fun _ => by simp [hlog], fun _ ⟨e, he, hwork⟩ => absurd hwork (hquiet e he)⟩
  · rw [halong]
    have hinv : Along (nestedStep chip) (fun t e => ¬ Defeats t e) t1 es1 →
        NestedInv t.code t.state.flash := fun hC =>
      run_inv_of_along (I := fun t => NestedInv t.code t.state.flash)
        (fun _ _ _ h hC hstep => h.step hC hstep) hstart hC hrun1
    refine ⟨fun hC => (hinv hC).log, fun hdone _ => ⟨fun h => ?_, fun hC => ?_⟩⟩
    · refine (nested_undamaged_iff hstart hrun1).mp ?_
      rintro (⟨op, hop, hbad⟩ | ⟨-, hwindow, -⟩)
      · exact hbad (h.1 op hop)
      · rw [hdone] at hwindow
        exact hwindow
    · have hready := (hinv hC).ready
      rw [hdone] at hready
      exact ⟨(hinv hC).log, hready⟩

/-- A chip without protection, and a request before the task has read the status register. -/
theorem nested_flash_iff_before :
    ∃ t, run (nestedStep flashChip1M) ⟨[], ⟨{ Flash.blank with status := 0 }, 0⟩⟩
        [.call (.erase 0 0x1000), .interrupt (.write 0x1000 [3]), .stmt, .stmt, .stmt, .stmt,
          .stmt, .stmt, .stmt] = some t ∧
      (∀ op ∈ t.state.flash.log, Unprotected op.status) ∧ Protected t.state.flash.status := by
  have hC : Along (nestedStep flashChip1M) (fun t e => ¬ Defeats t e)
      ⟨[], ⟨{ Flash.blank with status := 0 }, 0⟩⟩
      [.call (.erase 0 0x1000), .interrupt (.write 0x1000 [3]), .stmt, .stmt, .stmt, .stmt,
          .stmt, .stmt, .stmt] := by
    simp [Along, nestedStep, taskStep, Defeats, FlashCall.code, qspiFlashEraseCode,
      flashProtectDisable, flashProtectEnable, FlashWindow, FlashStmt.exec]
  have hwork : ∃ e ∈ ([.call (.erase 0 0x1000), .interrupt (.write 0x1000 [3]), .stmt, .stmt, .stmt,
      .stmt, .stmt, .stmt, .stmt] : List (TaskEvent FlashCall OtaFlashRequest)), FlashWork e :=
    ⟨.call (.erase 0 0x1000), List.mem_cons_self, trivial⟩
  exact ⟨_, rfl, ((nested_flash_iff rfl rfl).2 rfl hwork).mpr hC⟩

/-- A request between two pages of a write: the second page meets the protection. -/
theorem nested_write_defeated :
    ∃ t, run (nestedStep flashChip1M) ⟨[], ⟨.blank, 0⟩⟩
        [.call (.write 0xFF [1, 2]), .stmt, .stmt, .stmt, .stmt, .interrupt (.write 0x1000 [3]),
          .stmt, .stmt, .stmt, .stmt] = some t ∧ t.code = [] ∧
      ¬ ((∀ op ∈ t.state.flash.log, Unprotected op.status) ∧
        Protected t.state.flash.status) := by
  have hcode : FlashCall.code (.write 0xFF [1, 2]) =
      [.readStatus, .volatileEnable, .writeStatus 0, .page 0xFF [1], .page 0x100 [2], .readStatus,
        .volatileEnable, .writeStatus flashBlockProtect] := by
    simp [FlashCall.code, qspiFlashWriteCode, qspiFlashWritePages, qspiFlashWriteLoop,
      flashProtectDisable, flashProtectEnable]
  have hrun : ∃ s, run (nestedStep flashChip1M) ⟨FlashCall.code (.write 0xFF [1, 2]), ⟨.blank, 0⟩⟩
      [.stmt, .stmt, .stmt, .stmt, .interrupt (.write 0x1000 [3]), .stmt, .stmt, .stmt, .stmt] =
        some ⟨[], s⟩ := by
    rw [hcode]
    exact ⟨_, rfl⟩
  have hdefeated : ¬ Along (nestedStep flashChip1M) (fun t e => ¬ Defeats t e)
      ⟨FlashCall.code (.write 0xFF [1, 2]), ⟨.blank, 0⟩⟩
      [.stmt, .stmt, .stmt, .stmt, .interrupt (.write 0x1000 [3]), .stmt, .stmt, .stmt, .stmt] := by
    rw [hcode]
    exact fun h => ((((h.2 _ rfl).2 _ rfl).2 _ rfl).2 _ rfl).1 ⟨trivial, trivial⟩
  obtain ⟨s, hrun⟩ := hrun
  have hinv : NestedInv (FlashCall.code (.write 0xFF [1, 2])) .blank :=
    ⟨wellFormed_code _, by simp [Flash.blank], trivial⟩
  refine ⟨_, hrun, rfl, fun h => hdefeated ((nested_undamaged_iff hinv hrun).mp ?_)⟩
  rintro (⟨op, hop, hbad⟩ | ⟨-, hwindow, -⟩)
  · exact hbad (h.1 op hop)
  · exact hwindow

end Fr5080
