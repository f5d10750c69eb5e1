import Fr5080.Embedded.Heap
import Fr5080.Embedded.Sched

/-!
# Fr5080.Voice.Teardown

The start and the end of a call (`audio_algorithm.c`, `tasks.c` and the messages
`AUDIO_ALGO_CREATE` and `AUDIO_ALGO_DESTROY` of `main.c` in `fr5080_user_code_xip`).  Both are
tasks; the DMA interrupts run in between, and leave work to the task
`audio_algorithm_ipc_rx_handler` with a message at the front of the queue.

`audio_algorithm_ipc_rx`, `audio_algorithm_ipc_tx` and `audio_alg_launch` ask whether there is an
environment.  `audio_algorithm_ipc_rx_handler` does not: it is right as long as its
messages are handled before the environment is released.  They are in front of
`AUDIO_ALGO_DESTROY`, so that only an interrupt that comes when that message is
already taken from the queue, and the interrupt not yet disabled, leaves a
message behind (`RxOutsideRelease`).

The blocks of the libraries are reached from the environment and are no part of
this; the task messages themselves are always allocated.
-/

namespace Fr5080

open Embedded

/-! ## data -/

/-- The messages of the task queue; `other` stands for those of other modules. -/
inductive VoiceMsg
  | audioIpcDmaRx
  | audioAlgoCreate
  | audioAlgoDestroy
  | other
deriving DecidableEq, Repr

/-- The variables of a call: `env` is `audio_algorithm_env`, `tmp` the local of
`audio_algorithm_init` and `audio_algorithm_release`, and `taskList` is `task_list`.

`derefs` is a history variable: the value of `audio_algorithm_env` and the heap, each time one
of the functions for the interrupts goes through the pointer. -/
structure VoiceTask where
  env : Option Nat
  tmp : Option Nat
  heap : Heap
  ipcDmaIntOccurStatus : UInt8
  launchAlgoMsgCount : UInt8
  rxEnabled : Bool
  txEnabled : Bool
  taskList : List VoiceMsg
  derefs : List (Option Nat × Heap)

/-- The variables as the start-up code leaves them. -/
def VoiceTask.zeroed : VoiceTask where
  env := none
  tmp := none
  heap := .empty
  ipcDmaIntOccurStatus := 0
  launchAlgoMsgCount := 0
  rxEnabled := false
  txEnabled := false
  taskList := []
  derefs := []

/-- The pointer is followed. -/
def VoiceTask.deref (s : VoiceTask) : VoiceTask :=
  { s with derefs := s.derefs ++ [(s.env, s.heap)] }

/-! ## the task -/

/-- The statements of `task_schedule` and of the handlers. -/
inductive TeardownStmt
  /-- `msg = task_msg_get()` and the call of its handler -/
  | taskMsgGet
  /-- `if(audio_algorithm_env != NULL) return` -/
  | ifEnv
  /-- `pvPortMalloc` and `memset` in `audio_algorithm_init` -/
  | mallocEnv
  /-- `audio_algorithm_env = audio_algorithm_env_tmp` -/
  | setEnv
  /-- `audio_algorithm_env->ipc_dma_int_occur_status = 40` -/
  | setStatus
  /-- `_xtos_interrupt_enable(XCHAL_IPC_DMA_RX_INTERRUPT)` -/
  | enableRx
  /-- the same for `TX` -/
  | enableTx
  /-- `audio_algorithm_env_tmp = audio_algorithm_env` -/
  | saveEnv
  /-- `_xtos_interrupt_disable(XCHAL_IPC_DMA_RX_INTERRUPT)` -/
  | disableRx
  /-- the same for `TX`, and the two interrupts cleared -/
  | disableTx
  /-- `if(audio_algorithm_env == NULL) return` -/
  | ifNoEnv
  /-- `audio_algorithm_env = NULL` -/
  | clearEnv
  /-- `vPortFree((void *)audio_algorithm_env_tmp)` -/
  | freeEnv
  /-- the critical section of `audio_algorithm_ipc_rx_handler` -/
  | countDown
  /-- `audio_alg_launch(true)`, twice -/
  | launches
deriving DecidableEq, Repr

/-- The code behind a statement. -/
def TeardownStmt.rest : TeardownStmt → List TeardownStmt
  | .taskMsgGet => []
  | .ifEnv => [.mallocEnv, .setEnv, .setStatus, .enableRx, .enableTx]
  | .mallocEnv => [.setEnv, .setStatus, .enableRx, .enableTx]
  | .setEnv => [.setStatus, .enableRx, .enableTx]
  | .setStatus => [.enableRx, .enableTx]
  | .enableRx => [.enableTx]
  | .enableTx => []
  | .saveEnv => [.disableRx, .disableTx, .ifNoEnv, .clearEnv, .freeEnv]
  | .disableRx => [.disableTx, .ifNoEnv, .clearEnv, .freeEnv]
  | .disableTx => [.ifNoEnv, .clearEnv, .freeEnv]
  | .ifNoEnv => [.clearEnv, .freeEnv]
  | .clearEnv => [.freeEnv]
  | .freeEnv => []
  | .countDown => [.launches]
  | .launches => []

/-- The handlers of the messages: `audio_algorithm_ipc_rx_handler`, `audio_init` and
`audio_algorithm_release`. -/
def VoiceMsg.handler : VoiceMsg → List TeardownStmt
  | .audioIpcDmaRx => .countDown :: TeardownStmt.countDown.rest
  | .audioAlgoCreate => .ifEnv :: TeardownStmt.ifEnv.rest
  | .audioAlgoDestroy => .saveEnv :: TeardownStmt.saveEnv.rest
  | .other => []

/-- One statement; `ok` tells whether the allocation succeeds.  Without memory `memset` faults. -/
def TeardownStmt.exec (ok : Bool) (s : VoiceTask) :
    TeardownStmt → Option (Effect TeardownStmt Empty VoiceTask)
  | .taskMsgGet => match s.taskList with
    | [] => some (.goOn s)
    | m :: taskList => some ⟨{ s with taskList := taskList }, [], some m.handler⟩
  | .ifEnv => some (if s.env ≠ none then ⟨s, [], none⟩ else .goOn s)
  | .mallocEnv =>
      if ok then
        let (p, heap) := s.heap.malloc ok
        some (.goOn { s with tmp := p, heap := heap })
      else none
  | .setEnv =>
      some (.goOn { s with env := s.tmp, ipcDmaIntOccurStatus := 0, launchAlgoMsgCount := 0 })
  | .setStatus => some (.goOn { s with ipcDmaIntOccurStatus := 40 })
  | .enableRx => some (.goOn { s with rxEnabled := true })
  | .enableTx => some (.goOn { s with txEnabled := true })
  | .saveEnv => some (.goOn { s with tmp := s.env })
  | .disableRx => some (.goOn { s with rxEnabled := false })
  | .disableTx => some (.goOn { s with txEnabled := false })
  | .ifNoEnv => some (if s.env = none then ⟨s, [], none⟩ else .goOn s)
  | .clearEnv => some (.goOn { s with env := none })
  | .freeEnv => some (.goOn { s with heap := s.heap.free s.tmp })
  | .countDown =>
      let s := s.deref
      some (.goOn { s with
        launchAlgoMsgCount :=
          if s.launchAlgoMsgCount ≠ 0 then s.launchAlgoMsgCount - 1 else s.launchAlgoMsgCount })
  | .launches => some (.goOn (if s.env = none then s else s.deref.deref))

/-! ## the interrupts -/

/-- The interrupts: the DMA, and the messages of the MCU that `ipc_rx_user_handler` turns into
task messages. -/
inductive VoiceIsr
  | ipcDmaRx
  | ipcDmaTx
  | nrecStart
  | nrecStop
  | other
deriving DecidableEq, Repr

/-- `audio_algorithm_ipc_rx`. -/
def VoiceTask.ipcRx (s : VoiceTask) : VoiceTask :=
  if s.env = none then s
  else
    let s := s.deref
    if s.ipcDmaIntOccurStatus ≠ 0 ∧ s.ipcDmaIntOccurStatus - 1 > 0 then
      { s with ipcDmaIntOccurStatus := s.ipcDmaIntOccurStatus - 1 }
    else { s with
      ipcDmaIntOccurStatus := 0
      launchAlgoMsgCount := s.launchAlgoMsgCount + 1
      taskList := .audioIpcDmaRx :: s.taskList }

/-- `audio_algorithm_ipc_tx`. -/
def VoiceTask.ipcTx (s : VoiceTask) : VoiceTask :=
  if s.env = none then s
  else if s.ipcDmaIntOccurStatus ≠ 0 then s.deref else s.deref.deref

/-- `task_msg_insert`. -/
def VoiceTask.taskMsgInsert (m : VoiceMsg) (s : VoiceTask) : VoiceTask :=
  { s with taskList := s.taskList ++ [m] }

/-- An interrupt, if it is enabled. -/
def VoiceIsr.isr (i : VoiceIsr) (s : VoiceTask) : Option (VoiceTask × List Empty) :=
  match i with
  | .ipcDmaRx => if s.rxEnabled then some (s.ipcRx, []) else none
  | .ipcDmaTx => if s.txEnabled then some (s.ipcTx, []) else none
  | .nrecStart => some (s.taskMsgInsert .audioAlgoCreate, [])
  | .nrecStop => some (s.taskMsgInsert .audioAlgoDestroy, [])
  | .other => some (s.taskMsgInsert .other, [])

abbrev VoiceSched := Sched TeardownStmt Empty VoiceTask

abbrev TeardownEvent := SchedEvent Unit Bool VoiceIsr

/-- One step: `task_schedule` goes round its loop, a statement is executed, or an interrupt
handled. -/
def teardownStep : VoiceSched → TeardownEvent → Option VoiceSched :=
  schedStep (fun _ => [.taskMsgGet]) Empty.elim (fun c ok s => c.exec ok s) VoiceIsr.isr

/-- The start, with nothing to do. -/
def VoiceSched.start : VoiceSched := ⟨[], [], .zeroed⟩

/-! ## the messages in front -/

/-- The messages of the interrupt are in front of all others. -/
def InFront (q : List VoiceMsg) : Prop :=
  ∃ n rest, q = List.replicate n .audioIpcDmaRx ++ rest ∧ .audioIpcDmaRx ∉ rest

theorem InFront.insertFront {q : List VoiceMsg} (h : InFront q) :
    InFront (.audioIpcDmaRx :: q) := by
  obtain ⟨n, rest, rfl, hrest⟩ := h
  exact ⟨n + 1, rest, by simp [List.replicate_succ], hrest⟩

theorem InFront.insert {q : List VoiceMsg} (h : InFront q) {m : VoiceMsg}
    (hm : m ≠ .audioIpcDmaRx) : InFront (q ++ [m]) := by
  obtain ⟨n, rest, rfl, hrest⟩ := h
  exact ⟨n, rest ++ [m], by simp, by simp [hrest, hm.symm]⟩

/-- When another message is taken, none of the interrupt is left behind. -/
theorem InFront.tail {q : List VoiceMsg} {m : VoiceMsg} (h : InFront (m :: q)) :
    InFront q ∧ (m ≠ .audioIpcDmaRx → .audioIpcDmaRx ∉ q) := by
  obtain ⟨n, rest, heq, hrest⟩ := h
  cases n with
  | zero =>
      rw [List.replicate_zero, List.nil_append] at heq
      subst heq
      have hq : VoiceMsg.audioIpcDmaRx ∉ q := fun hmem => hrest (List.mem_cons_of_mem m hmem)
      exact ⟨⟨0, q, rfl, hq⟩, fun _ => hq⟩
  | succ n =>
      rw [List.replicate_succ, List.cons_append] at heq
      obtain ⟨rfl, rfl⟩ := List.cons.inj heq
      exact ⟨⟨n, rest, rfl, hrest⟩, fun hm => absurd rfl hm⟩

/-! ## the invariant -/

/-- No message of the interrupt is left. -/
def VoiceTask.NoRx (s : VoiceTask) : Prop := .audioIpcDmaRx ∉ s.taskList

/-- What holds in front of a statement. -/
def TeardownStmt.At (s : VoiceTask) : TeardownStmt → Prop
  | .saveEnv | .disableRx => s.NoRx
  | .disableTx | .ifNoEnv | .clearEnv => s.NoRx ∧ s.rxEnabled = false
  | .mallocEnv | .freeEnv => s.env = none
  | .setEnv => s.env = none ∧ s.heap.Allocated s.tmp
  | .countDown => s.env ≠ none
  | _ => True

/-- The code is a suffix of a handler, and what holds in front of it. -/
def CodeAt (s : VoiceTask) : List TeardownStmt → Prop
  | [] => True
  | c :: cs => cs = c.rest ∧ c.At s

/-- The pointers followed were those of an environment. -/
def VoiceTask.DerefsAllocated (s : VoiceTask) : Prop := ∀ d ∈ s.derefs, d.2.Allocated d.1

/-- The environment is allocated, and without one there is no message of the interrupt. -/
structure TeardownInv (code : List TeardownStmt) (s : VoiceTask) : Prop where
  at_code : CodeAt s code
  env : s.env ≠ none → s.heap.Allocated s.env
  front : InFront s.taskList
  noEnv : s.env = none → s.NoRx
  derefs : s.DerefsAllocated

/-- An interrupt for which work is left does not come in `audio_algorithm_release` before the
interrupt is disabled. -/
def RxOutsideRelease (t : VoiceSched) : TeardownEvent → Prop
  | .interrupt .ipcDmaRx =>
      t.state.env ≠ none → t.state.ipcDmaIntOccurStatus ≤ 1 → .disableRx ∉ t.code
  | _ => True

instance (t : VoiceSched) (e : TeardownEvent) : Decidable (RxOutsideRelease t e) :=
  match e with
  | .interrupt .ipcDmaRx => inferInstanceAs (Decidable (_ → _ → _))
  | .interrupt .ipcDmaTx | .interrupt .nrecStart | .interrupt .nrecStop | .interrupt .other |
    .call _ | .dispatch | .stmt _ => .isTrue trivial

variable {t t' : VoiceSched} {e : TeardownEvent} {s : VoiceTask} {code : List TeardownStmt}

theorem teardownInv_start : TeardownInv [] .zeroed :=
  ⟨trivial, by simp [VoiceTask.zeroed], ⟨0, [], rfl, by simp⟩,
    by simp [VoiceTask.zeroed, VoiceTask.NoRx],
    by simp [VoiceTask.zeroed, VoiceTask.DerefsAllocated]⟩

theorem VoiceTask.DerefsAllocated.deref (h : s.DerefsAllocated)
    (henv : s.heap.Allocated s.env) : s.deref.DerefsAllocated := by
  intro d hd
  cases List.mem_append.mp hd with
  | inl hold => exact h d hold
  | inr hnew => rw [List.mem_singleton.mp hnew]; exact henv

/-- All that a step can do. -/
theorem teardownStep_cases (h : teardownStep t e = some t') :
    (e = .call () ∧ t.code = [] ∧ t' = ⟨[.taskMsgGet], t.queue, t.state⟩) ∨
      (∃ c cs ok r, e = .stmt ok ∧ t.code = c :: cs ∧ c.exec ok t.state = some r ∧
        t'.code = r.code cs ∧ t'.state = r.state) ∨
      ∃ i s posted, e = .interrupt i ∧ i.isr t.state = some (s, posted) ∧ t'.code = t.code ∧
        t'.state = s := by
  obtain ⟨p, rfl, hcode, rfl⟩ | ⟨m, queue, rfl, hcode, hqueue, rfl⟩ | ⟨c, cs, a, r, rfl, hcode,
    hexec, rfl⟩ | ⟨i, s', posted, rfl, hisr, rfl⟩ := schedStep_cases h
  · exact Or.inl ⟨rfl, hcode, rfl⟩
  · exact m.elim
  · exact Or.inr (Or.inl ⟨c, cs, a, r, rfl, hcode, hexec, rfl, rfl⟩)
  · exact Or.inr (Or.inr ⟨i, s', posted, rfl, hisr, rfl, rfl⟩)

/-- A statement keeps the invariant. -/
theorem TeardownInv.stmt {c : TeardownStmt} {cs : List TeardownStmt} {ok : Bool}
    {r : Effect TeardownStmt Empty VoiceTask} (h : TeardownInv (c :: cs) s)
    (hexec : c.exec ok s = some r) : TeardownInv (r.code cs) r.state := by
  obtain ⟨⟨rfl, hat⟩, henv, hfront, hnone, hderefs⟩ := h
  cases c with
  | taskMsgGet =>
      simp only [TeardownStmt.exec] at hexec
      split at hexec
      · cases hexec
        exact ⟨trivial, henv, hfront, hnone, hderefs⟩
      · next m q heq =>
          cases hexec
          rw [heq] at hfront
          obtain ⟨hfront', hnoRx⟩ := hfront.tail
          have hnone' : s.env = none → VoiceMsg.audioIpcDmaRx ∉ q := by
            intro hne hmem
            exact hnone hne (by rw [heq]; exact List.mem_cons_of_mem m hmem)
          refine ⟨?_, henv, hfront', hnone', hderefs⟩
          cases m with
          | audioIpcDmaRx =>
              refine ⟨rfl, fun hne => ?_⟩
              exact hnone hne (by rw [heq]; exact List.mem_cons_self)
          | audioAlgoCreate => exact ⟨rfl, trivial⟩
          | audioAlgoDestroy => exact ⟨rfl, hnoRx (by simp)⟩
          | other => trivial
  | ifEnv =>
      simp only [TeardownStmt.exec, Option.some.injEq] at hexec
      subst hexec
      split
      · exact ⟨trivial, henv, hfront, hnone, hderefs⟩
      · next hne => exact ⟨⟨rfl, not_not.mp hne⟩, henv, hfront, hnone, hderefs⟩
  | mallocEnv =>
      cases ok with
      | false => cases hexec
      | true =>
          cases hexec
          have hat : s.env = none := hat
          exact ⟨⟨rfl, hat, Heap.allocated_malloc.mpr rfl⟩, fun hne => absurd hat hne, hfront,
            hnone, hderefs⟩
  | setEnv =>
      cases hexec
      obtain ⟨hnull, htmp⟩ := hat
      refine ⟨⟨rfl, trivial⟩, fun _ => htmp, hfront, fun _ => hnone hnull, hderefs⟩
  | setStatus => cases hexec; exact ⟨⟨rfl, trivial⟩, henv, hfront, hnone, hderefs⟩
  | enableRx => cases hexec; exact ⟨⟨rfl, trivial⟩, henv, hfront, hnone, hderefs⟩
  | enableTx => cases hexec; exact ⟨trivial, henv, hfront, hnone, hderefs⟩
  | saveEnv => cases hexec; exact ⟨⟨rfl, hat⟩, henv, hfront, hnone, hderefs⟩
  | disableRx => cases hexec; exact ⟨⟨rfl, hat, rfl⟩, henv, hfront, hnone, hderefs⟩
  | disableTx => cases hexec; exact ⟨⟨rfl, hat⟩, henv, hfront, hnone, hderefs⟩
  | ifNoEnv =>
      simp only [TeardownStmt.exec, Option.some.injEq] at hexec
      subst hexec
      split
      · exact ⟨trivial, henv, hfront, hnone, hderefs⟩
      · exact ⟨⟨rfl, hat⟩, henv, hfront, hnone, hderefs⟩
  | clearEnv =>
      cases hexec
      exact ⟨⟨rfl, rfl⟩, fun hne => absurd rfl hne, hfront, fun _ => hat.1, hderefs⟩
  | freeEnv =>
      cases hexec
      have hat : s.env = none := hat
      exact ⟨trivial, fun hne => absurd hat hne, hfront, hnone, hderefs⟩
  | countDown =>
      cases hexec
      exact ⟨⟨rfl, trivial⟩, henv, hfront, hnone, hderefs.deref (henv hat)⟩
  | launches =>
      cases hexec
      show TeardownInv [] (if s.env = none then s else s.deref.deref)
      split
      · exact ⟨trivial, henv, hfront, hnone, hderefs⟩
      · next hne =>
          exact ⟨trivial, henv, hfront, hnone, (hderefs.deref (henv hne)).deref (henv hne)⟩

/-- What holds in front of a statement is kept where the queue keeps free of messages of the
interrupt, and the interrupt is not enabled. -/
theorem CodeAt.congr {s' : VoiceTask} (h : CodeAt s code) (henv : s'.env = s.env)
    (htmp : s'.tmp = s.tmp) (hheap : s'.heap = s.heap) (hrx : s'.rxEnabled = s.rxEnabled)
    (hnoRx : .clearEnv ∈ code → s.NoRx → s'.NoRx) : CodeAt s' code := by
  cases code with
  | nil => trivial
  | cons c cs =>
      obtain ⟨rfl, hat⟩ := h
      refine ⟨rfl, ?_⟩
      cases c <;>
        simp_all [TeardownStmt.At, TeardownStmt.rest]

/-- A message of the MCU is put behind the others. -/
theorem TeardownInv.taskMsgInsert (h : TeardownInv code s) {m : VoiceMsg}
    (hm : m ≠ .audioIpcDmaRx) : TeardownInv code (s.taskMsgInsert m) := by
  have hnoRx : s.NoRx → (s.taskMsgInsert m).NoRx := by
    simp [VoiceTask.NoRx, VoiceTask.taskMsgInsert, hm.symm]
  exact ⟨h.at_code.congr rfl rfl rfl rfl fun _ => hnoRx, h.env, h.front.insert hm,
    fun hne => hnoRx (h.noEnv hne), h.derefs⟩

/-- The interrupt leaves a message only where its handler finds the environment. -/
theorem TeardownInv.ipcRx (h : TeardownInv code s) (henabled : s.rxEnabled = true)
    (hC : s.env ≠ none → s.ipcDmaIntOccurStatus ≤ 1 → .disableRx ∉ code) :
    TeardownInv code s.ipcRx := by
  unfold VoiceTask.ipcRx
  split
  · exact h
  next hne =>
  have hsafe := h.derefs.deref (h.env hne)
  dsimp only
  split
  · exact ⟨h.at_code.congr rfl rfl rfl rfl fun _ hno => hno, h.env, h.front, h.noEnv, hsafe⟩
  · next hstatus =>
      have hcode := hC hne (by
        have : s.deref.ipcDmaIntOccurStatus = s.ipcDmaIntOccurStatus := rfl
        grind)
      refine ⟨h.at_code.congr rfl rfl rfl rfl fun hmem => ?_, h.env, h.front.insertFront,
        fun hnull => absurd hnull hne, hsafe⟩
      -- behind `disableRx` the interrupt is not enabled
      have hat := h.at_code
      cases code with
      | nil => cases hmem
      | cons c cs =>
          obtain ⟨rfl, hat⟩ := hat
          cases c <;> simp_all [TeardownStmt.At, TeardownStmt.rest]

theorem TeardownInv.ipcTx (h : TeardownInv code s) : TeardownInv code s.ipcTx := by
  unfold VoiceTask.ipcTx
  split
  · exact h
  next hne =>
  have hsafe := h.derefs.deref (h.env hne)
  split
  · exact ⟨h.at_code.congr rfl rfl rfl rfl fun _ hno => hno, h.env, h.front, h.noEnv, hsafe⟩
  · exact ⟨h.at_code.congr rfl rfl rfl rfl fun _ hno => hno, h.env, h.front, h.noEnv,
      hsafe.deref (h.env hne)⟩

/-- A step that meets the condition keeps the invariant. -/
theorem teardownInv_step (h : TeardownInv t.code t.state) (hC : RxOutsideRelease t e)
    (hstep : teardownStep t e = some t') : TeardownInv t'.code t'.state := by
  obtain ⟨-, hcode, rfl⟩ | ⟨c, cs, ok, r, -, hcode, hexec, hcode', hstate⟩ |
    ⟨i, s, posted, rfl, hisr, hcode, hstate⟩ := teardownStep_cases hstep
  · exact ⟨⟨rfl, trivial⟩, h.env, h.front, h.noEnv, h.derefs⟩
  · rw [hcode] at h
    rw [hcode', hstate]
    exact h.stmt hexec
  · rw [hcode, hstate]
    cases i with
    | ipcDmaRx =>
        simp only [VoiceIsr.isr] at hisr
        split at hisr
        · next henabled =>
            cases hisr
            exact h.ipcRx henabled hC
        · cases hisr
    | ipcDmaTx =>
        simp only [VoiceIsr.isr] at hisr
        split at hisr
        · cases hisr
          exact h.ipcTx
        · cases hisr
    | nrecStart =>
        cases hisr
        exact h.taskMsgInsert (by simp)
    | nrecStop =>
        cases hisr
        exact h.taskMsgInsert (by simp)
    | other =>
        cases hisr
        exact h.taskMsgInsert (by simp)

/-! ## a message left behind -/

/-- A message of the interrupt is in front, and will be handled without an environment; or it
is about to be. -/
def Doomed (code : List TeardownStmt) (s : VoiceTask) : Prop :=
  (s.taskList.head? = some .audioIpcDmaRx ∧
      ((s.env ≠ none ∧ .clearEnv ∈ code ∧ ∃ c, code = c :: c.rest) ∨
        (s.env = none ∧ (code = [] ∨ code = [.taskMsgGet] ∨ code = [.freeEnv])))) ∨
    (s.env = none ∧ code = .countDown :: TeardownStmt.countDown.rest)

/-- Nothing is taken out of the history. -/
theorem derefs_grow (hstep : teardownStep t e = some t') :
    t.state.derefs <+: t'.state.derefs := by
  obtain ⟨-, -, rfl⟩ | ⟨c, cs, ok, r, -, -, hexec, -, hstate⟩ |
    ⟨i, s, posted, rfl, hisr, -, hstate⟩ := teardownStep_cases hstep
  · exact List.prefix_rfl
  · rw [hstate]
    cases c <;> simp only [TeardownStmt.exec, VoiceTask.deref, Effect.goOn] at hexec <;>
      grind
  · rw [hstate]
    cases i <;>
      simp only [VoiceIsr.isr, VoiceTask.ipcRx, VoiceTask.ipcTx, VoiceTask.taskMsgInsert,
        VoiceTask.deref] at hisr <;>
      grind

/-- An interrupt leaves it in front. -/
theorem Doomed.isr (h : Doomed code s) {i : VoiceIsr} {s' : VoiceTask} {posted : List Empty}
    (hisr : i.isr s = some (s', posted)) : Doomed code s' := by
  have hkeep : s'.env = s.env ∧ (s.taskList.head? = some .audioIpcDmaRx →
      s'.taskList.head? = some .audioIpcDmaRx) := by
    have hinsert : ∀ m, s.taskList.head? = some .audioIpcDmaRx →
        (s.taskList ++ [m]).head? = some .audioIpcDmaRx := by
      intro m hhead
      rw [List.head?_append, hhead]
      rfl
    cases i <;>
      simp only [VoiceIsr.isr, VoiceTask.ipcRx, VoiceTask.ipcTx, VoiceTask.taskMsgInsert,
        VoiceTask.deref] at hisr <;>
      grind
  obtain ⟨henv, hhead⟩ := hkeep
  unfold Doomed at h ⊢
  rw [henv]
  exact h.imp (And.imp_left hhead) id

/-- A statement leads on to the handler that follows the null pointer. -/
theorem Doomed.stmt {c : TeardownStmt} {cs : List TeardownStmt} {ok : Bool}
    {r : Effect TeardownStmt Empty VoiceTask} (h : Doomed (c :: cs) s)
    (hexec : c.exec ok s = some r) : Doomed (r.code cs) r.state ∨ ¬ r.state.DerefsAllocated := by
  obtain ⟨hhead, ⟨henv, hmem, c', hc'⟩ | ⟨henv, hcode⟩⟩ | ⟨henv, hcode⟩ := h
  · -- in the release: up to `clearEnv` it stays as it is
    obtain ⟨rfl, rfl⟩ := List.cons.inj hc'
    left
    cases c with
    | saveEnv => cases hexec; exact Or.inl ⟨hhead, Or.inl ⟨henv, by simp [TeardownStmt.rest,
        Effect.goOn, Effect.code], .disableRx, rfl⟩⟩
    | disableRx => cases hexec; exact Or.inl ⟨hhead, Or.inl ⟨henv, by simp [TeardownStmt.rest,
        Effect.goOn, Effect.code], .disableTx, rfl⟩⟩
    | disableTx => cases hexec; exact Or.inl ⟨hhead, Or.inl ⟨henv, by simp [TeardownStmt.rest,
        Effect.goOn, Effect.code], .ifNoEnv, rfl⟩⟩
    | ifNoEnv =>
        simp only [TeardownStmt.exec, henv, if_false, Option.some.injEq] at hexec
        subst hexec
        exact Or.inl ⟨hhead, Or.inl ⟨henv, by simp [TeardownStmt.rest, Effect.goOn, Effect.code],
          .clearEnv, rfl⟩⟩
    | clearEnv => cases hexec; exact Or.inl ⟨hhead, Or.inr ⟨rfl, by simp [TeardownStmt.rest,
        Effect.goOn, Effect.code]⟩⟩
    | _ => simp [TeardownStmt.rest] at hmem
  · rcases hcode with hcode | hcode | hcode
    · cases hcode
    · -- the message is taken
      obtain ⟨rfl, rfl⟩ := List.cons.inj hcode
      simp only [TeardownStmt.exec] at hexec
      split at hexec
      · next hnil => simp [hnil] at hhead
      · next m q hq =>
          cases hexec
          obtain rfl : m = .audioIpcDmaRx := by simpa [hq] using hhead
          exact Or.inl (Or.inr ⟨henv, rfl⟩)
    · obtain ⟨rfl, rfl⟩ := List.cons.inj hcode
      cases hexec
      exact Or.inl (Or.inl ⟨hhead, Or.inr ⟨henv, Or.inl rfl⟩⟩)
  · -- `audio_algorithm_env->launch_algo_msg_count` without an environment
    obtain ⟨rfl, rfl⟩ := List.cons.inj hcode
    cases hexec
    right
    intro hall
    have := hall (s.env, s.heap) (List.mem_append_right _ (List.mem_singleton.mpr rfl))
    rw [henv] at this
    exact Heap.not_allocated_none this

theorem doomed_step (h : Doomed t.code t.state) (hstep : teardownStep t e = some t') :
    Doomed t'.code t'.state ∨ ¬ t'.state.DerefsAllocated := by
  obtain ⟨-, hcode, rfl⟩ | ⟨c, cs, ok, r, -, hcode, hexec, hcode', hstate⟩ |
    ⟨i, s, posted, rfl, hisr, hcode, hstate⟩ := teardownStep_cases hstep
  · left
    rw [hcode] at h
    obtain ⟨hhead, ⟨-, hmem, -⟩ | ⟨henv, -⟩⟩ | ⟨-, hcode⟩ := h
    · cases hmem
    · exact Or.inl ⟨hhead, Or.inr ⟨henv, Or.inr (Or.inl rfl)⟩⟩
    · cases hcode
  · rw [hcode] at h
    rw [hcode', hstate]
    exact h.stmt hexec
  · rw [hcode, hstate]
    exact Or.inl (h.isr hisr)

/-- An interrupt in the release leaves a message behind. -/
theorem doomed_of_rx (h : TeardownInv t.code t.state) (hC : ¬ RxOutsideRelease t e)
    (hstep : teardownStep t e = some t') : Doomed t'.code t'.state := by
  cases e with
  | interrupt i =>
      cases i with
      | ipcDmaRx =>
          simp only [RxOutsideRelease, not_forall, not_not] at hC
          obtain ⟨henv, hstatus, hmem⟩ := hC
          obtain ⟨he, -⟩ | ⟨c, cs, ok, r, he, -⟩ | ⟨i, s, posted, he, hisr, hcode, hstate⟩ :=
            teardownStep_cases hstep
          · cases he
          · cases he
          · cases he
            have hlow : ¬ (t.state.ipcDmaIntOccurStatus ≠ 0 ∧
                t.state.ipcDmaIntOccurStatus - 1 > 0) := by grind
            simp only [VoiceIsr.isr, VoiceTask.ipcRx, henv, if_false, VoiceTask.deref, hlow] at hisr
            split at hisr
            · cases hisr
              have hat := h.at_code
              rw [hcode, hstate]
              refine Or.inl ⟨rfl, Or.inl ⟨henv, ?_⟩⟩
              cases hcode' : t.code with
              | nil => simp [hcode'] at hmem
              | cons c cs =>
                  rw [hcode'] at hat hmem
                  obtain ⟨rfl, -⟩ := hat
                  refine ⟨?_, c, rfl⟩
                  cases c <;> simp_all [TeardownStmt.rest]
            · cases hisr
      | _ => exact absurd trivial hC
  | _ => exact absurd trivial hC

/-! ## runs -/

/-- Without an environment nothing is followed by the functions for the interrupts, if no
interrupt with work to leave comes in the release before it is disabled.  That is exact: in
a run to a state where the task is idle and no message of the interrupt is left, an
interrupt that came there has led to the null pointer. -/
theorem derefs_allocated_iff {es : List TeardownEvent}
    (hrun : run teardownStep .start es = some t) :
    (Along teardownStep RxOutsideRelease .start es → t.state.DerefsAllocated) ∧
      (t.code = [] → t.state.NoRx → t.state.DerefsAllocated →
        Along teardownStep RxOutsideRelease .start es) := by
  have hiff : ¬ (¬ t.state.DerefsAllocated ∨ Doomed t.code t.state) ↔
      Along teardownStep RxOutsideRelease .start es := by
    refine run_undamaged_iff_along (I := fun t => TeardownInv t.code t.state)
      (D := fun t => ¬ t.state.DerefsAllocated ∨ Doomed t.code t.state)
      (fun _ _ _ => teardownInv_step)
      (fun _ _ _ h hC hstep => Or.inr (doomed_of_rx h hC hstep)) ?_ ?_ teardownInv_start hrun
    · rintro s e s' (hbad | hdoomed) hstep
      · exact Or.inl fun hall => hbad fun d hd => hall d ((derefs_grow hstep).subset hd)
      · exact (doomed_step hdoomed hstep).symm
    · rintro s h (hbad | ⟨hhead, ⟨-, hmem, c, hcode⟩ | ⟨henv, -⟩⟩ | ⟨henv, hcode⟩)
      · exact hbad h.derefs
      · have hat := h.at_code
        have hrx := List.mem_of_mem_head? hhead
        rw [hcode] at hat hmem
        obtain ⟨-, hat⟩ := hat
        cases c <;> simp_all [TeardownStmt.At, TeardownStmt.rest, VoiceTask.NoRx]
      · exact h.noEnv henv (List.mem_of_mem_head? hhead)
      · have hat := h.at_code
        rw [hcode] at hat
        exact hat.2 henv
  rw [← hiff]
  constructor
  · exact fun hno => not_not.mp fun hbad => hno (Or.inl hbad)
  · rintro hcode hno hall (hbad | ⟨hhead, -⟩ | ⟨-, hcode'⟩)
    · exact hbad hall
    · exact hno (List.mem_of_mem_head? hhead)
    · rw [hcode] at hcode'
      cases hcode'

/-- The task goes round its loop, with `n` statements. -/
def VoiceSched.loop (n : Nat) : List TeardownEvent :=
  .call () :: List.replicate n (.stmt true)

/-- A call is created, 40 interrupts come, and the work of the last one is done. -/
def oneCall : List TeardownEvent :=
  .interrupt .nrecStart :: VoiceSched.loop 7 ++
    List.replicate 40 (.interrupt .ipcDmaRx) ++ VoiceSched.loop 3

/-- The call, and its release. -/
theorem derefs_allocated_iff_release : ∃ t,
    run teardownStep .start (oneCall ++ .interrupt .nrecStop :: VoiceSched.loop 7) = some t ∧
      t.state.DerefsAllocated := by
  have hdone : (run teardownStep .start
      (oneCall ++ .interrupt .nrecStop :: VoiceSched.loop 7)).isSome = true := by decide +kernel
  obtain ⟨t, hrun⟩ := Option.isSome_iff_exists.mp hdone
  exact ⟨t, hrun, (derefs_allocated_iff hrun).1 (by decide +kernel)⟩

/-- The interrupt comes when `AUDIO_ALGO_DESTROY` is taken from the queue: its message is
handled without an environment. -/
def lateRx : List TeardownEvent :=
  oneCall ++ [.interrupt .nrecStop, .call (), .stmt true, .interrupt .ipcDmaRx] ++
    List.replicate 6 (.stmt true) ++ VoiceSched.loop 2

theorem rx_handler_follows_null :
    ∃ t, run teardownStep .start lateRx = some t ∧ ∃ d ∈ t.state.derefs, d.1 = none := by
  obtain ⟨t, hrun, hview⟩ := Option.map_eq_some_iff.mp (show
    (run teardownStep .start lateRx).map (fun t => (t.state.derefs.map Prod.fst).getLast?) =
      some (some none) by decide +kernel)
  obtain ⟨d, hd, hnone⟩ := List.mem_map.mp (List.mem_of_getLast? hview)
  exact ⟨t, hrun, d, hd, hnone⟩

end Fr5080
