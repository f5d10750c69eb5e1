import Fr5080.Decoder.Codec
import Fr5080.Embedded.Task

/-!
# Fr5080.Decoder.Credit

Flow control of the compressed input of the MP3 decoder
(`fr5080_user_code_xip`, `mp3_decoder.c`) and of the mSBC decoder
(`fr5080_msbc_decoder`, `msbc_decoder.c`).

The DSP grants buffer space with `IPC_MSG_RAW_BUFFER_SPACE`, in units of
`unitSize` bytes; `request_data_size` counts down as the frames arrive, and
`all_request_data_received` tells that a new grant may be asked for.  The two
decoders have the same variables and the same interrupt-side function; their
task-side code differs in constants and in the order of its statements.

The code that sends a grant is a list of statements (`ApplyStmt`), because the
frames of the MCU are handled in the IPC interrupt, between any two of them.
Executed without interrupts the same list is the sequential code that the
decoder models use.  In front of it the engine reads the ring (`EngineStmt`),
which makes the room that the next grant is for.

`DecoderInput.Accounted` is what the accounting is for; it survives every
interleaving in which no frame arrives while the bookkeeping of a grant has
begun and is not finished (`credit_accounting`).
-/

namespace Fr5080

open Embedded

/-! ## data -/

/-- `mp3_decoder_state_t`, and `msbc_decoder_state_t` with the same values. -/
inductive DecoderState
  | idle
  | buffering
  | initiating
  | decoding
  | pcmTransmitting
deriving DecidableEq, Repr

/-- The messages the decoders insert into the task queue. -/
inductive DecoderTask
  | doDecode
deriving DecidableEq, Repr

/-- The input variables of a decoder that its interrupt-side function uses.
`grant` and `since` are history variables: the bytes of the last grant sent,
and the bytes received since then. -/
structure DecoderInput where
  ring : RingBuffer UInt8
  totalInput : Nat
  dynamicConsumed : Nat
  allRequestDataReceived : Bool
  requestDataSize : Nat
  prepForNext : Bool
  state : DecoderState
  tasks : List DecoderTask
  grant : Nat
  since : Nat

/-- The variables as the start-up code leaves them. -/
def DecoderInput.zeroed : DecoderInput where
  ring := ⟨fun _ => 0, 0, 0⟩
  totalInput := 0
  dynamicConsumed := 0
  allRequestDataReceived := false
  requestDataSize := 0
  prepForNext := false
  state := .idle
  tasks := []
  grant := 0
  since := 0

/-- The constants of a decoder. -/
structure DecoderConfig where
  bufferSize : Nat
  bufferingLimit : Nat
  requestDataThd : Nat
  unitSize : Nat
  /-- the units to ask for when `left_space` bytes are unread -/
  applyUnit : Nat → Nat
  /-- the units of the first grant -/
  initApplyUnit : Nat

/-- The constants of `mp3_decoder.c`. -/
def mp3DecoderConfig : DecoderConfig where
  bufferSize := 4096
  bufferingLimit := 2048
  requestDataThd := 1024
  unitSize := 256
  applyUnit leftSpace := sub32 (sub32 4096 leftSpace / 256) 1
  initApplyUnit := 4096 / 256 - 1

/-- `MSBC_SINGLE_FRAME_SIZE`. -/
def msbcSingleFrameSize : Nat := 57

/-- `MSBC_DECODER_BUFFER_SIZE`. -/
def msbcDecoderBufferSize : Nat := msbcSingleFrameSize * 64

/-- `MSBC_DECODER_APPLY_LIMIT`. -/
def msbcDecoderApplyLimit : Nat := msbcSingleFrameSize * 32

/-- The constants of `msbc_decoder.c`. -/
def msbcDecoderConfig : DecoderConfig where
  bufferSize := msbcDecoderBufferSize
  bufferingLimit := msbcSingleFrameSize * 16
  requestDataThd := msbcSingleFrameSize * 8
  unitSize := msbcSingleFrameSize
  applyUnit leftSpace :=
    if sub32 msbcDecoderBufferSize leftSpace > msbcDecoderApplyLimit then
      msbcDecoderApplyLimit / msbcSingleFrameSize - 1
    else sub32 (sub32 msbcDecoderBufferSize leftSpace / msbcSingleFrameSize) 1
  initApplyUnit :=
    if msbcDecoderApplyLimit < msbcDecoderBufferSize then
      msbcDecoderApplyLimit / msbcSingleFrameSize - 1
    else msbcDecoderBufferSize / msbcSingleFrameSize - 1

/-! ## the interrupt side -/

/-- The first part of `recv_frame`: check whether all requested data have
been received. -/
def DecoderInput.countFrame (length : Nat) (r : DecoderInput) : DecoderInput :=
  if r.requestDataSize ≥ length then
    let r := { r with requestDataSize := r.requestDataSize - length }
    if r.requestDataSize = 0 then { r with allRequestDataReceived := true } else r
  else { r with requestDataSize := 0, allRequestDataReceived := true }

/-- `mp3_decoder_recv_frame` and `msbc_decoder_recv_frame`. -/
def DecoderInput.recvFrame (d : DecoderConfig) (buffer : List UInt8)
    (r : DecoderInput) : DecoderInput :=
  let r := r.countFrame buffer.length
  let r := { r with totalInput := (r.totalInput + buffer.length) % 2 ^ 32 }
  let r := { r with ring := r.ring.recv d.bufferSize buffer, since := r.since + buffer.length }
  if r.state = .idle ∧ d.bufferingLimit ≤ r.totalInput then
    { r with state := .buffering, tasks := r.tasks ++ [.doDecode] }
  else r

/-! ## the task side -/

/-- The shared variables with the locals of the code that sends a grant. -/
structure ApplyCtx extends DecoderInput where
  leftSpace : Nat
  applyUnit : Nat

/-- A statement of the code that sends grants, or of an init function. -/
inductive ApplyStmt
  /-- `dynamic_consumed += i_bytes_consumed` -/
  | addConsumed (bytesConsumed : Nat)
  /-- `if(all_request_data_received && dynamic_consumed >= THD && !prep_for_next)` -/
  | ifRequestDue (thd : Nat)
  /-- `channel = ipc_alloc_channel(0); if(channel != 0xff)` -/
  | ifChannel (available : Bool)
  /-- `left_space = …`, with interrupts disabled -/
  | readLeftSpace (bufferSize : Nat)
  /-- `apply_unit = …` -/
  | setApplyUnit (f : Nat → Nat)
  /-- `if(apply_unit)` -/
  | ifApplyUnit
  /-- `all_request_data_received = false` -/
  | clearAllReceived
  /-- `request_data_size = apply_unit*unit` -/
  | setRequestDataSize (unitSize : Nat)
  /-- `dynamic_consumed = 0` -/
  | clearDynamicConsumed
  /-- `ipc_msg_send` or `ipc_insert_msg` of `IPC_MSG_RAW_BUFFER_SPACE` -/
  | sendRawBufferSpace (unitSize : Nat)
  /-- `buffer_input_index = 0` -/
  | clearInputIndex
  /-- `buffer_output_index = 0` -/
  | clearOutputIndex
  /-- `total_input = 0` -/
  | clearTotalInput
  /-- `state = IDLE` -/
  | setIdle
  /-- `prep_for_next = false` -/
  | clearPrepForNext

/-- The effect of a statement, and whether the code goes on. -/
def ApplyStmt.exec : ApplyStmt → ApplyCtx → ApplyCtx × Bool
  | .addConsumed bytesConsumed, c =>
      ({ c with dynamicConsumed := (c.dynamicConsumed + bytesConsumed) % 2 ^ 32 }, true)
  | .ifRequestDue thd, c =>
      (c, c.allRequestDataReceived && thd ≤ c.dynamicConsumed && !c.prepForNext)
  | .ifChannel available, c => (c, available)
  | .readLeftSpace bufferSize, c => ({ c with leftSpace := c.ring.used bufferSize }, true)
  | .setApplyUnit f, c => ({ c with applyUnit := f c.leftSpace }, true)
  | .ifApplyUnit, c => (c, c.applyUnit ≠ 0)
  | .clearAllReceived, c => ({ c with allRequestDataReceived := false }, true)
  | .setRequestDataSize unitSize, c =>
      ({ c with requestDataSize := c.applyUnit * unitSize % 2 ^ 32 }, true)
  | .clearDynamicConsumed, c => ({ c with dynamicConsumed := 0 }, true)
  | .sendRawBufferSpace unitSize, c =>
      ({ c with grant := c.applyUnit * unitSize % 2 ^ 32, since := 0 }, true)
  | .clearInputIndex, c => ({ c with ring := { c.ring with inp := 0 } }, true)
  | .clearOutputIndex, c => ({ c with ring := { c.ring with out := 0 } }, true)
  | .clearTotalInput, c => ({ c with totalInput := 0 }, true)
  | .setIdle, c => ({ c with state := .idle }, true)
  | .clearPrepForNext, c => ({ c with prepForNext := false }, true)

/-- `mp3_decoder_init`, from the reset of the ring on; what stands before and
after it concerns the codec and the PCM handler only. -/
def mp3DecoderInitCode : List ApplyStmt :=
  [.clearInputIndex, .clearOutputIndex, .clearDynamicConsumed, .clearTotalInput, .setIdle,
    .setApplyUnit (fun _ => mp3DecoderConfig.initApplyUnit),
    .sendRawBufferSpace mp3DecoderConfig.unitSize,
    .clearAllReceived, .setRequestDataSize mp3DecoderConfig.unitSize, .clearPrepForNext]

/-- The end of `mp3_decoder_engine_start` and `mp3_decoder_engine_decode`: the
same statements in both. -/
def mp3DecoderApplyCode (bytesConsumed : Nat) : List ApplyStmt :=
  [.addConsumed bytesConsumed, .ifRequestDue mp3DecoderConfig.requestDataThd,
    .readLeftSpace mp3DecoderConfig.bufferSize, .setApplyUnit mp3DecoderConfig.applyUnit,
    .ifApplyUnit, .clearAllReceived, .setRequestDataSize mp3DecoderConfig.unitSize,
    .clearDynamicConsumed, .sendRawBufferSpace mp3DecoderConfig.unitSize]

/-- `msbc_decoder_init`; without a channel it does nothing. -/
def msbcDecoderInitCode (available : Bool) : List ApplyStmt :=
  [.ifChannel available, .clearInputIndex, .clearOutputIndex, .clearDynamicConsumed,
    .clearTotalInput, .setIdle, .setApplyUnit (fun _ => msbcDecoderConfig.initApplyUnit),
    .sendRawBufferSpace msbcDecoderConfig.unitSize,
    .clearAllReceived, .setRequestDataSize msbcDecoderConfig.unitSize, .clearPrepForNext]

/-- The end of `msbc_decoder_engine_start` and `msbc_decoder_engine_decode`;
`available` tells whether `ipc_alloc_channel` succeeds. -/
def msbcDecoderApplyCode (bytesConsumed : Nat) (available : Bool) : List ApplyStmt :=
  [.addConsumed bytesConsumed, .ifRequestDue msbcDecoderConfig.requestDataThd,
    .ifChannel available, .readLeftSpace msbcDecoderConfig.bufferSize,
    .setApplyUnit msbcDecoderConfig.applyUnit, .ifApplyUnit,
    .sendRawBufferSpace msbcDecoderConfig.unitSize, .clearDynamicConsumed, .clearAllReceived,
    .setRequestDataSize msbcDecoderConfig.unitSize]

/-- A statement of the engine functions that concerns the grants. -/
inductive EngineStmt
  /-- `i_bytes_read = …_get_data(pb_inp_buf + left_data_length, size)`, with interrupts
  disabled; of what it does only the output index matters here -/
  | getData (bufferSize size : Nat)
  /-- a statement of the grant code -/
  | grant (stmt : ApplyStmt)

/-- The effect of a statement, and whether the code goes on. -/
def EngineStmt.exec : EngineStmt → ApplyCtx → ApplyCtx × Bool
  | .getData bufferSize size, c =>
      ({ c with ring := (c.ring.getData bufferSize 2 (fun _ => 0) 0 size).1 }, true)
  | .grant stmt, c => stmt.exec c

/-- The functions of a decoder that send grants.  The engine functions ask the ring for
`size = ui_inp_size - left_data_length` bytes, and the codec then consumes `bytesConsumed`; an
`engine_decode` that returns early has read nothing and changes none of the variables, so it is
no call. -/
inductive DecoderCall
  | init (available : Bool)
  | engineStart (size bytesConsumed : Nat) (available : Bool)
  | engineDecode (size bytesConsumed : Nat) (available : Bool)

/-- What `mp3_decoder.c` does to the variables; it needs no channel. -/
def mp3DecoderProgram : DecoderCall → List EngineStmt
  | .init _ => mp3DecoderInitCode.map .grant
  | .engineStart size bytesConsumed _ | .engineDecode size bytesConsumed _ =>
      .getData mp3DecoderConfig.bufferSize size ::
        (mp3DecoderApplyCode bytesConsumed).map .grant

/-- What `msbc_decoder.c` does to the variables. -/
def msbcDecoderProgram : DecoderCall → List EngineStmt
  | .init available => (msbcDecoderInitCode available).map .grant
  | .engineStart size bytesConsumed available | .engineDecode size bytesConsumed available =>
      .getData msbcDecoderConfig.bufferSize size ::
        (msbcDecoderApplyCode bytesConsumed available).map .grant

/-- The IPC interrupt with a raw frame. -/
def frameIsr (d : DecoderConfig) (buffer : List UInt8) (c : ApplyCtx) : ApplyCtx :=
  { c with toDecoderInput := c.toDecoderInput.recvFrame d buffer }

/-- The input variables after grant code that nothing interrupts. -/
def DecoderInput.runCode (code : List ApplyStmt) (r : DecoderInput) : DecoderInput :=
  (execBlock ApplyStmt.exec code ⟨r, 0, 0⟩).toDecoderInput

/-! ## what the accounting is for -/

/-- The counter is the last grant less the bytes received since then, and the
flag tells that all of them have arrived. -/
structure DecoderInput.Accounted (r : DecoderInput) : Prop where
  request : r.requestDataSize = r.grant - r.since
  allReceived : r.allRequestDataReceived = true ↔ r.grant ≤ r.since

/-- A statement of the bookkeeping of a grant: the two assignments and the
message itself. -/
def ApplyStmt.bookkeeping : ApplyStmt → Bool
  | .clearAllReceived | .setRequestDataSize _ | .sendRawBufferSpace _ => true
  | _ => false

/-- The number of bookkeeping statements still to be executed. -/
def pendingBookkeeping (code : List ApplyStmt) : Nat := code.countP ApplyStmt.bookkeeping

/-- The bookkeeping of a grant has begun and is not finished. -/
def InWindow (code : List ApplyStmt) : Prop :=
  0 < pendingBookkeeping code ∧ pendingBookkeeping code < 3

/-- The grant code still to be executed. -/
def grantCode (code : List EngineStmt) : List ApplyStmt :=
  code.filterMap fun stmt => match stmt with
    | .getData _ _ => none
    | .grant stmt => some stmt

/-- The condition on an interleaving: no frame arrives in the window. -/
def NoFrameInWindow (t : TaskState EngineStmt ApplyCtx) :
    TaskEvent DecoderCall (List UInt8) → Prop
  | .interrupt _ => ¬ InWindow (grantCode t.code)
  | _ => True

instance (code : List ApplyStmt) : Decidable (InWindow code) :=
  inferInstanceAs (Decidable (_ ∧ _))

instance (t : TaskState EngineStmt ApplyCtx) (e : TaskEvent DecoderCall (List UInt8)) :
    Decidable (NoFrameInWindow t e) :=
  match e with
  | .interrupt _ => inferInstanceAs (Decidable (¬ _))
  | .call _ => .isTrue trivial
  | .stmt => .isTrue trivial

/-! ## the accounting is kept -/

variable {r : DecoderInput} {c : ApplyCtx}

/-- The counter never underflows, and the flag rises when it reaches zero. -/
theorem DecoderInput.countFrame_eq (length : Nat) (r : DecoderInput) :
    r.countFrame length = { r with
      requestDataSize := r.requestDataSize - length
      allRequestDataReceived :=
        decide (r.requestDataSize ≤ length) || r.allRequestDataReceived } := by
  simp only [DecoderInput.countFrame]
  split
  · next hge =>
      split
      · next hzero =>
          have hle : r.requestDataSize ≤ length := by omega
          simp [hle]
      · next hne =>
          have hlt : ¬ r.requestDataSize ≤ length := by omega
          simp [hlt]
  · next hlt =>
      have hle : r.requestDataSize ≤ length := by omega
      have hzero : r.requestDataSize - length = 0 := by omega
      simp [hle, hzero]

/-- What `recv_frame` does, up to the start of the idle decoder. -/
theorem DecoderInput.recvFrame_eq (d : DecoderConfig) (buffer : List UInt8) (r : DecoderInput) :
    ∃ state tasks, (state = r.state ∨ r.state = .idle ∧ state = .buffering) ∧
      r.recvFrame d buffer = { r with
        ring := r.ring.recv d.bufferSize buffer
        totalInput := (r.totalInput + buffer.length) % 2 ^ 32
        requestDataSize := r.requestDataSize - buffer.length
        allRequestDataReceived :=
          decide (r.requestDataSize ≤ buffer.length) || r.allRequestDataReceived
        since := r.since + buffer.length
        state := state
        tasks := tasks } := by
  simp only [DecoderInput.recvFrame, DecoderInput.countFrame_eq]
  split
  · next hstart => exact ⟨.buffering, _, .inr ⟨hstart.1, rfl⟩, rfl⟩
  · exact ⟨_, _, .inl rfl, rfl⟩

/-- A frame of any length is accounted for. -/
theorem DecoderInput.Accounted.recvFrame (h : r.Accounted) (d : DecoderConfig)
    (buffer : List UInt8) : (r.recvFrame d buffer).Accounted := by
  obtain ⟨hrequest, hall⟩ := h
  obtain ⟨state, tasks, -, heq⟩ := r.recvFrame_eq d buffer
  rw [heq]
  constructor
  · show r.requestDataSize - buffer.length = r.grant - (r.since + buffer.length)
    omega
  · simp only [Bool.or_eq_true, decide_eq_true_eq]
    rw [hall]
    omega

/-- Statements outside the bookkeeping leave the account alone. -/
theorem ApplyStmt.exec_accounted {stmt : ApplyStmt} (hstmt : stmt.bookkeeping = false)
    (h : c.toDecoderInput.Accounted) : (stmt.exec c).1.toDecoderInput.Accounted := by
  cases stmt with
  | clearAllReceived => cases hstmt
  | setRequestDataSize unitSize => cases hstmt
  | sendRawBufferSpace unitSize => cases hstmt
  | _ => exact ⟨h.request, h.allReceived⟩

/-! ## the code under interrupts -/

/-- Outside the window frames are handled, which keep the account and do not
reach the locals; inside nothing happens. -/
structure FrameRely (code : List ApplyStmt) (c c' : ApplyCtx) : Prop where
  window : InWindow code → c' = c
  applyUnit : c'.applyUnit = c.applyUnit
  accounted : c.toDecoderInput.Accounted → c'.toDecoderInput.Accounted

theorem FrameRely.refl (code : List ApplyStmt) (c : ApplyCtx) : FrameRely code c c :=
  ⟨fun _ => rfl, rfl, fun h => h⟩

theorem FrameRely.trans {code : List ApplyStmt} {c c' c'' : ApplyCtx}
    (h : FrameRely code c c') (h' : FrameRely code c' c'') : FrameRely code c c'' :=
  ⟨fun hw => (h'.window hw).trans (h.window hw), h'.applyUnit.trans h.applyUnit,
    fun hacc => h'.accounted (h.accounted hacc)⟩

/-- A frame that meets the condition is within the rely. -/
theorem frameRely_isr {d : DecoderConfig} {code : List ApplyStmt} {buffer : List UInt8}
    (h : ¬ InWindow code) : FrameRely code c (frameIsr d buffer c) :=
  ⟨fun hw => absurd hw h, rfl, fun hacc => hacc.recvFrame d buffer⟩

/-- The code from a point on ends with the grants accounted for. -/
abbrev EndsAccounted : List ApplyStmt → ApplyCtx → Prop :=
  EndsIn ApplyStmt.exec FrameRely fun c => c.toDecoderInput.Accounted

/-- Statements outside the bookkeeping may precede any code that needs the account. -/
theorem endsAccounted_append (before : List ApplyStmt) {rest : List ApplyStmt}
    (hbefore : ∀ stmt ∈ before, stmt.bookkeeping = false)
    (hrest : ∀ c : ApplyCtx, c.toDecoderInput.Accounted → EndsAccounted rest c)
    (h : c.toDecoderInput.Accounted) : EndsAccounted (before ++ rest) c :=
  endsIn_append before (P := fun c => c.toDecoderInput.Accounted)
    (fun _ _ _ _ _ hrely hacc => hrely.accounted hacc)
    (fun stmt hstmt _ hacc => stmt.exec_accounted (hbefore stmt hstmt) hacc)
    (fun stmt hstmt _ hacc _ => stmt.exec_accounted (hbefore stmt hstmt) hacc) hrest h

/-- A statement in the window is executed in the state it finds. -/
theorem endsAccounted_window {stmt : ApplyStmt} {rest : List ApplyStmt}
    (hwindow : InWindow (stmt :: rest)) (hgo : (stmt.exec c).2 = true)
    (h : EndsAccounted rest (stmt.exec c).1) : EndsAccounted (stmt :: rest) c := by
  intro c' hrely
  rw [hrely.window hwindow, hgo]
  exact h

/-- A fresh grant of a nonzero number of bytes is accounted for. -/
theorem accounted_fresh {grant : Nat} (hpos : grant ≠ 0) (hrequest : r.requestDataSize = grant)
    (hall : r.allRequestDataReceived = false) (hgrant : r.grant = grant) (hsince : r.since = 0) :
    r.Accounted := by
  constructor
  · rw [hrequest, hgrant, hsince]
    omega
  · rw [hall, hgrant, hsince]
    simp only [Bool.false_eq_true, false_iff]
    omega

/-- The two statements that compute the units and test them, before any code
that sends a grant of a nonzero number of bytes. -/
theorem endsAccounted_applyUnit {f : Nat → Nat} {unitSize : Nat} {core : List ApplyStmt}
    (hpos : ∀ leftSpace, f leftSpace ≠ 0 → f leftSpace * unitSize % 2 ^ 32 ≠ 0)
    (hcore : ∀ c : ApplyCtx, c.applyUnit * unitSize % 2 ^ 32 ≠ 0 → EndsAccounted core c)
    (h : c.toDecoderInput.Accounted) :
    EndsAccounted (.setApplyUnit f :: .ifApplyUnit :: core) c := by
  intro c1 h1
  have hacc := h1.accounted h
  intro c2 h2
  have hunit : c2.applyUnit = f c1.leftSpace := h2.applyUnit
  have hacc2 := h2.accounted ((ApplyStmt.setApplyUnit f).exec_accounted rfl hacc)
  show if (decide (c2.applyUnit ≠ 0)) = true then EndsAccounted core c2 else _
  by_cases hzero : c2.applyUnit = 0
  · rw [if_neg (by simp [hzero])]
    exact hacc2
  · rw [if_pos (by simp [hzero])]
    exact hcore c2 (by rw [hunit] at hzero ⊢; exact hpos _ hzero)

@[simp]
theorem grantCode_map (code : List ApplyStmt) : grantCode (code.map .grant) = code := by
  induction code with
  | nil => rfl
  | cons stmt code ih => exact congrArg (stmt :: ·) ih

/-- The code of a function from a point on ends with the grants accounted for. -/
abbrev EngineAccounted : List EngineStmt → ApplyCtx → Prop :=
  EndsIn EngineStmt.exec (fun code => FrameRely (grantCode code)) fun c =>
    c.toDecoderInput.Accounted

/-- Grant code as the code of a function. -/
theorem EndsAccounted.engine {code : List ApplyStmt} (h : EndsAccounted code c) :
    EngineAccounted (code.map .grant) c :=
  endsIn_map (fun _ _ => rfl) (fun code _ _ hrely => by rwa [grantCode_map] at hrely) h

/-- Before the grant code the engine functions read from the ring. -/
theorem engineAccounted_getData {code : List ApplyStmt} (bufferSize size : Nat)
    (hcode : ∀ c : ApplyCtx, c.toDecoderInput.Accounted → EndsAccounted code c)
    (h : c.toDecoderInput.Accounted) :
    EngineAccounted (.getData bufferSize size :: code.map .grant) c := by
  intro c' hrely
  have hacc := hrely.accounted h
  have hread : ((EngineStmt.getData bufferSize size).exec c').1.toDecoderInput.Accounted :=
    ⟨hacc.request, hacc.allReceived⟩
  exact (hcode _ hread).engine

/-! ## the two decoders -/

/-- A grant of `mp3_decoder.c` is never empty. -/
theorem mp3_applyUnit_pos (leftSpace : Nat) (h : mp3DecoderConfig.applyUnit leftSpace ≠ 0) :
    mp3DecoderConfig.applyUnit leftSpace * mp3DecoderConfig.unitSize % 2 ^ 32 ≠ 0 := by
  have hspace := sub32_lt (by decide : 4096 < 2 ^ 32) leftSpace
  have heq : mp3DecoderConfig.applyUnit leftSpace = sub32 (sub32 4096 leftSpace / 256) 1 := rfl
  have hsize : mp3DecoderConfig.unitSize = 256 := rfl
  rw [heq] at h ⊢
  rw [hsize]
  generalize sub32 4096 leftSpace = space at *
  by_cases hunit : 1 ≤ space / 256
  · rw [sub32_of_le hunit] at h ⊢
    rw [Nat.mod_eq_of_lt (by omega)]
    omega
  · have hzero : space / 256 = 0 := by omega
    rw [hzero]
    decide

/-- `msbc_decoder.c` never asks for more than its limit, unless the subtraction wraps. -/
theorem msbc_applyUnit_cases (leftSpace : Nat) :
    msbcDecoderConfig.applyUnit leftSpace < 32 ∨
      msbcDecoderConfig.applyUnit leftSpace = 2 ^ 32 - 1 := by
  have hlimit : msbcDecoderApplyLimit = 1824 := rfl
  have hsize : msbcSingleFrameSize = 57 := rfl
  have heq : msbcDecoderConfig.applyUnit leftSpace =
      if sub32 msbcDecoderBufferSize leftSpace > msbcDecoderApplyLimit then
        msbcDecoderApplyLimit / msbcSingleFrameSize - 1
      else sub32 (sub32 msbcDecoderBufferSize leftSpace / msbcSingleFrameSize) 1 := rfl
  rw [heq]
  generalize sub32 msbcDecoderBufferSize leftSpace = space
  rw [hlimit, hsize]
  split
  · exact .inl (by decide)
  · unfold sub32
    split <;> omega

theorem msbc_applyUnit_pos (leftSpace : Nat) (h : msbcDecoderConfig.applyUnit leftSpace ≠ 0) :
    msbcDecoderConfig.applyUnit leftSpace * msbcDecoderConfig.unitSize % 2 ^ 32 ≠ 0 := by
  have hsize : msbcDecoderConfig.unitSize = 57 := rfl
  rw [hsize]
  obtain hlt | heq := msbc_applyUnit_cases leftSpace
  · rw [Nat.mod_eq_of_lt (by omega)]
    omega
  · rw [heq]
    decide

/-- MP3: the counters are set first, the grant is sent last. -/
theorem mp3_apply_core {unitSize : Nat} (h : c.applyUnit * unitSize % 2 ^ 32 ≠ 0) :
    EndsAccounted [.clearAllReceived, .setRequestDataSize unitSize, .clearDynamicConsumed,
      .sendRawBufferSpace unitSize] c := by
  intro c' hrely
  refine endsAccounted_window (by decide : 0 < 2 ∧ 2 < 3) rfl ?_
  refine endsAccounted_window (by decide : 0 < 1 ∧ 1 < 3) rfl ?_
  refine endsAccounted_window (by decide : 0 < 1 ∧ 1 < 3) rfl ?_
  rw [← hrely.applyUnit] at h
  exact accounted_fresh h rfl rfl rfl rfl

/-- mSBC: the grant is sent first, the counters are set last. -/
theorem msbc_apply_core {unitSize : Nat} (h : c.applyUnit * unitSize % 2 ^ 32 ≠ 0) :
    EndsAccounted [.sendRawBufferSpace unitSize, .clearDynamicConsumed, .clearAllReceived,
      .setRequestDataSize unitSize] c := by
  intro c' hrely
  refine endsAccounted_window (by decide : 0 < 2 ∧ 2 < 3) rfl ?_
  refine endsAccounted_window (by decide : 0 < 2 ∧ 2 < 3) rfl ?_
  refine endsAccounted_window (by decide : 0 < 1 ∧ 1 < 3) rfl ?_
  rw [← hrely.applyUnit] at h
  exact accounted_fresh h rfl rfl rfl rfl

/-- The init functions of both decoders: whatever the state was, the first
grant is accounted for. -/
theorem init_core {unitSize units : Nat} (hpos : units * unitSize % 2 ^ 32 ≠ 0) :
    EndsAccounted [.clearInputIndex, .clearOutputIndex, .clearDynamicConsumed, .clearTotalInput,
      .setIdle, .setApplyUnit (fun _ => units), .sendRawBufferSpace unitSize, .clearAllReceived,
      .setRequestDataSize unitSize, .clearPrepForNext] c := by
  have hsend : ∀ c : ApplyCtx, EndsAccounted [.setApplyUnit (fun _ => units),
      .sendRawBufferSpace unitSize, .clearAllReceived, .setRequestDataSize unitSize,
      .clearPrepForNext] c := by
    intro c c1 _ c2 h2
    have hunit : c2.applyUnit = units := h2.applyUnit
    refine endsAccounted_window (by decide : 0 < 2 ∧ 2 < 3) rfl ?_
    refine endsAccounted_window (by decide : 0 < 1 ∧ 1 < 3) rfl ?_
    intro c3 h3
    refine (ApplyStmt.clearPrepForNext).exec_accounted rfl (h3.accounted ?_)
    rw [← hunit] at hpos
    exact accounted_fresh hpos rfl rfl rfl rfl
  exact endsIn_append (P := fun _ => True)
    [.clearInputIndex, .clearOutputIndex, .clearDynamicConsumed, .clearTotalInput,
      .setIdle] (fun _ _ _ _ _ _ _ => trivial) (fun _ _ _ _ => trivial)
    (by simp [ApplyStmt.exec]) (fun c _ => hsend c) trivial

theorem mp3_init_accounted (c : ApplyCtx) : EndsAccounted mp3DecoderInitCode c :=
  init_core (by decide)

theorem mp3_apply_accounted (bytesConsumed : Nat) (h : c.toDecoderInput.Accounted) :
    EndsAccounted (mp3DecoderApplyCode bytesConsumed) c :=
  endsAccounted_append [.addConsumed bytesConsumed,
      .ifRequestDue mp3DecoderConfig.requestDataThd,
      .readLeftSpace mp3DecoderConfig.bufferSize] (by simp [ApplyStmt.bookkeeping])
    (fun _ hc => endsAccounted_applyUnit mp3_applyUnit_pos (fun _ hpos => mp3_apply_core hpos) hc)
    h

/-- Every function of `mp3_decoder.c` ends with the grants accounted for. -/
theorem mp3_program_accounted (call : DecoderCall) (c : ApplyCtx)
    (h : c.toDecoderInput.Accounted) : EngineAccounted (mp3DecoderProgram call) c := by
  cases call with
  | init available => exact (mp3_init_accounted c).engine
  | engineStart size bytesConsumed available =>
      exact engineAccounted_getData _ size (fun _ hc => mp3_apply_accounted bytesConsumed hc) h
  | engineDecode size bytesConsumed available =>
      exact engineAccounted_getData _ size (fun _ hc => mp3_apply_accounted bytesConsumed hc) h

/-- With a channel, `msbc_decoder_init` starts from any state. -/
theorem msbc_init_accounted (c : ApplyCtx) : EndsAccounted (msbcDecoderInitCode true) c := by
  intro c' _
  exact init_core (by decide)

theorem msbc_apply_accounted (bytesConsumed : Nat) (available : Bool)
    (h : c.toDecoderInput.Accounted) :
    EndsAccounted (msbcDecoderApplyCode bytesConsumed available) c :=
  endsAccounted_append [.addConsumed bytesConsumed,
      .ifRequestDue msbcDecoderConfig.requestDataThd, .ifChannel available,
      .readLeftSpace msbcDecoderConfig.bufferSize] (by simp [ApplyStmt.bookkeeping])
    (fun _ hc => endsAccounted_applyUnit msbc_applyUnit_pos (fun _ hpos => msbc_apply_core hpos)
      hc) h

/-- Every function of `msbc_decoder.c` ends with the grants accounted for. -/
theorem msbc_program_accounted (call : DecoderCall) (c : ApplyCtx)
    (h : c.toDecoderInput.Accounted) : EngineAccounted (msbcDecoderProgram call) c := by
  cases call with
  | init available =>
      cases available with
      | true => exact (msbc_init_accounted c).engine
      | false => exact fun c' hrely => hrely.accounted h
  | engineStart size bytesConsumed available =>
      exact engineAccounted_getData _ size
        (fun _ hc => msbc_apply_accounted bytesConsumed available hc) h
  | engineDecode size bytesConsumed available =>
      exact engineAccounted_getData _ size
        (fun _ hc => msbc_apply_accounted bytesConsumed available hc) h

/-- A frame is within the rely, and keeps the account of the idle decoder. -/
theorem run_accounted {d : DecoderConfig} {program : DecoderCall → List EngineStmt}
    (hprogram : ∀ call (c : ApplyCtx), c.toDecoderInput.Accounted →
      EngineAccounted (program call) c)
    {t t' : TaskState EngineStmt ApplyCtx} {es : List (TaskEvent DecoderCall (List UInt8))}
    (h : EngineAccounted t.code t.state)
    (hC : Along (taskStep EngineStmt.exec (frameIsr d) program) NoFrameInWindow t es)
    (hrun : run (taskStep EngineStmt.exec (frameIsr d) program) t es = some t')
    (hdone : t'.code = []) : t'.state.toDecoderInput.Accounted := by
  have hrely : ∀ (code : List EngineStmt) (c : ApplyCtx) (buffer : List UInt8),
      NoFrameInWindow ⟨code, c⟩ (.interrupt buffer) →
        FrameRely (grantCode code) c (frameIsr d buffer c) :=
    fun _ _ _ hC => frameRely_isr hC
  have hidle : ∀ (c : ApplyCtx) (buffer : List UInt8),
      NoFrameInWindow ⟨[], c⟩ (.interrupt buffer) → c.toDecoderInput.Accounted →
        (frameIsr d buffer c).toDecoderInput.Accounted :=
    fun _ buffer _ hacc => hacc.recvFrame d buffer
  exact run_endsIn (fun _ _ _ _ h h' => h.trans h') hrely (fun code => FrameRely.refl _) hidle
    hprogram h hC hrun hdone

/-- **Credit accounting**: after any interleaving of frames with the code that
sends the grants, starting with an init function in any state, the idle
decoder has accounted for everything granted and received, if no frame was
handled in the window. -/
theorem credit_accounting (c : ApplyCtx) (es : List (TaskEvent DecoderCall (List UInt8)))
    (t : TaskState EngineStmt ApplyCtx) :
    (Along (taskStep EngineStmt.exec (frameIsr mp3DecoderConfig) mp3DecoderProgram)
        NoFrameInWindow ⟨mp3DecoderProgram (.init true), c⟩ es →
      run (taskStep EngineStmt.exec (frameIsr mp3DecoderConfig) mp3DecoderProgram)
        ⟨mp3DecoderProgram (.init true), c⟩ es = some t →
      t.code = [] → t.state.toDecoderInput.Accounted) ∧
    (Along (taskStep EngineStmt.exec (frameIsr msbcDecoderConfig) msbcDecoderProgram)
        NoFrameInWindow ⟨msbcDecoderProgram (.init true), c⟩ es →
      run (taskStep EngineStmt.exec (frameIsr msbcDecoderConfig) msbcDecoderProgram)
        ⟨msbcDecoderProgram (.init true), c⟩ es = some t →
      t.code = [] → t.state.toDecoderInput.Accounted) := by
  constructor
  · intro hC hrun hdone
    exact run_accounted mp3_program_accounted (mp3_init_accounted c).engine hC hrun hdone
  · intro hC hrun hdone
    exact run_accounted msbc_program_accounted (msbc_init_accounted c).engine hC hrun hdone

/-- A session of a decoder, with a frame before it: `n` statements of the init function, `frames`
of `length` bytes each; then `engine_decode` reads `size` bytes and `consumed` are consumed in `m`
statements, and one more frame arrives. -/
def creditSession (n frames length size consumed m : Nat) :
    List (TaskEvent DecoderCall (List UInt8)) :=
  .interrupt [1, 2] :: List.replicate n .stmt ++
    List.replicate frames (.interrupt (List.replicate length 3)) ++
    .call (.engineDecode size consumed true) :: List.replicate m .stmt ++ [.interrupt [4, 5, 6]]

/-- What the run of a session leads to. -/
theorem creditSession_view {d : DecoderConfig} {program : DecoderCall → List EngineStmt}
    {t : TaskState EngineStmt ApplyCtx} {es : List (TaskEvent DecoderCall (List UInt8))}
    {grant out : Nat}
    (h : (run (taskStep EngineStmt.exec (frameIsr d) program) t es).map
      (fun t => (t.code.length, t.state.grant, t.state.ring.out)) = some (0, grant, out)) :
    ∃ t', run (taskStep EngineStmt.exec (frameIsr d) program) t es = some t' ∧ t'.code = [] ∧
      t'.state.grant = grant ∧ t'.state.ring.out = out := by
  obtain ⟨t', hrun, hview⟩ := Option.map_eq_some_iff.mp h
  obtain ⟨hcode, hrest⟩ := Prod.mk.inj hview
  obtain ⟨hgrant, hout⟩ := Prod.mk.inj hrest
  exact ⟨t', hrun, List.length_eq_zero_iff.mp hcode, hgrant, hout⟩

/-- Both decoders with two grants.  The second one of `mp3_decoder.c` is 2048 bytes, for what the
1792 unread ones leave; `msbc_decoder.c` grants 31 frames each time. -/
theorem credit_accounting_init :
    (∃ t, run (taskStep EngineStmt.exec (frameIsr mp3DecoderConfig) mp3DecoderProgram)
        ⟨mp3DecoderProgram (.init true), ⟨DecoderInput.zeroed, 0, 0⟩⟩
        (creditSession 10 8 480 2048 1500 10) = some t ∧
      t.state.grant = 2048 ∧ t.state.ring.out = 2048 ∧ t.state.toDecoderInput.Accounted) ∧
    (∃ t, run (taskStep EngineStmt.exec (frameIsr msbcDecoderConfig) msbcDecoderProgram)
        ⟨msbcDecoderProgram (.init true), ⟨DecoderInput.zeroed, 0, 0⟩⟩
        (creditSession 11 31 57 1000 600 11) = some t ∧
      t.state.grant = 1767 ∧ t.state.ring.out = 1000 ∧ t.state.toDecoderInput.Accounted) := by
  have hmp3 : Along (taskStep EngineStmt.exec (frameIsr mp3DecoderConfig) mp3DecoderProgram)
      NoFrameInWindow ⟨mp3DecoderProgram (.init true), ⟨DecoderInput.zeroed, 0, 0⟩⟩
      (creditSession 10 8 480 2048 1500 10) := by
    decide +kernel
  have hmsbc : Along (taskStep EngineStmt.exec (frameIsr msbcDecoderConfig) msbcDecoderProgram)
      NoFrameInWindow ⟨msbcDecoderProgram (.init true), ⟨DecoderInput.zeroed, 0, 0⟩⟩
      (creditSession 11 31 57 1000 600 11) := by
    decide +kernel
  have hview : (run (taskStep EngineStmt.exec (frameIsr mp3DecoderConfig) mp3DecoderProgram)
        ⟨mp3DecoderProgram (.init true), ⟨DecoderInput.zeroed, 0, 0⟩⟩
        (creditSession 10 8 480 2048 1500 10)).map
      (fun t => (t.code.length, t.state.grant, t.state.ring.out)) = some (0, 2048, 2048) := by
    decide +kernel
  have hview' : (run (taskStep EngineStmt.exec (frameIsr msbcDecoderConfig) msbcDecoderProgram)
        ⟨msbcDecoderProgram (.init true), ⟨DecoderInput.zeroed, 0, 0⟩⟩
        (creditSession 11 31 57 1000 600 11)).map
      (fun t => (t.code.length, t.state.grant, t.state.ring.out)) = some (0, 1767, 1000) := by
    decide +kernel
  obtain ⟨t, hrun, hcode, hgrant, hout⟩ := creditSession_view hview
  obtain ⟨t', hrun', hcode', hgrant', hout'⟩ := creditSession_view hview'
  exact ⟨⟨t, hrun, hgrant, hout, (credit_accounting _ _ _).1 hmp3 hrun hcode⟩,
    ⟨t', hrun', hgrant', hout', (credit_accounting _ _ _).2 hmsbc hrun' hcode'⟩⟩

/-- **The lost update**: `mp3_decoder_init` sends the first grant before it
sets its counters, so a frame handled right after the message is not counted. -/
theorem credit_lost_update :
    ¬ ∀ (c : ApplyCtx) (es : List (TaskEvent DecoderCall (List UInt8)))
        (t : TaskState EngineStmt ApplyCtx),
      run (taskStep EngineStmt.exec (frameIsr mp3DecoderConfig) mp3DecoderProgram)
        ⟨mp3DecoderProgram (.init true), c⟩ es = some t →
      t.code = [] → t.state.toDecoderInput.Accounted := by
  intro hclaim
  have hacc := hclaim ⟨DecoderInput.zeroed, 0, 0⟩
    (List.replicate 7 .stmt ++ .interrupt [1, 2, 3] :: List.replicate 3 .stmt) _ rfl rfl
  have hrequest : (3840 : Nat) = 3840 - 3 := hacc.request
  omega

end Fr5080
