import Fr5080.Decoder.Mp3
import Fr5080.Embedded.Heap
import Fr5080.Embedded.Sched

/-!
# Fr5080.Decoder.Session

The sessions of the MP3 decoder in SBC playback (`fr5080_user_code_xip`:
`main.c`, `mp3_decoder.c`, `sbc_encoder.c`).  The MCU starts a session, sends
frames, asks for SBC frames and ends the session; `ipc_rx_user_handler` copies
the frames in the interrupt and leaves the rest to the task queue.

The handlers of the four messages are code of statements, because an interrupt
may come between any two of them.  An engine function is one statement, and so
are the two functions of the encoder: they leave alone the state of the decoder,
`total_input` and `mp3_decoder_buffer`, so it is all the same where in them a
frame arrives.

The codec and the encoder are libraries, and the heap and the IPC driver may
refuse: what they answer is the answer of the statement.  The task messages
themselves are always allocated.
-/

namespace Fr5080

open Embedded

/-! ## data -/

/-- The messages of the task queue that concern the decoder. -/
inductive SessionMsg
  | mp3DecoderInit
  | mp3DecoderDoDecode
  | mcuNeedMoreSbcData
  | decoderPrepareForNext
deriving DecidableEq, Repr

/-- The messages of the MCU that concern the decoder. -/
inductive SessionIpc
  | rawFrame (buffer : List UInt8)
  | decoderStart
  | needMoreSbc
  | decoderPrepNext

/-- The messages to the MCU, apart from the grants. -/
inductive SessionReply
  | encodedSbcFrame (frames : List (List UInt8))
  | decoderPrepReady

/-- The variables of `sbc_encoder.c`; `encodedFrames` is its list with
`sbc_encoder_encoded_frame_count` elements. -/
structure SbcEncoder where
  ready : Bool
  prepForNext : Bool
  encodedFrames : List (List UInt8)

/-- What is assigned to `mp3_decoder_buffer`, or done to its block. -/
inductive BufferOp
  | allocated
  | failed
  | freed
  | cleared
deriving DecidableEq, Repr

/-- The variables of a session.  `buffer` is `mp3_decoder_buffer`, `codecBlocks` are
the first `g_w_malloc_count` elements of `g_pv_arr_alloc_memory`, and `applyUnit` is the local
of `mp3_decoder_init`.

History variables: `initRan` (`mp3_decoder_init` has reset the state at least once),
`bufferOps`, and `copies`, the destination of every frame with data and the heap at that time. -/
structure Mp3Session where
  dec : Mp3Decoder
  applyUnit : Nat
  heap : Heap
  buffer : Option Nat
  codecBlocks : List (Option Nat)
  encoder : SbcEncoder
  replies : List SessionReply
  initRan : Bool
  bufferOps : List BufferOp
  copies : List (Option Nat × Heap)

/-- The variables as the start-up code leaves them. -/
def Mp3Session.zeroed : Mp3Session where
  dec := .zeroed
  applyUnit := 0
  heap := .empty
  buffer := none
  codecBlocks := []
  encoder := ⟨false, false, []⟩
  replies := []
  initRan := false
  bufferOps := []
  copies := []

/-- What a statement may be answered; each uses what concerns it. -/
structure SessionAnswer where
  /-- whether the buffer of 4096 bytes can be allocated -/
  bufferAlloc : Bool
  /-- the same for the blocks of the codec -/
  codecAllocs : List Bool
  codec : Mp3Answers
  /-- the frames that the encoder makes of the decoded data -/
  encoded : List (List UInt8)
  /-- whether `ipc_alloc_channel` succeeds -/
  channel : Bool

/-! ## the SBC encoder -/

/-- `SBC_A2DP_SUB_FRAME_COUNT`. -/
def sbcA2dpSubFrameCount : Nat := 5

/-- `sbc_encoder_init`. -/
def sbcEncoderInit (_ : SbcEncoder) : SbcEncoder where
  ready := true
  prepForNext := false
  encodedFrames := []

/-- `sbc_encoder_destroy`. -/
def sbcEncoderDestroy (e : SbcEncoder) : SbcEncoder :=
  { e with encodedFrames := [], ready := false }

/-- `sbc_encoder_recv_frame`, with the frames that the library returns. -/
def sbcEncoderRecvFrame (encoded : List (List UInt8)) (e : SbcEncoder) : SbcEncoder :=
  if e.ready = false then e else { e with encodedFrames := e.encodedFrames ++ encoded }

/-- The part of `sbc_encoder_recv_frame_req` that has a channel. -/
def SbcEncoder.sendFrames (e : SbcEncoder) : SbcEncoder × List SessionReply × List SessionMsg :=
  let sent := e.encodedFrames.take sbcA2dpSubFrameCount
  let e := { e with encodedFrames := e.encodedFrames.drop sbcA2dpSubFrameCount }
  if 2 + sent.flatten.length > 2 then (e, [.encodedSbcFrame sent], [])
  else if e.prepForNext then ({ e with ready := false }, [], [.decoderPrepareForNext])
  else (e, [], [])

/-- `sbc_encoder_recv_frame_req`: the encoder, the messages sent, the messages posted. -/
def sbcEncoderRecvFrameReq (channel : Bool) (e : SbcEncoder) :
    SbcEncoder × List SessionReply × List SessionMsg :=
  if e.ready = false then (e, [], [])
  else
    let (e, replies, posted) := if channel then e.sendFrames else (e, [], [])
    if e.ready ∧ e.encodedFrames.length < sbcA2dpSubFrameCount then
      (e, replies, posted ++ [.mp3DecoderDoDecode])
    else (e, replies, posted)

/-! ## what the engine leaves alone -/

/-- What stays as it is while the engine runs. -/
structure EngineFrame (d d' : Mp3Decoder) : Prop where
  state : d'.state = d.state
  totalInput : d'.totalInput = d.totalInput
  tasks : d'.tasks = d.tasks

theorem Mp3Decoder.codecCall_frame (consume : Consumption) (d : Mp3Decoder) :
    EngineFrame d (d.codecCall consume) := by
  simp only [codecCall, runCode_mp3DecoderApplyCode]
  split
  · exact ⟨rfl, rfl, rfl⟩
  · exact ⟨rfl, rfl, rfl⟩

theorem mp3DecoderEngineStart_frame (initDone : Option Nat) (consume : Consumption)
    (d : Mp3Decoder) : EngineFrame d (mp3DecoderEngineStart initDone consume d) := by
  obtain ⟨hstate, htotal, htasks⟩ := Mp3Decoder.codecCall_frame consume _
  exact ⟨hstate, htotal, htasks⟩

theorem mp3DecoderEngineDecode_frame (consume : Consumption) (d : Mp3Decoder) :
    EngineFrame d (mp3DecoderEngineDecode consume d) := by
  simp only [mp3DecoderEngineDecode]
  split
  · exact ⟨rfl, rfl, rfl⟩
  · obtain ⟨hstate, htotal, htasks⟩ := Mp3Decoder.codecCall_frame consume _
    exact ⟨hstate, htotal, htasks⟩

/-! ## the task side -/

/-- A statement of a handler. -/
inductive SessionStmt
  /-- `ui_init_done = 0; ui_exec_done = 0` -/
  | clearInitDone
  /-- `mp3_decoder_buffer = mp3_mem_alloc(MP3_DECODER_BUFFER_SIZE)` -/
  | allocBuffer
  /-- a statement of `mp3_decoder_init` on the input variables -/
  | initInput (c : ApplyStmt)
  /-- `switch(mp3_decoder_state)` -/
  | switchState
  /-- `state = BUFFERING` -/
  | setBuffering
  /-- `if(MP3_DECODER_BUFFERING_LIMIT <= mp3_decoder_total_input)` -/
  | ifBuffered
  /-- `mp3_decoder_engine_init()` -/
  | engineInit
  /-- `state = INITIATING` -/
  | setInitiating
  /-- `mp3_decoder_engine_start()` -/
  | engineStart
  /-- the comparison of its result with 1 -/
  | ifStarted
  /-- `state = DECODING` -/
  | setDecoding
  /-- `mp3_decoder_engine_decode()` -/
  | engineDecode
  /-- `sbc_encoder_recv_frame_req` -/
  | recvFrameReq
  /-- the loop of `mp3_decoder_destroy` at index `i` -/
  | freeCodecBlock (i : Nat)
  /-- `g_w_malloc_count = 0` -/
  | clearMallocCount
  /-- `mp3_mem_free(mp3_decoder_buffer)` -/
  | freeBuffer
  /-- `mp3_decoder_buffer = NULL` -/
  | clearBuffer
  /-- a statement of `mp3_decoder_destroy` on the input variables -/
  | destroyInput (c : ApplyStmt)
  /-- `sbc_encoder_destroy()` -/
  | destroyEncoder
  /-- `ipc_msg_send` of `IPC_SUB_MSG_DECODER_PREP_READY` -/
  | sendPrepReady

/-- `case MP3_DECODER_DECODING`. -/
def decodingCase : List SessionStmt := [.engineDecode]

/-- `case MP3_DECODER_INITIATING`. -/
def initiatingCase : List SessionStmt := [.engineStart, .ifStarted]

/-- `case MP3_DECODER_BUFFERING`. -/
def bufferingCase : List SessionStmt := [.ifBuffered]

/-- `case MP3_DECODER_IDLE`. -/
def idleCase : List SessionStmt := [.setBuffering]

/-- The handlers of `user_msg_handler`: `mp3_decoder_init`, `mp3_decoder_do_decoder_handler`,
`sbc_encoder_recv_frame_req` and `decoder_prepare_for_next_handler` with
`mp3_decoder_destroy`. -/
def userMsgHandler : SessionMsg → List SessionStmt
  | .mp3DecoderInit => .clearInitDone :: .allocBuffer :: mp3DecoderInitCode.map .initInput
  | .mp3DecoderDoDecode => [.switchState]
  | .mcuNeedMoreSbcData => [.recvFrameReq]
  | .decoderPrepareForNext =>
      [.freeCodecBlock 0, .clearMallocCount, .freeBuffer, .clearBuffer,
        .destroyInput .clearDynamicConsumed, .destroyInput .clearTotalInput,
        .destroyInput .setIdle, .destroyInput .clearAllReceived, .destroyEncoder, .sendPrepReady]

/-- A statement on the input variables, with the local `apply_unit`. -/
def Mp3Session.input (c : ApplyStmt) (s : Mp3Session) : Mp3Session :=
  let ctx := (c.exec ⟨s.dec.toDecoderInput, 0, s.applyUnit⟩).1
  { s with dec := { s.dec with toDecoderInput := ctx.toDecoderInput }, applyUnit := ctx.applyUnit }

/-- The state of the decoder is assigned. -/
def Mp3Session.setState (state : DecoderState) (s : Mp3Session) : Mp3Session :=
  { s with dec := { s.dec with state := state } }

/-- The statement is `state = IDLE`. -/
def ApplyStmt.resetsState : ApplyStmt → Bool
  | .setIdle => true
  | _ => false

/-- Only the assignment of IDLE and the reset of `total_input` concern the start. -/
theorem ApplyStmt.exec_start (c : ApplyStmt) (x : ApplyCtx) :
    ((c.exec x).1.totalInput = x.totalInput ∨ (c.exec x).1.totalInput = 0) ∧
      if c.resetsState then (c.exec x).1.state = .idle ∧ (c.exec x).1.totalInput = x.totalInput
      else (c.exec x).1.state = x.state := by
  cases c <;> simp [exec, resetsState]

/-- The message that is inserted. -/
def SessionMsg.ofTask : DecoderTask → SessionMsg
  | .doDecode => .mp3DecoderDoDecode

/-- The effect of a statement. -/
def SessionStmt.exec (a : SessionAnswer) (s : Mp3Session) :
    SessionStmt → Effect SessionStmt SessionMsg Mp3Session
  | .clearInitDone => .goOn { s with
      dec := { s.dec with
        codec := { s.dec.codec with consumed := [], calls := [] }
        initDone := 0
        engineReady := false
        received := [] } }
  | .allocBuffer => .goOn { s with
      buffer := (s.heap.malloc a.bufferAlloc).1
      heap := (s.heap.malloc a.bufferAlloc).2
      bufferOps := s.bufferOps ++ [if a.bufferAlloc then .allocated else .failed] }
  | .initInput c => .goOn { s.input c with initRan := s.initRan || c.resetsState }
  | .switchState => match s.dec.state with
    | .idle => ⟨s, [], some idleCase⟩
    | .buffering => ⟨s, [], some bufferingCase⟩
    | .initiating => ⟨s, [], some initiatingCase⟩
    | .decoding => ⟨s, [], some decodingCase⟩
    | .pcmTransmitting => .goOn s
  -- the assignments of the state fall through to the next case
  | .setBuffering => ⟨s.setState .buffering, [], some bufferingCase⟩
  | .ifBuffered =>
      if mp3DecoderConfig.bufferingLimit ≤ s.dec.totalInput then
        ⟨s, [], some [.engineInit, .setInitiating]⟩
      else .goOn s
  | .engineInit => .goOn { s with
      dec := mp3DecoderEngineInit a.codec.inpSize s.dec
      codecBlocks := s.codecBlocks ++ (s.heap.mallocs a.codecAllocs).1
      heap := (s.heap.mallocs a.codecAllocs).2 }
  | .setInitiating => ⟨s.setState .initiating, [], some initiatingCase⟩
  | .engineStart => .goOn { s with
      dec := mp3DecoderEngineStart a.codec.initDone a.codec.startConsume s.dec
      encoder := if a.codec.initDone.getD 0 ≠ 0 then sbcEncoderInit s.encoder else s.encoder }
  | .ifStarted =>
      if s.dec.initDone % 256 = 1 then ⟨s, [], some [.setDecoding]⟩
      else if s.dec.prepForNext = false then
        ⟨{ s with dec := { s.dec with tasks := s.dec.tasks ++ [.doDecode] } },
          [.mp3DecoderDoDecode], some []⟩
      else .goOn s
  | .setDecoding => ⟨s.setState .decoding, [], some decodingCase⟩
  | .engineDecode => .goOn { s with
      dec := mp3DecoderEngineDecode a.codec.decodeConsume s.dec
      encoder := sbcEncoderRecvFrame a.encoded s.encoder }
  | .recvFrameReq =>
      let (encoder, replies, posted) := sbcEncoderRecvFrameReq a.channel s.encoder
      ⟨{ s with encoder := encoder, replies := s.replies ++ replies }, posted, some []⟩
  | .freeCodecBlock i => match s.codecBlocks[i]? with
    | some p => ⟨{ s with heap := s.heap.free p }, [], some [.freeCodecBlock (i + 1)]⟩
    | none => .goOn s
  | .clearMallocCount => .goOn { s with codecBlocks := [] }
  | .freeBuffer => .goOn { s with
      heap := s.heap.free s.buffer, bufferOps := s.bufferOps ++ [.freed] }
  | .clearBuffer => .goOn { s with buffer := none, bufferOps := s.bufferOps ++ [.cleared] }
  | .destroyInput c => .goOn (s.input c)
  | .destroyEncoder => .goOn { s with encoder := sbcEncoderDestroy s.encoder }
  | .sendPrepReady => .goOn { s with replies := s.replies ++ [.decoderPrepReady] }

/-! ## the interrupt side -/

/-- `ipc_rx_user_handler`: the messages it posts stand in the second component. -/
def ipcRxUserHandler (s : Mp3Session) : SessionIpc → Mp3Session × List SessionMsg
  | .rawFrame buffer =>
      let dec := mp3DecoderRecvFrame buffer s.dec
      ({ s with
          dec := dec
          copies := if buffer = [] then s.copies else s.copies ++ [(s.buffer, s.heap)] },
        (dec.tasks.drop s.dec.tasks.length).map .ofTask)
  | .decoderStart => (s, [.mp3DecoderInit])
  | .needMoreSbc => (s, [.mcuNeedMoreSbcData])
  | .decoderPrepNext => (s, [.decoderPrepareForNext])

/-- The task and its interrupts. -/
abbrev SessionSched := Sched SessionStmt SessionMsg Mp3Session

/-- An event of a session; nothing is called from outside. -/
abbrev SessionEvent := SchedEvent Empty SessionAnswer SessionIpc

/-- One step of the task queue and its interrupts. -/
def sessionStep : SessionSched → SessionEvent → Option SessionSched :=
  schedStep (fun p => p.elim) userMsgHandler (fun c a s => some (c.exec a s))
    (fun e s => some (ipcRxUserHandler s e))

/-- After power-up the task is idle and its queue empty. -/
def SessionSched.start : SessionSched := ⟨[], [], .zeroed⟩

/-- All that a step can do. -/
theorem sessionStep_cases {code : List SessionStmt} {queue : List SessionMsg} {s : Mp3Session}
    {e : SessionEvent} {t' : SessionSched} (h : sessionStep ⟨code, queue, s⟩ e = some t') :
    (∃ m rest, e = .dispatch ∧ code = [] ∧ queue = m :: rest ∧
        t' = ⟨userMsgHandler m, rest, s⟩) ∨
      (∃ c cs a, e = .stmt a ∧ code = c :: cs ∧
        t' = ⟨(c.exec a s).code cs, queue ++ (c.exec a s).posted, (c.exec a s).state⟩) ∨
      ∃ i, e = .interrupt i ∧
        t' = ⟨code, queue ++ (ipcRxUserHandler s i).2, (ipcRxUserHandler s i).1⟩ := by
  obtain ⟨p, -⟩ | ⟨m, rest, rfl, rfl, rfl, rfl⟩ | ⟨c, cs, a, r, rfl, rfl, hexec, rfl⟩ |
    ⟨i, s', posted, rfl, hisr, rfl⟩ := schedStep_cases h
  · exact p.elim
  · exact .inl ⟨m, rest, rfl, rfl, rfl, rfl⟩
  · cases Option.some.inj hexec
    exact .inr (.inl ⟨c, cs, a, rfl, rfl, rfl⟩)
  · have hpair := Option.some.inj hisr
    exact .inr (.inr ⟨i, rfl, by rw [hpair]⟩)

/-! ## events of particular runs -/

/-- The allocations succeed; the codec starts at once and consumes nothing. -/
def SessionAnswer.quiet : SessionAnswer where
  bufferAlloc := true
  codecAllocs := [true]
  codec := ⟨0, some 1, consumeUpTo 0, consumeUpTo 0⟩
  encoded := []
  channel := true

/-- The next message is taken from the queue, and its handler executes `n` statements. -/
def handling (n : Nat) : List SessionEvent :=
  .dispatch :: List.replicate n (.stmt .quiet)

/-- Four frames of 512 bytes arrive. -/
def fourFrames : List SessionEvent :=
  List.replicate 4 (.interrupt (.rawFrame (List.replicate 512 0)))

/-! ## the handlers without interrupts -/

section

variable {a : SessionAnswer} {queue : List SessionMsg} {s : Mp3Session}
  {Q : List SessionMsg → Mp3Session → Prop}

/-- The next statement, and the code behind it. -/
theorem executes_cons {c : SessionStmt} {cs : List SessionStmt}
    {r : Effect SessionStmt SessionMsg Mp3Session} (hexec : c.exec a s = r)
    (h : Executes sessionStep a ⟨r.code cs, queue ++ r.posted, r.state⟩ Q) :
    Executes sessionStep a ⟨c :: cs, queue, s⟩ Q := by
  subst hexec
  exact .stmt rfl h

/-- A statement that posts nothing. -/
theorem executes_next {c : SessionStmt} {cs next : List SessionStmt} {s' : Mp3Session}
    (hexec : c.exec a s = ⟨s', [], some next⟩)
    (h : Executes sessionStep a ⟨next ++ cs, queue, s'⟩ Q) :
    Executes sessionStep a ⟨c :: cs, queue, s⟩ Q := by
  refine executes_cons hexec ?_
  rw [List.append_nil]
  exact h

/-- A list of statements on the input variables of `mp3_decoder_init`. -/
theorem executes_initInput {cs : List ApplyStmt}
    (h : Q queue (cs.foldl (fun s c =>
      { s.input c with initRan := s.initRan || c.resetsState }) s)) :
    Executes sessionStep a ⟨cs.map .initInput, queue, s⟩ Q := by
  induction cs generalizing s with
  | nil => exact .done h
  | cons c cs ih => exact executes_next rfl (ih h)

/-- The handler of `MP3_DECODER_INIT` is `mp3_decoder_init`. -/
theorem executes_mp3DecoderInit :
    Executes sessionStep a ⟨userMsgHandler .mp3DecoderInit, queue, s⟩ fun queue' s' =>
      queue' = queue ∧ s'.dec = mp3DecoderInit s.dec ∧
        (s'.buffer, s'.heap) = s.heap.malloc a.bufferAlloc ∧ s'.initRan = true := by
  refine executes_next rfl (executes_next rfl (executes_initInput ⟨rfl, rfl, rfl, ?_⟩))
  simp [mp3DecoderInitCode, ApplyStmt.resetsState]

/-- The decoder after a handler, which has inserted the messages added to `tasks`. -/
def DoDecoded (queue : List SessionMsg) (d d' : Mp3Decoder) (queue' : List SessionMsg)
    (s' : Mp3Session) : Prop :=
  s'.dec = d' ∧ ∃ tasks, d'.tasks = d.tasks ++ tasks ∧ queue' = queue ++ tasks.map .ofTask

theorem executes_decodingCase : Executes sessionStep a ⟨decodingCase, queue, s⟩
    (DoDecoded queue s.dec (s.dec.decodingCase a.codec)) := by
  refine executes_next rfl (.done ⟨rfl, [], ?_, by simp⟩)
  simp [Mp3Decoder.decodingCase, (mp3DecoderEngineDecode_frame _ _).tasks]

/-- What follows the comparison of the result of `engine_start`. -/
theorem executes_ifStarted : Executes sessionStep a ⟨[.ifStarted], queue, s⟩
    (DoDecoded queue s.dec
      (if s.dec.initDone % 256 = 1 then { s.dec with state := .decoding }.decodingCase a.codec
      else if s.dec.prepForNext = false then { s.dec with tasks := s.dec.tasks ++ [.doDecode] }
      else s.dec)) := by
  split
  · next hstarted => exact executes_next (if_pos hstarted) (executes_next rfl executes_decodingCase)
  · next hstarted =>
      split
      · next hprep =>
          have hexec : SessionStmt.exec a s .ifStarted =
              ⟨{ s with dec := { s.dec with tasks := s.dec.tasks ++ [.doDecode] } },
                [.mp3DecoderDoDecode], some []⟩ := by
            simp [SessionStmt.exec, hstarted, hprep]
          exact executes_cons hexec (.done ⟨rfl, [.doDecode], rfl, rfl⟩)
      · next hprep =>
          have hexec : SessionStmt.exec a s .ifStarted = ⟨s, [], some []⟩ := by
            simp [SessionStmt.exec, Effect.goOn, hstarted, hprep]
          exact executes_next hexec (.done ⟨rfl, [], by simp, by simp⟩)

/-- A handler that goes on with a decoder whose messages are those of `d`. -/
theorem DoDecoded.congr {d d1 d' : Mp3Decoder} (htasks : d1.tasks = d.tasks) :
    DoDecoded queue d1 d' = DoDecoded queue d d' := by
  funext queue' s'
  simp only [DoDecoded, htasks]

theorem executes_initiatingCase : Executes sessionStep a ⟨initiatingCase, queue, s⟩
    (DoDecoded queue s.dec (s.dec.initiatingCase a.codec)) := by
  have hframe := mp3DecoderEngineStart_frame a.codec.initDone a.codec.startConsume s.dec
  rw [← DoDecoded.congr hframe.tasks]
  exact executes_next rfl executes_ifStarted

theorem executes_bufferingCase : Executes sessionStep a ⟨bufferingCase, queue, s⟩
    (DoDecoded queue s.dec (s.dec.bufferingCase a.codec)) := by
  by_cases hlimit : mp3DecoderConfig.bufferingLimit ≤ s.dec.totalInput
  · rw [Mp3Decoder.bufferingCase, if_pos hlimit]
    exact executes_next (if_pos hlimit)
      (executes_next rfl (executes_next rfl executes_initiatingCase))
  · rw [Mp3Decoder.bufferingCase, if_neg hlimit]
    exact executes_next (if_neg hlimit) (.done ⟨rfl, [], by simp, by simp⟩)

/-- The handler of `MP3_DECODER_DO_DECODE` is `mp3_decoder_do_decoder_handler`. -/
theorem executes_mp3DecoderDoDecode :
    Executes sessionStep a ⟨userMsgHandler .mp3DecoderDoDecode, queue, s⟩
      (DoDecoded queue s.dec (mp3DecoderDoDecoderHandler a.codec s.dec)) := by
  unfold mp3DecoderDoDecoderHandler
  cases hstate : s.dec.state with
  | idle =>
      have hexec : SessionStmt.exec a s .switchState = ⟨s, [], some idleCase⟩ := by
        simp [SessionStmt.exec, hstate]
      exact executes_next hexec (executes_next rfl executes_bufferingCase)
  | buffering =>
      have hexec : SessionStmt.exec a s .switchState = ⟨s, [], some bufferingCase⟩ := by
        simp [SessionStmt.exec, hstate]
      exact executes_next hexec executes_bufferingCase
  | initiating =>
      have hexec : SessionStmt.exec a s .switchState = ⟨s, [], some initiatingCase⟩ := by
        simp [SessionStmt.exec, hstate]
      exact executes_next hexec executes_initiatingCase
  | decoding =>
      have hexec : SessionStmt.exec a s .switchState = ⟨s, [], some decodingCase⟩ := by
        simp [SessionStmt.exec, hstate]
      exact executes_next hexec executes_decodingCase
  | pcmTransmitting =>
      have hexec : SessionStmt.exec a s .switchState = ⟨s, [], some []⟩ := by
        simp [SessionStmt.exec, Effect.goOn, hstate]
      exact executes_next hexec (.done ⟨rfl, [], by simp, by simp⟩)

end

end Fr5080
