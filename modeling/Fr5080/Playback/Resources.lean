import Fr5080.Decoder.Session
import Fr5080.Embedded.Ledger
import Fr5080.Encoder.Msbc
import Fr5080.Playback.WordCopy

/-!
# Fr5080.Playback.Resources

What a session of the MP3 decoder allocates (`fr5080_user_code_xip`: `main.c`, `mp3_decoder.c`,
`sbc_encoder.c`, `native_playback.c`): the ring for the input, the memory of the
two codecs, the frames of the encoder or the nodes of native playback, and the
resampler.  `DECODER_PREPARE_FOR_NEXT` gives everything back.

The handlers are code of statements, between any two of which the IPC
interrupt or the DMA interrupt of the playback may come.  A function that shares
nothing but the heap with the interrupt handlers is one statement; the functions of
the heap exclude interrupts.  The numbers of blocks and frames are far below
2^32.

The codecs and the resampler are libraries: what they do is the answer of the
statement.  An allocation whose result is used at once, and fails, is a fault and has
no step.
-/

namespace Fr5080

open Embedded

/-! ## data -/

/-- `pcm_data_handler`: `sbc_encoder_recv_frame` or `native_playback_recv_frame`. -/
inductive PcmDataHandler
  | sbcEncoder
  | nativePlayback
deriving DecidableEq, Repr

/-- A call of `downsample_init` or `downsample_destroy`. -/
inductive ResamplerCall
  | init
  | destroy
deriving DecidableEq, Repr

/-- The variables of `sbc_encoder.c`; `struct sbc_encoder_encoded_frame_t` has the fields of
`EncodedFrame`, and `gPvArrAllocMemory` the `g_w_malloc_count` entries in use. -/
structure SbcEncoderMemory where
  ready : Bool
  prepForNext : Bool
  encodedFrameList : List EncodedFrame
  encodedFrameCount : Nat
  gPvArrAllocMemory : List (Option Nat)

/-- The variables of a session.  `buffer` is `mp3_decoder_buffer`, `codecBlocks` are the
first `g_w_malloc_count` elements of `g_pv_arr_alloc_memory` in `mp3_decoder.c`, and `applyUnit` is
the local of `mp3_decoder_init`; `txEnabled` tells whether the DMA interrupt is enabled.

`resamplerCalls` is a history variable. -/
structure Mp3Resources where
  dec : Mp3Decoder
  applyUnit : Nat
  heap : Ledger
  buffer : Option Nat
  codecBlocks : List (Option Nat)
  resampleUsed : Bool
  pcmDataHandler : Option PcmDataHandler
  encoder : SbcEncoderMemory
  playback : Playback
  nativePlaybackStarted : Bool
  txEnabled : Bool
  resamplerCalls : List ResamplerCall

/-- The variables as the start-up code leaves them. -/
def Mp3Resources.zeroed : Mp3Resources where
  dec := .zeroed
  applyUnit := 0
  heap := .empty
  buffer := none
  codecBlocks := []
  resampleUsed := false
  pcmDataHandler := none
  encoder := ⟨false, false, [], 0, []⟩
  playback := .zeroed
  nativePlaybackStarted := false
  txEnabled := false
  resamplerCalls := []

/-- Whether the allocations of an `engine_init` succeed: the API object, the table of the
memory information, and the memory it asks for. -/
structure TableAllocs where
  api : Bool
  memtabs : Bool
  mems : List Bool

/-- The allocations in their order. -/
def TableAllocs.all (t : TableAllocs) : List Bool := t.api :: t.memtabs :: t.mems

/-- What a statement may be answered; each uses what concerns it. -/
structure ResourceAnswer where
  bufferAlloc : Bool
  codecAllocs : TableAllocs
  encoderAllocs : TableAllocs
  inpSize : Fin (2 ^ 31)
  /-- the flag `ui_init_done`, unless an error comes first -/
  initDone : Option Bool
  sampFreq : Nat
  startConsume : Consumption
  decodeConsume : Consumption
  /-- the output of the decoder -/
  out : List UInt8
  /-- the data of the next call that `downsample_entity` makes -/
  resampled : Option (List UInt8)
  /-- the frames that the encoder makes of its data -/
  encoded : List (List UInt8)
  /-- whether `ipc_alloc_channel` succeeds -/
  channel : Bool

/-- The messages of the task queue. -/
inductive ResourceMsg
  | mp3DecoderInit (type : UInt8)
  | mp3DecoderDoDecode
  | mcuNeedMoreSbcData
  | decoderPrepareForNext
deriving DecidableEq, Repr

/-- The message that the decoder or the playback inserts. -/
def ResourceMsg.ofTask : DecoderTask → ResourceMsg
  | .doDecode => .mp3DecoderDoDecode

/-! ## the SBC encoder -/

/-- `sbc_encoder_init`. -/
def Mp3Resources.sbcEncoderInit (allocs : TableAllocs) (s : Mp3Resources) : Mp3Resources :=
  let (table, heap) := s.heap.mallocs allocs.all
  { s with
    heap := heap
    encoder := {
      ready := true
      prepForNext := false
      encodedFrameList := []
      encodedFrameCount := 0
      gPvArrAllocMemory := s.encoder.gPvArrAllocMemory ++ table } }

/-- `sbc_encoder_engine_encode` with a frame. -/
def Mp3Resources.sbcEncoderEngineEncode (s : Mp3Resources) (bytes : List UInt8) : Mp3Resources :=
  let heap := (s.heap.malloc true).2
  { s with
    heap := (heap.malloc true).2
    encoder := { s.encoder with
      encodedFrameList := s.encoder.encodedFrameList ++ [⟨s.heap.next, heap.next, bytes⟩]
      encodedFrameCount := s.encoder.encodedFrameCount + 1 } }

/-- `sbc_encoder_recv_frame`, when the library makes these frames of the data. -/
def Mp3Resources.sbcEncoderRecvFrame (encoded : List (List UInt8)) (s : Mp3Resources) :
    Mp3Resources :=
  if s.encoder.ready = false then s else encoded.foldl sbcEncoderEngineEncode s

/-- The blocks of a frame are freed, `data` first. -/
def EncodedFrame.release (frame : EncodedFrame) (heap : Ledger) : Ledger :=
  (heap.free (some frame.data)).free (some frame.node)

/-- `while((left_frame_to_send) && (sbc_encoder_encoded_frame_count))`: the variables, the account
and the frames sent.  Without a frame in the list `frame->length` faults. -/
def sendFrames : Nat → SbcEncoderMemory → Ledger →
    Option (SbcEncoderMemory × Ledger × List EncodedFrame)
  | 0, e, heap => some (e, heap, [])
  | leftFrameToSend + 1, e, heap =>
      if e.encodedFrameCount ≠ 0 then
        match e.encodedFrameList with
        | [] => none
        | frame :: rest =>
            match sendFrames leftFrameToSend { e with
                encodedFrameList := rest
                encodedFrameCount := e.encodedFrameCount - 1 } (frame.release heap) with
            | some (e, heap, sent) => some (e, heap, frame :: sent)
            | none => none
      else some (e, heap, [])

/-- The part of `sbc_encoder_recv_frame_req` that has a channel, and the messages it inserts. -/
def Mp3Resources.sendEncoded (s : Mp3Resources) : Option (Mp3Resources × List ResourceMsg) :=
  match sendFrames sbcA2dpSubFrameCount s.encoder s.heap with
  | none => none
  | some (e, heap, sent) =>
      let s := { s with encoder := e, heap := heap }
      if 2 + (sent.map fun frame => frame.bytes.length).sum > 2 then some (s, [])
      else if e.prepForNext then
        some ({ s with encoder := { e with ready := false } }, [.decoderPrepareForNext])
      else some (s, [])

/-- `sbc_encoder_recv_frame_req`, and the messages it inserts. -/
def Mp3Resources.sbcEncoderRecvFrameReq (channel : Bool) (s : Mp3Resources) :
    Option (Mp3Resources × List ResourceMsg) :=
  if s.encoder.ready = false then some (s, [])
  else
    match if channel then s.sendEncoded else some (s, []) with
    | none => none
    | some (s, posted) =>
        if s.encoder.ready ∧ s.encoder.encodedFrameCount < sbcA2dpSubFrameCount then
          some (s, posted ++ [.mp3DecoderDoDecode])
        else some (s, posted)

/-- `while(sbc_encoder_encoded_frame_count)` in `sbc_encoder_destroy`. -/
def releaseFrames : Nat → List EncodedFrame → Ledger → Option (List EncodedFrame × Ledger)
  | 0, frames, heap => some (frames, heap)
  | _ + 1, [], _ => none
  | n + 1, frame :: rest, heap => releaseFrames n rest (frame.release heap)

/-- `sbc_encoder_destroy`. -/
def Mp3Resources.sbcEncoderDestroy (s : Mp3Resources) : Option Mp3Resources :=
  match releaseFrames s.encoder.encodedFrameCount s.encoder.encodedFrameList s.heap with
  | none => none
  | some (frames, heap) => some { s with
      heap := heap.frees s.encoder.gPvArrAllocMemory
      encoder := { s.encoder with
        encodedFrameList := frames
        encodedFrameCount := 0
        gPvArrAllocMemory := []
        ready := false } }

/-! ## the statements -/

/-- The statements of the handlers; `resampling` tells that `downsample_entity` is the caller. -/
inductive ResourceStmt
  /-- `ui_init_done = 0; ui_exec_done = 0` -/
  | clearInitDone (type : UInt8)
  /-- `mp3_decoder_buffer = mp3_mem_alloc(MP3_DECODER_BUFFER_SIZE)` -/
  | allocBuffer (type : UInt8)
  /-- the statements of `mp3_decoder_init` on the input variables -/
  | initInput (cs : List ApplyStmt) (type : UInt8)
  /-- `resample_used = false`, and `pcm_data_handler` is assigned -/
  | setHandler (type : UInt8)
  /-- `co_list_init(&pcm_data_list)` -/
  | initPcmList
  /-- `_xtos_interrupt_enable` -/
  | enableTx
  /-- `native_playback_started = 1` -/
  | setStarted
  /-- `switch(mp3_decoder_state)` -/
  | switchState
  /-- `state = BUFFERING` -/
  | setBuffering
  /-- `if(MP3_DECODER_BUFFERING_LIMIT <= mp3_decoder_total_input)` -/
  | ifBuffered
  /-- `mp3_decoder_engine_init()` -/
  | engineInit
  /-- `state = INITIATING` -/
  | setInitiating
  /-- `mp3_decoder_engine_start()` up to `if(ui_init_done)` -/
  | engineStart
  /-- `sbc_encoder_init` -/
  | sbcEncoderInit
  /-- `if(i_samp_freq == 48000)` -/
  | setResampler
  /-- the comparison of the result of `mp3_decoder_engine_start` with 1 -/
  | ifStarted
  /-- `state = DECODING` -/
  | setDecoding
  /-- `mp3_decoder_engine_decode()` up to its output -/
  | engineDecode
  /-- `downsample_entity` at its next call -/
  | downsample
  /-- `pcm_data_handler(data, length)` -/
  | handlePcm (data : List UInt8) (resampling : Bool)
  /-- `native_playback_recv_frame` up to its critical section -/
  | mallocPcm (data : List UInt8) (resampling : Bool)
  /-- the critical section with `co_list_push_back` -/
  | pushPcm (pcmData : PcmData) (resampling : Bool)
  /-- `sbc_encoder_recv_frame_req` -/
  | recvFrameReq
  /-- the memory of the codec in `mp3_decoder_destroy` -/
  | freeCodecMemory
  /-- `mp3_mem_free(mp3_decoder_buffer)` -/
  | freeBuffer
  /-- `mp3_decoder_buffer = NULL` -/
  | clearBuffer
  /-- the statements of `mp3_decoder_destroy` on the input variables -/
  | destroyInput (cs : List ApplyStmt)
  /-- `if(resample_used)` -/
  | ifResampleUsed
  /-- `sbc_encoder_destroy()` -/
  | destroyEncoder
  /-- `native_playback_started = 0` -/
  | clearStarted
  /-- `_xtos_interrupt_disable` -/
  | disableTx
  /-- `co_list_pop_front` in `native_playback_clear` -/
  | popPcm
  /-- `vPortFree(pcm_data->data); vPortFree(pcm_data)` -/
  | freePcm (blocks : PcmBlocks)
  /-- `pcm_size_in_list = 0` -/
  | clearPcmSize
  /-- `ipc_msg_send` of `IPC_SUB_MSG_DECODER_PREP_READY`, when `mp3_decoder_destroy` has returned -/
  | sendPrepReady

/-- The handlers of `user_msg_handler`: `mp3_decoder_init`, `mp3_decoder_do_decoder_handler`,
`sbc_encoder_recv_frame_req`, and `decoder_prepare_for_next_handler` with
`mp3_decoder_destroy`. -/
def ResourceMsg.code : ResourceMsg → List ResourceStmt
  | .mp3DecoderInit type => [.clearInitDone type]
  | .mp3DecoderDoDecode => [.switchState]
  | .mcuNeedMoreSbcData => [.recvFrameReq]
  | .decoderPrepareForNext => [.freeCodecMemory]

/-- `c` is the next statement. -/
def Mp3Resources.to (c : ResourceStmt) (s : Mp3Resources) :
    Option (Effect ResourceStmt ResourceMsg Mp3Resources) := some ⟨s, [], some [c]⟩

/-- The handler is done. -/
def Mp3Resources.done (s : Mp3Resources) :
    Option (Effect ResourceStmt ResourceMsg Mp3Resources) := some ⟨s, [], none⟩

/-- A statement on the input variables, with the local `apply_unit`. -/
def Mp3Resources.input (c : ApplyStmt) (s : Mp3Resources) : Mp3Resources :=
  let ctx := (c.exec ⟨s.dec.toDecoderInput, 0, s.applyUnit⟩).1
  { s with dec := { s.dec with toDecoderInput := ctx.toDecoderInput }, applyUnit := ctx.applyUnit }

/-- The state of the decoder is assigned. -/
def Mp3Resources.setState (state : DecoderState) (s : Mp3Resources) : Mp3Resources :=
  { s with dec := { s.dec with state := state } }

/-- `mp3_decoder_engine_decode` does not return for want of input. -/
def Mp3Decoder.hasInput (d : Mp3Decoder) : Bool :=
  let (_, codec, bytesRead) := d.codec.shiftIfNeeded.fill mp3DecoderConfig.bufferSize d.ring
  !(codec.bytesConsumed == 0 && bytesRead == 0)

/-- After a call of `pcm_data_handler`. -/
def Mp3Resources.handled (resampling : Bool) (s : Mp3Resources) :
    Option (Effect ResourceStmt ResourceMsg Mp3Resources) :=
  if resampling then s.to .downsample else s.done

/-- The statements of `mp3_decoder_destroy` on the input variables. -/
def mp3DecoderDestroyCode : List ApplyStmt :=
  [.clearDynamicConsumed, .clearTotalInput, .setIdle, .clearAllReceived]

/-- The effect of a statement. -/
def ResourceStmt.exec (a : ResourceAnswer) (s : Mp3Resources) :
    ResourceStmt → Option (Effect ResourceStmt ResourceMsg Mp3Resources)
  | .clearInitDone type => { s with
      dec := { s.dec with
        codec := { s.dec.codec with consumed := [], calls := [] }
        initDone := 0
        engineReady := false
        received := [] } }.to (.allocBuffer type)
  | .allocBuffer type => { s with
      buffer := (s.heap.malloc a.bufferAlloc).1
      heap := (s.heap.malloc a.bufferAlloc).2 }.to (.initInput mp3DecoderInitCode type)
  | .initInput [] type => s.to (.setHandler type)
  | .initInput (c :: cs) type => (s.input c).to (.initInput cs type)
  | .setHandler type =>
      if type ≠ 0 then
        { s with resampleUsed := false, pcmDataHandler := some .nativePlayback }.to .initPcmList
      else { s with resampleUsed := false, pcmDataHandler := some .sbcEncoder }.done
  | .initPcmList => { s with playback := { s.playback with pcmDataList := [] } }.to .enableTx
  | .enableTx => { s with txEnabled := true }.to .setStarted
  | .setStarted => { s with nativePlaybackStarted := true }.done
  | .switchState => match s.dec.state with
    | .idle => s.to .setBuffering
    | .buffering => s.to .ifBuffered
    | .initiating => s.to .engineStart
    | .decoding => s.to .engineDecode
    | .pcmTransmitting => s.done
  -- the assignments of the state fall through to the next case
  | .setBuffering => (s.setState .buffering).to .ifBuffered
  | .ifBuffered =>
      if mp3DecoderConfig.bufferingLimit ≤ s.dec.totalInput then s.to .engineInit else s.done
  | .engineInit => { s with
      dec := mp3DecoderEngineInit a.inpSize s.dec
      codecBlocks := s.codecBlocks ++ (s.heap.mallocs a.codecAllocs.all).1
      heap := (s.heap.mallocs a.codecAllocs.all).2 }.to .setInitiating
  | .setInitiating => (s.setState .initiating).to .engineStart
  | .engineStart =>
      let s := { s with
        dec := mp3DecoderEngineStart (a.initDone.map Bool.toNat) a.startConsume s.dec }
      if a.initDone = some true then s.to .sbcEncoderInit else s.to .ifStarted
  | .sbcEncoderInit => (s.sbcEncoderInit a.encoderAllocs).to .setResampler
  | .setResampler =>
      if a.sampFreq = 48000 then
        { s with
          resampleUsed := true
          resamplerCalls := s.resamplerCalls ++ [ResamplerCall.init] }.to .ifStarted
      else { s with resampleUsed := false }.to .ifStarted
  | .ifStarted =>
      if s.dec.initDone % 256 = 1 then s.to .setDecoding
      else if s.dec.prepForNext = false then
        some ⟨{ s with dec := { s.dec with tasks := s.dec.tasks ++ [.doDecode] } },
          [.mp3DecoderDoDecode], none⟩
      else s.done
  | .setDecoding => (s.setState .decoding).to .engineDecode
  | .engineDecode =>
      let s' := { s with dec := mp3DecoderEngineDecode a.decodeConsume s.dec }
      if s.dec.hasInput ∧ a.out ≠ [] then
        if s.resampleUsed then s'.to .downsample else s'.to (.handlePcm a.out false)
      else s'.done
  | .downsample => match a.resampled with
    | some data => s.to (.handlePcm data true)
    | none => s.done
  | .handlePcm data resampling => match s.pcmDataHandler with
    | some .sbcEncoder => (s.sbcEncoderRecvFrame a.encoded).handled resampling
    | some .nativePlayback => s.to (.mallocPcm data resampling)
    | none => none
  | .mallocPcm data resampling =>
      let heap := (s.heap.malloc true).2
      { s with heap := (heap.malloc true).2 }.to
        (.pushPcm (.fresh ⟨s.heap.next, heap.next⟩ data) resampling)
  | .pushPcm pcmData resampling =>
      Mp3Resources.handled resampling { s with
        playback := { s.playback with
          pcmDataList := s.playback.pcmDataList ++ [pcmData]
          pcmSizeInList := s.playback.pcmSizeInList + UInt32.ofNat pcmData.data.length } }
  | .recvFrameReq => match s.sbcEncoderRecvFrameReq a.channel with
    | some (s, posted) => some ⟨s, posted, none⟩
    | none => none
  | .freeCodecMemory =>
      { s with heap := s.heap.frees s.codecBlocks, codecBlocks := [] }.to .freeBuffer
  | .freeBuffer => { s with heap := s.heap.free s.buffer }.to .clearBuffer
  | .clearBuffer => { s with buffer := none }.to (.destroyInput mp3DecoderDestroyCode)
  | .destroyInput [] => s.to .ifResampleUsed
  | .destroyInput (c :: cs) => (s.input c).to (.destroyInput cs)
  | .ifResampleUsed =>
      if s.resampleUsed then
        { s with resamplerCalls := s.resamplerCalls ++ [ResamplerCall.destroy] }.to .destroyEncoder
      else s.to .destroyEncoder
  | .destroyEncoder => match s.sbcEncoderDestroy with
    | some s => s.to .clearStarted
    | none => none
  | .clearStarted => { s with nativePlaybackStarted := false }.to .disableTx
  | .disableTx => { s with txEnabled := false }.to .popPcm
  | .popPcm => match s.playback.pcmDataList with
    | [] => s.to .clearPcmSize
    | pcmData :: rest =>
        { s with playback := { s.playback with pcmDataList := rest } }.to (.freePcm pcmData.tag)
  | .freePcm blocks =>
      { s with heap := (s.heap.free (some blocks.data)).free (some blocks.node) }.to .popPcm
  | .clearPcmSize =>
      { s with playback := { s.playback with pcmSizeInList := 0 } }.to .sendPrepReady
  | .sendPrepReady => s.done

/-! ## the interrupts -/

/-- The messages of the MCU that concern the decoder, and the DMA interrupt with the
buffer that is being read; `native_playback_ipc_check_irq` has the same effect. -/
inductive ResourceIrq
  | rawFrame (buffer : List UInt8)
  | decoderStart
  | decoderStartLocal
  | needMoreSbc
  | decoderPrepNext
  | ipcDmaTx (ipcCodecDacTog : Nat)

/-- `native_playback_ipc_tx`, with the blocks it frees. -/
def Mp3Resources.ipcTx (ipcCodecDacTog : Nat) (s : Mp3Resources) :
    Option (Mp3Resources × List ResourceMsg) :=
  if s.txEnabled ∨ s.nativePlaybackStarted then
    match Xip.nativePlaybackIpcTx ipcCodecDacTog s.playback with
    | none => none
    | some (playback, tasks) =>
        let freed := playback.log.freed.drop s.playback.log.freed.length
        some ({ s with playback := playback, heap := s.heap.frees (freed.map some) },
          tasks.map .ofTask)
  else none

/-- `ipc_rx_user_handler` and the DMA interrupt: the messages they insert stand in the second
component. -/
def resourceIsr (s : Mp3Resources) : ResourceIrq → Option (Mp3Resources × List ResourceMsg)
  | .rawFrame buffer =>
      let dec := mp3DecoderRecvFrame buffer s.dec
      some ({ s with dec := dec }, (dec.tasks.drop s.dec.tasks.length).map .ofTask)
  | .decoderStart => some (s, [.mp3DecoderInit 0])
  | .decoderStartLocal => some (s, [.mp3DecoderInit 1])
  | .needMoreSbc => some (s, [.mcuNeedMoreSbcData])
  | .decoderPrepNext => some (s, [.decoderPrepareForNext])
  | .ipcDmaTx ipcCodecDacTog => s.ipcTx ipcCodecDacTog

/-- The task and its interrupts. -/
abbrev ResourceSched := Sched ResourceStmt ResourceMsg Mp3Resources

/-- An event; nothing is called from outside. -/
abbrev ResourceEvent := SchedEvent Empty ResourceAnswer ResourceIrq

/-- One step of the task queue and its interrupts. -/
def resourceStep : ResourceSched → ResourceEvent → Option ResourceSched :=
  schedStep (fun p => p.elim) ResourceMsg.code (fun c a s => c.exec a s)
    (fun e s => resourceIsr s e)

/-- After power-up the task is idle and its queue empty. -/
def ResourceSched.start : ResourceSched := ⟨[], [], .zeroed⟩

end Fr5080
