import Fr5080.Playback.Resources

/-!
# Fr5080.Playback.Balance

What a session allocates is given back when `mp3_decoder_destroy` returns: the
tables and lists of the three files hold exactly the blocks that are allocated
and not yet freed (`Mp3Resources.held`), and they are empty then.

The resampler is given back too, but `resample_used` stays set.  When the
next `DECODER_PREPARE_FOR_NEXT` comes without a session in between, `downsample_destroy` is
called once more.  So the condition is that `mp3_decoder_destroy` finds the flag set only
together with the memory of the encoder, which comes and goes with the resampler
(`OwnResampler`).
-/

namespace Fr5080

open Embedded

/-! ## the calls of the resampler -/

/-- Whether there is a resampler after a call; a call out of turn leaves no answer. -/
def ResamplerCall.next : Option Bool → ResamplerCall → Option Bool
  | some false, .init => some true
  | some true, .destroy => some false
  | _, _ => none

/-- Whether there is a resampler after the calls, which took turns. -/
def resamplerAfter (calls : List ResamplerCall) : Option Bool :=
  calls.foldl ResamplerCall.next (some false)

/-- One more call. -/
@[simp]
theorem resamplerAfter_append (calls : List ResamplerCall) (c : ResamplerCall) :
    resamplerAfter (calls ++ [c]) = ResamplerCall.next (resamplerAfter calls) c := by
  simp [resamplerAfter]

/-! ## the blocks held -/

/-- The blocks of the nodes in `pcm_data_list`. -/
def pcmBlocks (q : List PcmData) : List Nat := q.flatMap fun p => [p.tag.data, p.tag.node]

/-- The blocks that the variables lead to. -/
def Mp3Resources.held (s : Mp3Resources) : Multiset Nat :=
  pointees [s.buffer] + pointees s.codecBlocks + pointees s.encoder.gPvArrAllocMemory +
    (s.encoder.encodedFrameList.flatMap EncodedFrame.blocks : List Nat) +
    (pcmBlocks s.playback.pcmDataList : List Nat)

/-- The blocks still to be freed, when `code` is next: a node between its allocation and
the list, or between the list and `vPortFree`, is held as well. -/
def owned : List ResourceStmt → Mp3Resources → Multiset Nat
  | .clearBuffer :: _, s => Mp3Resources.held { s with buffer := none }
  | .pushPcm pcmData _ :: _, s => (pcmBlocks [pcmData] : List Nat) + s.held
  | .freePcm blocks :: _, s => ([blocks.data, blocks.node] : List Nat) + s.held
  | _, s => s.held

/-! ## the state between two statements -/

/-- The decoder has not been started. -/
def Mp3Resources.Waiting (s : Mp3Resources) : Prop :=
  s.dec.state = .idle ∨ s.dec.state = .buffering

/-- There is no session: neither the ring nor the memory of the codec is there. -/
def Mp3Resources.NoSession (s : Mp3Resources) : Prop := s.buffer = none ∧ s.codecBlocks = []

/-- The encoder counts its frames, and has some only when it has memory. -/
@[mk_iff]
structure SbcEncoderMemory.Sound (e : SbcEncoderMemory) : Prop where
  count : e.encodedFrameCount = e.encodedFrameList.length
  ready : e.ready = true → e.gPvArrAllocMemory ≠ []
  frames : e.gPvArrAllocMemory = [] → e.encodedFrameList = []

/-- There is a resampler exactly when it is used by an encoder that has memory. -/
def Mp3Resources.Matched (s : Mp3Resources) : Prop :=
  resamplerAfter s.resamplerCalls =
    some (s.resampleUsed && !s.encoder.gPvArrAllocMemory.isEmpty)

/-- What holds between two handlers: each resource is there only when the ones before
it are. -/
@[mk_iff]
structure Mp3Resources.Sound (s : Mp3Resources) : Prop where
  encoder : s.encoder.Sound
  matched : s.Matched
  early : s.Waiting ∨ s.dec.state = .initiating → s.encoder.gPvArrAllocMemory = []
  stopped : s.codecBlocks = [] → s.Waiting ∧ s.playback.pcmDataList = []

/-- `mp3_decoder_engine_start` has started the encoder. -/
@[mk_iff]
structure Mp3Resources.Started (s : Mp3Resources) : Prop where
  encoder : s.encoder.Sound
  loaded : s.encoder.gPvArrAllocMemory ≠ []
  running : s.codecBlocks ≠ []
  initDone : s.dec.initDone = 1

/-- `mp3_decoder_destroy` has freed the memory of the codec. -/
@[mk_iff]
structure Mp3Resources.Ending (s : Mp3Resources) : Prop where
  encoder : s.encoder.Sound
  stopped : s.codecBlocks = []

/-- Only native playback is left. -/
@[mk_iff]
structure Mp3Resources.Ended (s : Mp3Resources) : Prop where
  buffer : s.buffer = none
  stopped : s.codecBlocks = []
  waiting : s.Waiting
  encoder : s.encoder.Sound
  unloaded : s.encoder.gPvArrAllocMemory = []
  unmatched : resamplerAfter s.resamplerCalls = some false

/-- What holds when a statement is next. -/
def ResourceStmt.At (s : Mp3Resources) : ResourceStmt → Prop
  | .clearInitDone _ | .allocBuffer _ => s.Sound ∧ s.NoSession
  | .initInput _ _ | .setHandler _ | .initPcmList | .enableTx | .setStarted =>
      s.Sound ∧ s.codecBlocks = []
  | .switchState | .recvFrameReq | .freeCodecMemory => s.Sound
  | .setBuffering | .ifBuffered | .engineInit => s.Sound ∧ s.Waiting
  | .setInitiating => s.Sound ∧ s.Waiting ∧ s.codecBlocks ≠ []
  | .engineStart => s.Sound ∧ s.dec.state = .initiating
  | .sbcEncoderInit => s.Sound ∧ s.dec.state = .initiating ∧ s.dec.initDone = 1
  | .setResampler => s.Started ∧ resamplerAfter s.resamplerCalls = some false
  | .ifStarted => s.Sound ∧ s.dec.state = .initiating ∨ s.Started ∧ s.Matched
  | .setDecoding => s.encoder.Sound ∧ s.Matched ∧ s.codecBlocks ≠ []
  | .engineDecode | .downsample | .handlePcm _ _ | .mallocPcm _ _ | .pushPcm _ _ =>
      s.Sound ∧ s.codecBlocks ≠ []
  | .freeBuffer | .clearBuffer => s.Ending ∧ s.Matched
  | .destroyInput cs =>
      s.Ending ∧ s.Matched ∧ s.buffer = none ∧ (ApplyStmt.setIdle ∈ cs ∨ s.Waiting)
  | .ifResampleUsed => s.Ending ∧ s.Matched ∧ s.buffer = none ∧ s.Waiting
  | .destroyEncoder =>
      s.Ending ∧ s.buffer = none ∧ s.Waiting ∧ resamplerAfter s.resamplerCalls = some false
  | .clearStarted => s.Ended
  | .disableTx => s.Ended ∧ s.nativePlaybackStarted = false
  | .popPcm | .freePcm _ => s.Ended ∧ s.nativePlaybackStarted = false ∧ s.txEnabled = false
  | .clearPcmSize | .sendPrepReady =>
      s.Ended ∧ s.nativePlaybackStarted = false ∧ s.txEnabled = false ∧ s.playback.pcmDataList = []

/-- What holds with `code` next; a handler has one statement at a time. -/
def AtCode (s : Mp3Resources) : List ResourceStmt → Prop
  | [] => s.Sound
  | [c] => c.At s
  | _ => False

variable {s s' : Mp3Resources} {code : List ResourceStmt} {c : ResourceStmt}

/-! ## the interrupts -/

/-- What the interrupts leave alone. -/
@[mk_iff]
structure IrqFrame (s s' : Mp3Resources) : Prop where
  buffer : s'.buffer = s.buffer
  codecBlocks : s'.codecBlocks = s.codecBlocks
  encoder : s'.encoder = s.encoder
  resampleUsed : s'.resampleUsed = s.resampleUsed
  resamplerCalls : s'.resamplerCalls = s.resamplerCalls
  started : s'.nativePlaybackStarted = s.nativePlaybackStarted
  txEnabled : s'.txEnabled = s.txEnabled
  initDone : s'.dec.initDone = s.dec.initDone
  state : s'.dec.state = s.dec.state ∨ s.dec.state = .idle ∧ s'.dec.state = .buffering
  pcmDataList : s.playback.pcmDataList = [] → s'.playback.pcmDataList = []

/-- An interrupt does not start the decoder: `BUFFERING` is waiting, too. -/
theorem IrqFrame.waiting (h : IrqFrame s s') : s'.Waiting ↔ s.Waiting := by
  have hstate := h.state
  grind [Mp3Resources.Waiting]

/-- Nor does it end the initialisation. -/
theorem IrqFrame.initiating (h : IrqFrame s s') :
    s'.dec.state = .initiating ↔ s.dec.state = .initiating := by
  have hstate := h.state
  grind

/-- What holds between two handlers is about what interrupts leave alone. -/
theorem IrqFrame.sound (h : IrqFrame s s') (hs : s.Sound) : s'.Sound := by
  obtain ⟨hencoder, hmatched, hearly, hstopped⟩ := hs
  refine ⟨?_, ?_, ?_, ?_⟩
  · rwa [h.encoder]
  · rwa [Mp3Resources.Matched, h.encoder, h.resampleUsed, h.resamplerCalls]
  · rwa [h.waiting, h.initiating, h.encoder]
  · rw [h.waiting, h.codecBlocks]
    exact fun hcodec => ⟨(hstopped hcodec).1, h.pcmDataList (hstopped hcodec).2⟩

/-- So is what holds between two statements. -/
theorem IrqFrame.at (h : IrqFrame s s') (hc : c.At s) : c.At s' := by
  have hsound := h.sound
  have hwaiting := h.waiting
  have hinitiating := h.initiating
  obtain ⟨hbuffer, hcodec, hencoder, hused, hcalls, hstarted, htx, hinit, -, hpcm⟩ := h
  cases c <;>
    simp only [ResourceStmt.At, Mp3Resources.NoSession, Mp3Resources.Matched,
      Mp3Resources.started_iff, Mp3Resources.ending_iff, Mp3Resources.ended_iff, hbuffer, hcodec,
      hencoder, hused, hcalls, hstarted, htx, hinit, hwaiting, hinitiating] at hc ⊢ <;>
    grind

/-- A node has two blocks, its data and itself. -/
@[simp]
theorem pcmBlocks_cons (p : PcmData) (q : List PcmData) :
    pcmBlocks (p :: q) = p.tag.data :: p.tag.node :: pcmBlocks q := rfl

/-- Only the empty list has no blocks. -/
theorem pcmBlocks_eq_nil {q : List PcmData} : pcmBlocks q = [] ↔ q = [] := by
  cases q <;> simp [pcmBlocks]

/-- The loop frees nodes from the front of the list. -/
theorem pcmBlocks_loop {ops : IpcTxOps} {q : List PcmData} {l l' : IpcTxLoop}
    (h : ops.loop q l = some l') :
    ∃ freed, l'.freed = l.freed ++ freed ∧ freed ++ pcmBlocks l'.pcmDataList = pcmBlocks q := by
  induction q generalizing l with
  | nil =>
      cases h
      exact ⟨[], by simp⟩
  | cons p q ih =>
      by_cases hzero : l.neededLength = 0
      · rw [loop_full ops (p :: q) hzero] at h
        cases h
        exact ⟨[], by simp⟩
      by_cases hlt : l.neededLength < p.left
      · rw [loop_lt ops q hzero hlt] at h
        obtain ⟨shm, -, rfl⟩ := Option.map_eq_some_iff.mp h
        exact ⟨[], by simp [IpcTxLoop.within, Chunk.skip]⟩
      · rw [loop_le ops q hzero hlt] at h
        obtain ⟨shm, -, hrest⟩ := Option.bind_eq_some_iff.mp h
        obtain ⟨freed, hfreed, hblocks⟩ := ih hrest
        refine ⟨p.tag.data :: p.tag.node :: freed, ?_, ?_⟩
        · rw [hfreed]
          simp [IpcTxLoop.after]
        · rw [pcmBlocks_cons, ← hblocks]
          rfl

/-- The DMA interrupt frees the blocks of the nodes it takes from the list. -/
theorem pcmBlocks_ipcTx {ipcCodecDacTog : Nat} {p p' : Playback} {tasks : List DecoderTask}
    (h : Xip.nativePlaybackIpcTx ipcCodecDacTog p = some (p', tasks)) :
    p'.log.freed.drop p.log.freed.length ++ pcmBlocks p'.pcmDataList =
      pcmBlocks p.pcmDataList := by
  unfold Xip.nativePlaybackIpcTx IpcTxOps.ipcTx at h
  split at h
  · cases h
  next l hloop =>
  split at h
  · cases h
  next shm hfill =>
  obtain ⟨freed, hfreed, hblocks⟩ := pcmBlocks_loop hloop
  have hend : p'.pcmDataList = l.pcmDataList ∧ p'.log.freed = l.freed := by
    simp only [Option.some.injEq, Playback.ipcTxEnd] at h
    grind
  rw [hend.1, hend.2, hfreed, ← hblocks]
  simp [Playback.ipcTxEntry]

/-- The blocks taken from the list are no longer owned. -/
theorem owned_playback {freed : List Nat} {playback : Playback} (heap : Ledger)
    (h : freed ++ pcmBlocks playback.pcmDataList = pcmBlocks s.playback.pcmDataList) :
    owned code s = pointees (freed.map some) +
      owned code { s with playback := playback, heap := heap } := by
  have hpcm : (pcmBlocks s.playback.pcmDataList : Multiset Nat) =
      pointees (freed.map some) + (pcmBlocks playback.pcmDataList : List Nat) := by
    simp [← h, pointees, List.reduceOption]
  unfold owned
  split <;> simp only [Mp3Resources.held, hpcm] <;> abel

/-- The blocks that an interrupt frees are those it takes from the list. -/
theorem ipcTx_owned {ipcCodecDacTog : Nat} {posted : List ResourceMsg}
    (h : s.ipcTx ipcCodecDacTog = some (s', posted)) :
    IrqFrame s s' ∧ (s.heap.Balanced (owned code s) → s'.heap.Balanced (owned code s')) := by
  unfold Mp3Resources.ipcTx at h
  split at h
  · split at h
    · cases h
    next p tasks htx =>
    cases h
    have hblocks := pcmBlocks_ipcTx htx
    refine ⟨⟨rfl, rfl, rfl, rfl, rfl, rfl, rfl, rfl, Or.inl rfl, fun hnil => ?_⟩, ?_⟩
    · rw [hnil] at hblocks
      exact pcmBlocks_eq_nil.mp (List.append_eq_nil_iff.mp hblocks).2
    · rw [owned_playback _ hblocks]
      exact Ledger.Balanced.frees
  · cases h

/-- The variables of the decoder lead to no block. -/
theorem owned_dec (code : List ResourceStmt) (s : Mp3Resources) (dec : Mp3Decoder) :
    owned code { s with dec := dec } = owned code s := by
  unfold owned
  split <;> rfl

/-- A frame of the MCU reaches the ring and the counters only. -/
theorem rawFrame_irqFrame (buffer : List UInt8) (s : Mp3Resources) :
    IrqFrame s { s with dec := mp3DecoderRecvFrame buffer s.dec } := by
  obtain ⟨state, tasks, hstate, heq⟩ := s.dec.toDecoderInput.recvFrame_eq mp3DecoderConfig buffer
  refine ⟨rfl, rfl, rfl, rfl, rfl, rfl, rfl, rfl, ?_, id⟩
  simpa only [mp3DecoderRecvFrame, heq] using hstate

/-- An interrupt keeps what holds between two statements. -/
theorem resourceIsr_inv {i : ResourceIrq} {posted : List ResourceMsg}
    (h : resourceIsr s i = some (s', posted)) (hcode : AtCode s code)
    (hheap : s.heap.Balanced (owned code s)) :
    AtCode s' code ∧ s'.heap.Balanced (owned code s') := by
  have hframe : IrqFrame s s' ∧ s'.heap.Balanced (owned code s') := by
    cases i with
    | rawFrame buffer =>
        cases h
        refine ⟨rawFrame_irqFrame buffer s, ?_⟩
        rwa [owned_dec]
    | ipcDmaTx ipcCodecDacTog =>
        obtain ⟨hframe, hkeep⟩ := ipcTx_owned h
        exact ⟨hframe, hkeep hheap⟩
    | _ =>
        cases h
        exact ⟨⟨rfl, rfl, rfl, rfl, rfl, rfl, rfl, rfl, Or.inl rfl, id⟩, hheap⟩
  obtain ⟨hframe, hheap'⟩ := hframe
  refine ⟨?_, hheap'⟩
  match code, hcode with
  | [], hcode => exact hframe.sound hcode
  | [c], hcode => exact hframe.at hcode

/-! ## the encoder -/

/-- The blocks of frames. -/
def frameBlocks (frames : List EncodedFrame) : Multiset Nat :=
  (frames.flatMap EncodedFrame.blocks : List Nat)

@[simp]
theorem frameBlocks_nil : frameBlocks [] = 0 := rfl

/-- The blocks of two lists. -/
@[simp]
theorem frameBlocks_append (frames frames' : List EncodedFrame) :
    frameBlocks (frames ++ frames') = frameBlocks frames + frameBlocks frames' := by
  simp [frameBlocks]

/-- A frame has two blocks, its data and its node. -/
theorem frameBlocks_cons (frame : EncodedFrame) (frames : List EncodedFrame) :
    frameBlocks (frame :: frames) = {frame.node} + ({frame.data} + frameBlocks frames) := by
  simp [frameBlocks, EncodedFrame.blocks]

/-- What is held beside the frames. -/
def Mp3Resources.heldBeside (s : Mp3Resources) : Multiset Nat :=
  pointees [s.buffer] + pointees s.codecBlocks + pointees s.encoder.gPvArrAllocMemory +
    (pcmBlocks s.playback.pcmDataList : List Nat)

/-- The frames, and the rest. -/
theorem held_eq_frameBlocks (s : Mp3Resources) :
    s.held = frameBlocks s.encoder.encodedFrameList + s.heldBeside := by
  simp only [Mp3Resources.held, Mp3Resources.heldBeside, frameBlocks]
  abel

/-- A frame of the list can be freed. -/
theorem balanced_release {frame : EncodedFrame} {frames : List EncodedFrame} {heap : Ledger}
    {held : Multiset Nat} (h : heap.Balanced (frameBlocks (frame :: frames) + held)) :
    (frame.release heap).Balanced (frameBlocks frames + held) := by
  refine Ledger.Balanced.free (Ledger.Balanced.free ?_)
  have hblocks : frameBlocks (frame :: frames) + held =
      {frame.data} + ({frame.node} + (frameBlocks frames + held)) := by
    rw [frameBlocks_cons]
    abel
  rw [hblocks] at h
  simpa using h

/-- The list is freed by its count. -/
theorem balanced_releaseFrames {frames : List EncodedFrame} {heap : Ledger} {held : Multiset Nat}
    (h : heap.Balanced (frameBlocks frames + held)) :
    ∃ heap', releaseFrames frames.length frames heap = some ([], heap') ∧ heap'.Balanced held := by
  induction frames generalizing heap with
  | nil => exact ⟨heap, rfl, by simpa using h⟩
  | cons frame frames ih => exact ih (balanced_release h)

/-- A function of the encoder between its initialisation and its end. -/
structure EncoderKeeps (s s' : Mp3Resources) : Prop where
  same : ∃ e heap, s' = { s with encoder := e, heap := heap }
  table : s'.encoder.gPvArrAllocMemory = s.encoder.gPvArrAllocMemory
  sound : s'.encoder.Sound
  balanced : s'.heap.Balanced s'.held

/-- Such a function leaves a sound state sound. -/
theorem EncoderKeeps.soundness (h : EncoderKeeps s s') (hs : s.Sound) : s'.Sound := by
  obtain ⟨⟨e, heap, rfl⟩, htable, hsound, -⟩ := h
  obtain ⟨-, hmatched, hearly, hstopped⟩ := hs
  refine ⟨hsound, ?_, ?_, hstopped⟩
  · rwa [Mp3Resources.Matched, htable]
  · rwa [htable]

/-- Nothing done. -/
theorem EncoderKeeps.refl (hsound : s.encoder.Sound) (hheap : s.heap.Balanced s.held) :
    EncoderKeeps s s := ⟨⟨s.encoder, s.heap, rfl⟩, rfl, hsound, hheap⟩

/-- One function after another. -/
theorem EncoderKeeps.trans {s1 : Mp3Resources} (h : EncoderKeeps s s1) (h' : EncoderKeeps s1 s') :
    EncoderKeeps s s' := by
  obtain ⟨⟨e, heap, rfl⟩, htable, -⟩ := h
  obtain ⟨⟨e', heap', rfl⟩, htable', hsound, hheap⟩ := h'
  exact ⟨⟨e', heap', rfl⟩, htable'.trans htable, hsound, hheap⟩

/-- A frame is allocated and put into the list. -/
theorem encoderKeeps_engineEncode (bytes : List UInt8) (hsound : s.encoder.Sound)
    (hloaded : s.encoder.gPvArrAllocMemory ≠ []) (hheap : s.heap.Balanced s.held) :
    EncoderKeeps s (s.sbcEncoderEngineEncode bytes) := by
  refine ⟨⟨_, _, rfl⟩, rfl, ⟨?_, hsound.ready, fun hnil => absurd hnil hloaded⟩, ?_⟩
  · simp [Mp3Resources.sbcEncoderEngineEncode, hsound.count]
  · have hnew := (hheap.malloc true).malloc true
    have hheld : (s.sbcEncoderEngineEncode bytes).held =
        ((s.heap.malloc true).2.malloc true).1.toList +
          ((s.heap.malloc true).1.toList + s.held) := by
      simp only [held_eq_frameBlocks, Mp3Resources.sbcEncoderEngineEncode, Mp3Resources.heldBeside,
        frameBlocks_append, frameBlocks_cons, frameBlocks_nil, Ledger.malloc, if_true,
        Option.toList_some, Multiset.coe_singleton]
      abel
    rwa [← hheld] at hnew

/-- `sbc_encoder_recv_frame`: as many frames as the codec puts out. -/
theorem encoderKeeps_recvFrame (encoded : List (List UInt8)) (hsound : s.encoder.Sound)
    (hheap : s.heap.Balanced s.held) : EncoderKeeps s (s.sbcEncoderRecvFrame encoded) := by
  unfold Mp3Resources.sbcEncoderRecvFrame
  split
  · exact .refl hsound hheap
  next hready =>
  have hloaded := hsound.ready (by simpa using hready)
  clear hready
  induction encoded generalizing s with
  | nil => exact .refl hsound hheap
  | cons bytes encoded ih =>
      have hfirst := encoderKeeps_engineEncode bytes hsound hloaded hheap
      exact hfirst.trans (ih hfirst.sound hfirst.balanced (by rwa [hfirst.table]))

/-- Frames are sent from the front of the list. -/
theorem sendFrames_keeps {n : Nat} {e e' : SbcEncoderMemory} {heap heap' : Ledger}
    {sent : List EncodedFrame} {held : Multiset Nat}
    (h : sendFrames n e heap = some (e', heap', sent)) (hsound : e.Sound)
    (hheap : heap.Balanced (frameBlocks e.encodedFrameList + held)) :
    e'.Sound ∧ e'.gPvArrAllocMemory = e.gPvArrAllocMemory ∧
      heap'.Balanced (frameBlocks e'.encodedFrameList + held) := by
  induction n generalizing e heap sent with
  | zero =>
      cases h
      exact ⟨hsound, rfl, hheap⟩
  | succ n ih =>
      simp only [sendFrames] at h
      split at h
      · split at h
        · cases h
        next frame rest hlist =>
        split at h
        next e1 heap1 sent1 hrest =>
          cases h
          rw [hlist] at hheap
          have hcount := hsound.count
          have hsound' : SbcEncoderMemory.Sound { e with
              encodedFrameList := rest
              encodedFrameCount := e.encodedFrameCount - 1 } := by
            refine ⟨by simp_all, hsound.ready, fun hnil => ?_⟩
            have := hsound.frames hnil
            simp_all
          have hkeep := ih hrest hsound' (balanced_release hheap)
          exact hkeep
        · cases h
      · cases h
        exact ⟨hsound, rfl, hheap⟩

/-- The frames that are sent leave the list and are freed. -/
theorem encoderKeeps_sendEncoded {posted : List ResourceMsg} (hsound : s.encoder.Sound)
    (hheap : s.heap.Balanced s.held) (h : s.sendEncoded = some (s', posted)) :
    EncoderKeeps s s' := by
  unfold Mp3Resources.sendEncoded at h
  split at h
  · cases h
  next e heap sent hsend =>
  rw [held_eq_frameBlocks] at hheap
  obtain ⟨hsound', htable, hheap'⟩ := sendFrames_keeps hsend hsound hheap
  have hheld : heap.Balanced (Mp3Resources.held { s with encoder := e, heap := heap }) := by
    rwa [held_eq_frameBlocks, Mp3Resources.heldBeside, htable]
  split at h
  · cases h
    exact ⟨⟨e, heap, rfl⟩, htable, hsound', hheld⟩
  split at h
  · cases h
    exact ⟨⟨_, heap, rfl⟩, htable, ⟨hsound'.count, nofun, hsound'.frames⟩, hheld⟩
  · cases h
    exact ⟨⟨e, heap, rfl⟩, htable, hsound', hheld⟩

/-- `sbc_encoder_recv_frame_req`. -/
theorem encoderKeeps_recvFrameReq {channel : Bool} {posted : List ResourceMsg}
    (hsound : s.encoder.Sound) (hheap : s.heap.Balanced s.held)
    (h : s.sbcEncoderRecvFrameReq channel = some (s', posted)) : EncoderKeeps s s' := by
  unfold Mp3Resources.sbcEncoderRecvFrameReq at h
  split at h
  · cases h
    exact .refl hsound hheap
  split at h
  · cases h
  next s1 posted1 hsend =>
  have hkeep : EncoderKeeps s s1 := by
    split at hsend
    · exact encoderKeeps_sendEncoded hsound hheap hsend
    · cases hsend
      exact .refl hsound hheap
  split at h
  · cases h
    exact hkeep
  · cases h
    exact hkeep

/-- `sbc_encoder_init` with an empty list. -/
theorem balanced_sbcEncoderInit (allocs : TableAllocs) (hlist : s.encoder.encodedFrameList = [])
    (hheap : s.heap.Balanced s.held) :
    (s.sbcEncoderInit allocs).heap.Balanced (s.sbcEncoderInit allocs).held := by
  have hnew := hheap.mallocs allocs.all
  have hheld : (s.sbcEncoderInit allocs).held =
      pointees (s.heap.mallocs allocs.all).1 + s.held := by
    simp only [Mp3Resources.held, Mp3Resources.sbcEncoderInit, hlist, pointees_append]
    abel
  rwa [← hheld] at hnew

/-- `sbc_encoder_destroy` leaves nothing behind. -/
theorem sbcEncoderDestroy_eq (hsound : s.encoder.Sound) (hheap : s.heap.Balanced s.held) :
    ∃ e heap, s.sbcEncoderDestroy = some { s with encoder := e, heap := heap } ∧ e.Sound ∧
      e.gPvArrAllocMemory = [] ∧
      heap.Balanced (Mp3Resources.held { s with encoder := e, heap := heap }) := by
  rw [held_eq_frameBlocks] at hheap
  obtain ⟨heap, hrelease, hheap'⟩ := balanced_releaseFrames hheap
  have hdestroy : s.sbcEncoderDestroy = some { s with
      heap := heap.frees s.encoder.gPvArrAllocMemory
      encoder := { s.encoder with
        encodedFrameList := []
        encodedFrameCount := 0
        gPvArrAllocMemory := []
        ready := false } } := by
    simp only [Mp3Resources.sbcEncoderDestroy, hsound.count, hrelease]
  refine ⟨_, _, hdestroy, ⟨rfl, nofun, fun _ => rfl⟩, rfl, ?_⟩
  · refine Ledger.Balanced.frees ?_
    have hheld : s.heldBeside = pointees s.encoder.gPvArrAllocMemory +
        (pointees [s.buffer] + pointees s.codecBlocks +
          (pcmBlocks s.playback.pcmDataList : List Nat)) := by
      simp only [Mp3Resources.heldBeside]
      abel
    simpa [hheld, Mp3Resources.held] using hheap'

/-! ## the statements -/

/-- The statement, if it is the one with the call, gives back a resampler that is there. -/
def ResourceStmt.OwnResampler (s : Mp3Resources) : ResourceStmt → Prop
  | .ifResampleUsed => s.resampleUsed = true → s.encoder.gPvArrAllocMemory ≠ []
  | _ => True

/-- What a step has to leave. -/
def Leaves (r : Effect ResourceStmt ResourceMsg Mp3Resources) : Prop :=
  AtCode r.state (r.code []) ∧ r.state.heap.Balanced (owned (r.code []) r.state)

/-- A statement that another one follows. -/
theorem leaves_to {c' : ResourceStmt} {r : Effect ResourceStmt ResourceMsg Mp3Resources}
    (h : s.to c' = some r) (hat : c'.At s) (hheap : s.heap.Balanced (owned [c'] s)) :
    Leaves r := by
  cases h
  exact ⟨hat, hheap⟩

/-- The last statement of a handler. -/
theorem leaves_done {r : Effect ResourceStmt ResourceMsg Mp3Resources}
    (h : s.done = some r) (hsound : s.Sound) (hheap : s.heap.Balanced s.held) : Leaves r := by
  cases h
  exact ⟨hsound, hheap⟩

/-- Without the memory of the codec the decoder waits. -/
theorem Mp3Resources.Sound.waiting_of_stopped (h : s.Sound) (hcodec : s.codecBlocks = []) :
    s.Waiting := (h.stopped hcodec).1

/-- The statements on the input variables leave the rest alone. -/
theorem input_eq (x : ApplyStmt) (s : Mp3Resources) :
    ∃ dec unit, s.input x = { s with dec := dec, applyUnit := unit } ∧
      dec.initDone = s.dec.initDone ∧
      dec.state = if x.resetsState then .idle else s.dec.state := by
  refine ⟨_, _, rfl, rfl, ?_⟩
  have hstate := (x.exec_start ⟨s.dec.toDecoderInput, 0, s.applyUnit⟩).2
  split at hstate
  · next hreset => rw [if_pos hreset, ← hstate.1]
  · next hreset => rw [if_neg hreset, ← hstate]

/-- The decoder changes, its state stays or the decoder waits. -/
theorem Mp3Resources.Sound.dec (h : s.Sound) {dec : Mp3Decoder} (unit : Nat)
    (hstate : dec.state = s.dec.state ∨ s.Waiting ∧ (dec.state = .idle ∨ dec.state = .buffering)) :
    Mp3Resources.Sound { s with dec := dec, applyUnit := unit } := by
  obtain ⟨hencoder, hmatched, hearly, hstopped⟩ := h
  refine ⟨hencoder, hmatched, ?_, ?_⟩
  · simp only [Mp3Resources.Waiting] at *
    grind
  · simp only [Mp3Resources.Waiting] at *
    grind

section

variable {a : ResourceAnswer} {r : Effect ResourceStmt ResourceMsg Mp3Resources}

/-- The ring is allocated when there is none. -/
theorem leaves_allocBuffer {type : UInt8} (hat : s.Sound ∧ s.NoSession)
    (hheap : s.heap.Balanced s.held) (h : ResourceStmt.exec a s (.allocBuffer type) = some r) :
    Leaves r := by
  obtain ⟨hsound, hbuffer, hcodec⟩ := hat
  refine leaves_to h ⟨⟨hsound.encoder, hsound.matched, hsound.early, hsound.stopped⟩, hcodec⟩ ?_
  have hnew := hheap.malloc a.bufferAlloc
  simpa [owned, Mp3Resources.held, hbuffer, add_assoc] using hnew

/-- The session starts without a resampler. -/
theorem leaves_setHandler {type : UInt8} (hat : s.Sound ∧ s.codecBlocks = [])
    (hheap : s.heap.Balanced s.held) (h : ResourceStmt.exec a s (.setHandler type) = some r) :
    Leaves r := by
  obtain ⟨hsound, hcodec⟩ := hat
  have hnone := hsound.early (Or.inl (hsound.waiting_of_stopped hcodec))
  have hsound' : ∀ handler, Mp3Resources.Sound
      { s with resampleUsed := false, pcmDataHandler := handler } := by
    intro handler
    refine ⟨hsound.encoder, ?_, hsound.early, hsound.stopped⟩
    have hmatched := hsound.matched
    simp_all [Mp3Resources.Matched]
  simp only [ResourceStmt.exec] at h
  split at h
  · exact leaves_to h ⟨hsound' _, hcodec⟩ hheap
  · exact leaves_done h (hsound' _) hheap

/-- The memory of the codec is allocated while the decoder waits. -/
theorem leaves_engineInit (hat : s.Sound ∧ s.Waiting) (hheap : s.heap.Balanced s.held)
    (h : ResourceStmt.exec a s .engineInit = some r) : Leaves r := by
  obtain ⟨hsound, hwaiting⟩ := hat
  have hne : s.codecBlocks ++ (s.heap.mallocs a.codecAllocs.all).1 ≠ [] := by
    simp [← List.length_eq_zero_iff, TableAllocs.all]
  refine leaves_to h ⟨⟨hsound.encoder, hsound.matched, hsound.early, fun hnil => absurd hnil hne⟩,
    hwaiting, hne⟩ ?_
  have hnew := hheap.mallocs a.codecAllocs.all
  simp only [owned, Mp3Resources.held, pointees_append] at hnew ⊢
  convert hnew using 1
  abel

/-- The state tells whether the codec has its memory. -/
theorem leaves_switchState (hsound : s.Sound) (hheap : s.heap.Balanced s.held)
    (h : ResourceStmt.exec a s .switchState = some r) : Leaves r := by
  simp only [ResourceStmt.exec] at h
  cases hstate : s.dec.state with
  | idle =>
      rw [hstate] at h
      exact leaves_to h ⟨hsound, Or.inl hstate⟩ hheap
  | buffering =>
      rw [hstate] at h
      exact leaves_to h ⟨hsound, Or.inr hstate⟩ hheap
  | initiating =>
      rw [hstate] at h
      exact leaves_to h ⟨hsound, hstate⟩ hheap
  | decoding =>
      rw [hstate] at h
      refine leaves_to h ⟨hsound, fun hnil => ?_⟩ hheap
      have hwaiting := hsound.waiting_of_stopped hnil
      simp_all [Mp3Resources.Waiting]
  | pcmTransmitting =>
      rw [hstate] at h
      exact leaves_done h hsound hheap

/-- The codec has its memory, the encoder not yet. -/
theorem leaves_setInitiating (hat : s.Sound ∧ s.Waiting ∧ s.codecBlocks ≠ [])
    (hheap : s.heap.Balanced s.held) (h : ResourceStmt.exec a s .setInitiating = some r) :
    Leaves r := by
  obtain ⟨hsound, hwaiting, hrunning⟩ := hat
  refine leaves_to h ⟨⟨hsound.encoder, hsound.matched, fun _ => hsound.early (Or.inl hwaiting),
    fun hnil => absurd hnil hrunning⟩, rfl⟩ hheap

/-- The start of the engine answers whether it is initialised. -/
theorem leaves_engineStart (hat : s.Sound ∧ s.dec.state = .initiating)
    (hheap : s.heap.Balanced s.held) (h : ResourceStmt.exec a s .engineStart = some r) :
    Leaves r := by
  obtain ⟨hsound, hstate⟩ := hat
  have hframe := mp3DecoderEngineStart_frame (a.initDone.map Bool.toNat) a.startConsume s.dec
  have hsound' := hsound.dec s.applyUnit (Or.inl hframe.state)
  simp only [ResourceStmt.exec] at h
  split at h
  · next hdone =>
      refine leaves_to h ⟨hsound', hframe.state.trans hstate, ?_⟩ hheap
      rw [hdone]
      rfl
  · exact leaves_to h (Or.inl ⟨hsound', hframe.state.trans hstate⟩) hheap

/-- The encoder is started when it has neither memory nor frames. -/
theorem leaves_sbcEncoderInit (hat : s.Sound ∧ s.dec.state = .initiating ∧ s.dec.initDone = 1)
    (hheap : s.heap.Balanced s.held) (h : ResourceStmt.exec a s .sbcEncoderInit = some r) :
    Leaves r := by
  obtain ⟨hsound, hstate, hdone⟩ := hat
  have hnone := hsound.early (Or.inr hstate)
  have hloaded : (s.sbcEncoderInit a.encoderAllocs).encoder.gPvArrAllocMemory ≠ [] := by
    simp [Mp3Resources.sbcEncoderInit, ← List.length_eq_zero_iff, TableAllocs.all]
  have hrunning : s.codecBlocks ≠ [] := by
    intro hnil
    have hwaiting := hsound.waiting_of_stopped hnil
    simp_all [Mp3Resources.Waiting]
  have hmatched := hsound.matched
  refine leaves_to h ⟨⟨⟨rfl, fun _ => hloaded, fun hnil => absurd hnil hloaded⟩, hloaded, hrunning,
    hdone⟩, ?_⟩ (balanced_sbcEncoderInit _ (hsound.encoder.frames hnone) hheap)
  show resamplerAfter s.resamplerCalls = some false
  simpa [Mp3Resources.Matched, hnone] using hmatched

/-- The resampler goes with the encoder that has just been started. -/
theorem leaves_setResampler (hat : s.Started ∧ resamplerAfter s.resamplerCalls = some false)
    (hheap : s.heap.Balanced s.held) (h : ResourceStmt.exec a s .setResampler = some r) :
    Leaves r := by
  obtain ⟨⟨hencoder, hloaded, hrunning, hdone⟩, hcalls⟩ := hat
  simp only [ResourceStmt.exec] at h
  split at h
  · refine leaves_to h (Or.inr ⟨⟨hencoder, hloaded, hrunning, hdone⟩, ?_⟩) hheap
    simp [Mp3Resources.Matched, hcalls, hloaded, ResamplerCall.next]
  · refine leaves_to h (Or.inr ⟨⟨hencoder, hloaded, hrunning, hdone⟩, ?_⟩) hheap
    simp [Mp3Resources.Matched, hcalls]

/-- Both ways come together here: an engine that was started before, and the one just started. -/
theorem leaves_ifStarted
    (hat : s.Sound ∧ s.dec.state = .initiating ∨ s.Started ∧ s.Matched)
    (hheap : s.heap.Balanced s.held) (h : ResourceStmt.exec a s .ifStarted = some r) :
    Leaves r := by
  simp only [ResourceStmt.exec] at h
  obtain ⟨hsound, hstate⟩ | ⟨hstarted, hmatched⟩ := hat
  · split at h
    · refine leaves_to h ⟨hsound.encoder, hsound.matched, fun hnil => ?_⟩ hheap
      have hwaiting := hsound.waiting_of_stopped hnil
      simp_all [Mp3Resources.Waiting]
    split at h
    · cases h
      exact ⟨hsound.dec s.applyUnit (Or.inl rfl), hheap⟩
    · exact leaves_done h hsound hheap
  · rw [if_pos (by simp [hstarted.initDone])] at h
    exact leaves_to h ⟨hstarted.encoder, hmatched, hstarted.running⟩ hheap

/-- Now the encoder has its memory, too. -/
theorem leaves_setDecoding (hat : s.encoder.Sound ∧ s.Matched ∧ s.codecBlocks ≠ [])
    (hheap : s.heap.Balanced s.held) (h : ResourceStmt.exec a s .setDecoding = some r) :
    Leaves r := by
  obtain ⟨hencoder, hmatched, hrunning⟩ := hat
  refine leaves_to h ⟨⟨hencoder, hmatched, ?_, fun hnil => absurd hnil hrunning⟩, hrunning⟩ hheap
  simp [Mp3Resources.Waiting, Mp3Resources.setState]

/-! ### the output of the decoder -/

/-- The handler of the PCM data is through. -/
theorem leaves_handled {resampling : Bool} (h : s.handled resampling = some r) (hsound : s.Sound)
    (hrunning : s.codecBlocks ≠ []) (hheap : s.heap.Balanced s.held) : Leaves r := by
  unfold Mp3Resources.handled at h
  split at h
  · exact leaves_to h ⟨hsound, hrunning⟩ hheap
  · exact leaves_done h hsound hheap

/-- The engine puts out PCM data, or nothing. -/
theorem leaves_engineDecode (hat : s.Sound ∧ s.codecBlocks ≠ []) (hheap : s.heap.Balanced s.held)
    (h : ResourceStmt.exec a s .engineDecode = some r) : Leaves r := by
  obtain ⟨hsound, hrunning⟩ := hat
  have hstate := (mp3DecoderEngineDecode_frame a.decodeConsume s.dec).state
  have hsound' := hsound.dec s.applyUnit (Or.inl hstate)
  simp only [ResourceStmt.exec] at h
  split at h
  · split at h
    · exact leaves_to h ⟨hsound', hrunning⟩ hheap
    · exact leaves_to h ⟨hsound', hrunning⟩ hheap
  · exact leaves_done h hsound' hheap

/-- The resampler owns no block. -/
theorem leaves_downsample (hat : s.Sound ∧ s.codecBlocks ≠ []) (hheap : s.heap.Balanced s.held)
    (h : ResourceStmt.exec a s .downsample = some r) : Leaves r := by
  simp only [ResourceStmt.exec] at h
  split at h
  · exact leaves_to h hat hheap
  · exact leaves_done h hat.1 hheap

/-- The PCM data go to the encoder or to native playback. -/
theorem leaves_handlePcm {data : List UInt8} {resampling : Bool}
    (hat : s.Sound ∧ s.codecBlocks ≠ []) (hheap : s.heap.Balanced s.held)
    (h : ResourceStmt.exec a s (.handlePcm data resampling) = some r) : Leaves r := by
  obtain ⟨hsound, hrunning⟩ := hat
  have hkeep := encoderKeeps_recvFrame a.encoded hsound.encoder hheap
  simp only [ResourceStmt.exec] at h
  split at h
  · refine leaves_handled h (hkeep.soundness hsound) ?_ hkeep.balanced
    obtain ⟨e, heap, heq⟩ := hkeep.same
    rwa [heq]
  · exact leaves_to h ⟨hsound, hrunning⟩ hheap
  · cases h

/-- Two blocks, one after the other. -/
theorem coe_pair_add (b b' : Nat) (held : Multiset Nat) :
    ([b, b'] : List Nat) + held = {b} + ({b'} + held) := add_assoc {b} {b'} held

/-- Both blocks of a node belong to the handler first. -/
theorem leaves_mallocPcm {data : List UInt8} {resampling : Bool}
    (hat : s.Sound ∧ s.codecBlocks ≠ []) (hheap : s.heap.Balanced s.held)
    (h : ResourceStmt.exec a s (.mallocPcm data resampling) = some r) : Leaves r := by
  obtain ⟨hsound, hrunning⟩ := hat
  refine leaves_to h ⟨⟨hsound.encoder, hsound.matched, hsound.early, hsound.stopped⟩, hrunning⟩ ?_
  have hnew := (hheap.malloc true).malloc true
  simp only [Ledger.malloc, if_true, Option.toList_some, Multiset.coe_singleton,
    ← coe_pair_add] at hnew
  exact hnew

/-- Then they are in the list. -/
theorem leaves_pushPcm {pcmData : PcmData} {resampling : Bool} (hat : s.Sound ∧ s.codecBlocks ≠ [])
    (hheap : s.heap.Balanced ((pcmBlocks [pcmData] : List Nat) + s.held))
    (h : ResourceStmt.exec a s (.pushPcm pcmData resampling) = some r) : Leaves r := by
  obtain ⟨hsound, hrunning⟩ := hat
  refine leaves_handled h ⟨hsound.encoder, hsound.matched, hsound.early,
    fun hnil => absurd hnil hrunning⟩ hrunning ?_
  have hheld : (pcmBlocks [pcmData] : List Nat) + s.held =
      pointees [s.buffer] + pointees s.codecBlocks + pointees s.encoder.gPvArrAllocMemory +
        (s.encoder.encodedFrameList.flatMap EncodedFrame.blocks : List Nat) +
        ((pcmBlocks s.playback.pcmDataList : Multiset Nat) + (pcmBlocks [pcmData] : List Nat)) := by
    simp only [Mp3Resources.held]
    abel
  rw [hheld] at hheap
  simpa [Mp3Resources.held, pcmBlocks] using hheap

/-! ### the end of a session -/

/-- The MCU asks for frames. -/
theorem leaves_recvFrameReq (hsound : s.Sound) (hheap : s.heap.Balanced s.held)
    (h : ResourceStmt.exec a s .recvFrameReq = some r) : Leaves r := by
  simp only [ResourceStmt.exec] at h
  split at h
  · next s1 posted hreq =>
      cases h
      have hkeep := encoderKeeps_recvFrameReq hsound.encoder hheap hreq
      exact ⟨hkeep.soundness hsound, hkeep.balanced⟩
  · cases h

/-- The memory of the codec goes first. -/
theorem leaves_freeCodecMemory (hsound : s.Sound) (hheap : s.heap.Balanced s.held)
    (h : ResourceStmt.exec a s .freeCodecMemory = some r) : Leaves r := by
  refine leaves_to h ⟨⟨hsound.encoder, rfl⟩, hsound.matched⟩ (Ledger.Balanced.frees ?_)
  have hheld : s.held =
      pointees s.codecBlocks + Mp3Resources.held { s with codecBlocks := [] } := by
    simp only [Mp3Resources.held, pointees_nil]
    abel
  rwa [hheld] at hheap

/-- Then the ring. -/
theorem leaves_freeBuffer (hat : s.Ending ∧ s.Matched) (hheap : s.heap.Balanced s.held)
    (h : ResourceStmt.exec a s .freeBuffer = some r) : Leaves r := by
  obtain ⟨⟨hencoder, hstopped⟩, hmatched⟩ := hat
  refine leaves_to h ⟨⟨hencoder, hstopped⟩, hmatched⟩ (Ledger.Balanced.free ?_)
  simpa [owned, Mp3Resources.held, add_assoc] using hheap

/-- The input variables are reset one by one; the decoder is idle after one of them. -/
theorem leaves_destroyInput {cs : List ApplyStmt}
    (hat : s.Ending ∧ s.Matched ∧ s.buffer = none ∧ (ApplyStmt.setIdle ∈ cs ∨ s.Waiting))
    (hheap : s.heap.Balanced s.held) (h : ResourceStmt.exec a s (.destroyInput cs) = some r) :
    Leaves r := by
  obtain ⟨⟨hencoder, hstopped⟩, hmatched, hbuffer, hwaiting⟩ := hat
  cases cs with
  | nil =>
      exact leaves_to h ⟨⟨hencoder, hstopped⟩, hmatched, hbuffer, by simpa using hwaiting⟩ hheap
  | cons x cs =>
      obtain ⟨dec, unit, heq, -, hstate⟩ := input_eq x s
      simp only [ResourceStmt.exec, heq] at h
      refine leaves_to h ⟨⟨hencoder, hstopped⟩, hmatched, hbuffer, ?_⟩ hheap
      simp only [Mp3Resources.Waiting, List.mem_cons] at hwaiting ⊢
      grind [ApplyStmt.resetsState]

/-- The resampler is given back, if there is one. -/
theorem leaves_ifResampleUsed (hat : s.Ending ∧ s.Matched ∧ s.buffer = none ∧ s.Waiting)
    (hown : s.resampleUsed = true → s.encoder.gPvArrAllocMemory ≠ [])
    (hheap : s.heap.Balanced s.held) (h : ResourceStmt.exec a s .ifResampleUsed = some r) :
    Leaves r := by
  obtain ⟨⟨hencoder, hstopped⟩, hmatched, hbuffer, hwaiting⟩ := hat
  unfold Mp3Resources.Matched at hmatched
  simp only [ResourceStmt.exec] at h
  split at h
  · next hused =>
      refine leaves_to h ⟨⟨hencoder, hstopped⟩, hbuffer, hwaiting, ?_⟩ hheap
      have hloaded : s.encoder.gPvArrAllocMemory.isEmpty = false := by simpa using hown hused
      simp [hmatched, hused, hloaded, ResamplerCall.next]
  · next hused =>
      refine leaves_to h ⟨⟨hencoder, hstopped⟩, hbuffer, hwaiting, ?_⟩ hheap
      simp [hmatched, hused]

/-- The encoder frees its memory and its frames. -/
theorem leaves_destroyEncoder (hat : s.Ending ∧ s.buffer = none ∧ s.Waiting ∧
      resamplerAfter s.resamplerCalls = some false)
    (hheap : s.heap.Balanced s.held) (h : ResourceStmt.exec a s .destroyEncoder = some r) :
    Leaves r := by
  obtain ⟨⟨hencoder, hstopped⟩, hbuffer, hwaiting, hcalls⟩ := hat
  obtain ⟨e, heap, hdestroy, hsound, hnone, hheap'⟩ := sbcEncoderDestroy_eq hencoder hheap
  simp only [ResourceStmt.exec, hdestroy] at h
  exact leaves_to h ⟨hbuffer, hstopped, hwaiting, hsound, hnone, hcalls⟩ hheap'

/-- Native playback is no part of it. -/
theorem Mp3Resources.Ended.native (h : s.Ended) (playback : Playback) (started tx : Bool)
    (heap : Ledger) : Mp3Resources.Ended { s with
      playback := playback, nativePlaybackStarted := started, txEnabled := tx, heap := heap } :=
  ⟨h.buffer, h.stopped, h.waiting, h.encoder, h.unloaded, h.unmatched⟩

/-- Native playback gives its list back node by node. -/
theorem leaves_popPcm
    (hat : s.Ended ∧ s.nativePlaybackStarted = false ∧ s.txEnabled = false)
    (hheap : s.heap.Balanced s.held) (h : ResourceStmt.exec a s .popPcm = some r) :
    Leaves r := by
  obtain ⟨hended, hstarted, htx⟩ := hat
  simp only [ResourceStmt.exec] at h
  split at h
  · next hnil => exact leaves_to h ⟨hended, hstarted, htx, hnil⟩ hheap
  · next pcmData rest hcons =>
      refine leaves_to h ⟨hended.native _ _ _ _, hstarted, htx⟩ ?_
      have hheld : s.held = ([pcmData.tag.data, pcmData.tag.node] : List Nat) +
          Mp3Resources.held { s with
            playback := { s.playback with pcmDataList := rest } } := by
        have hblocks : (pcmBlocks s.playback.pcmDataList : Multiset Nat) =
            ([pcmData.tag.data, pcmData.tag.node] : List Nat) + (pcmBlocks rest : List Nat) := by
          rw [hcons]
          rfl
        simp only [Mp3Resources.held, hblocks]
        abel
      rwa [hheld] at hheap

/-- The blocks of the node that was taken. -/
theorem leaves_freePcm {blocks : PcmBlocks}
    (hat : s.Ended ∧ s.nativePlaybackStarted = false ∧ s.txEnabled = false)
    (hheap : s.heap.Balanced (([blocks.data, blocks.node] : List Nat) + s.held))
    (h : ResourceStmt.exec a s (.freePcm blocks) = some r) : Leaves r := by
  obtain ⟨hended, hstarted, htx⟩ := hat
  refine leaves_to h ⟨hended.native _ _ _ _, hstarted, htx⟩ ?_
  rw [coe_pair_add] at hheap
  have hdata := Ledger.Balanced.free (p := some blocks.data) hheap
  exact Ledger.Balanced.free (p := some blocks.node) hdata

/-- When `mp3_decoder_destroy` has returned, nothing is held. -/
theorem held_eq_zero (hat : ResourceStmt.sendPrepReady.At s) : s.held = 0 := by
  obtain ⟨⟨hbuffer, hstopped, -, hencoder, hnone, -⟩, -, -, hpcm⟩ := hat
  simp [Mp3Resources.held, hbuffer, hstopped, hnone, hencoder.frames hnone, hpcm, pcmBlocks]

/-- Every statement leaves what holds when the next one begins. -/
theorem exec_leaves (hat : c.At s) (hown : c.OwnResampler s)
    (hheap : s.heap.Balanced (owned [c] s)) (h : c.exec a s = some r) : Leaves r := by
  cases c with
  | clearInitDone type => exact leaves_to h ⟨hat.1.dec s.applyUnit (Or.inl rfl), hat.2⟩ hheap
  | allocBuffer type => exact leaves_allocBuffer hat hheap h
  | initInput cs type =>
      obtain ⟨hsound, hcodec⟩ := hat
      cases cs with
      | nil => exact leaves_to h ⟨hsound, hcodec⟩ hheap
      | cons x cs =>
          obtain ⟨dec, unit, heq, -, hstate⟩ := input_eq x s
          simp only [ResourceStmt.exec, heq] at h
          refine leaves_to h ⟨hsound.dec unit ?_, hcodec⟩ hheap
          have := hsound.waiting_of_stopped hcodec
          grind
  | setHandler type => exact leaves_setHandler hat hheap h
  | initPcmList =>
      obtain ⟨⟨hencoder, hmatched, hearly, hstopped⟩, hcodec⟩ := hat
      obtain ⟨hwaiting, hnil⟩ := hstopped hcodec
      refine leaves_to h ⟨⟨hencoder, hmatched, hearly, fun _ => ⟨hwaiting, rfl⟩⟩, hcodec⟩ ?_
      simpa [owned, Mp3Resources.held, hnil] using hheap
  | enableTx =>
      obtain ⟨⟨hencoder, hmatched, hearly, hstopped⟩, hcodec⟩ := hat
      exact leaves_to h ⟨⟨hencoder, hmatched, hearly, hstopped⟩, hcodec⟩ hheap
  | setStarted =>
      obtain ⟨hencoder, hmatched, hearly, hstopped⟩ := hat.1
      exact leaves_done h ⟨hencoder, hmatched, hearly, hstopped⟩ hheap
  | switchState => exact leaves_switchState hat hheap h
  | setBuffering =>
      obtain ⟨hsound, hwaiting⟩ := hat
      refine leaves_to h ⟨hsound.dec s.applyUnit (Or.inr ⟨hwaiting, Or.inr rfl⟩), Or.inr rfl⟩ hheap
  | ifBuffered =>
      simp only [ResourceStmt.exec] at h
      split at h
      · exact leaves_to h hat hheap
      · exact leaves_done h hat.1 hheap
  | engineInit => exact leaves_engineInit hat hheap h
  | setInitiating => exact leaves_setInitiating hat hheap h
  | engineStart => exact leaves_engineStart hat hheap h
  | sbcEncoderInit => exact leaves_sbcEncoderInit hat hheap h
  | setResampler => exact leaves_setResampler hat hheap h
  | ifStarted => exact leaves_ifStarted hat hheap h
  | setDecoding => exact leaves_setDecoding hat hheap h
  | engineDecode => exact leaves_engineDecode hat hheap h
  | downsample => exact leaves_downsample hat hheap h
  | handlePcm data resampling => exact leaves_handlePcm hat hheap h
  | mallocPcm data resampling => exact leaves_mallocPcm hat hheap h
  | pushPcm pcmData resampling => exact leaves_pushPcm hat hheap h
  | recvFrameReq => exact leaves_recvFrameReq hat hheap h
  | freeCodecMemory => exact leaves_freeCodecMemory hat hheap h
  | freeBuffer => exact leaves_freeBuffer hat hheap h
  | clearBuffer =>
      obtain ⟨⟨hencoder, hstopped⟩, hmatched⟩ := hat
      have hidle : ApplyStmt.setIdle ∈ mp3DecoderDestroyCode := by simp [mp3DecoderDestroyCode]
      exact leaves_to h ⟨⟨hencoder, hstopped⟩, hmatched, rfl, Or.inl hidle⟩ hheap
  | destroyInput cs => exact leaves_destroyInput hat hheap h
  | ifResampleUsed => exact leaves_ifResampleUsed hat hown hheap h
  | destroyEncoder => exact leaves_destroyEncoder hat hheap h
  | clearStarted =>
      have hended : s.Ended := hat
      exact leaves_to h ⟨hended.native _ _ _ _, rfl⟩ hheap
  | disableTx =>
      obtain ⟨hended, hstarted⟩ := hat
      exact leaves_to h ⟨hended.native _ _ _ _, hstarted, rfl⟩ hheap
  | popPcm => exact leaves_popPcm hat hheap h
  | freePcm blocks => exact leaves_freePcm hat hheap h
  | clearPcmSize =>
      obtain ⟨hended, hrest⟩ := hat
      exact leaves_to h ⟨hended.native _ _ _ _, hrest⟩ hheap
  | sendPrepReady =>
      obtain ⟨⟨hbuffer, hstopped, hwaiting, hencoder, hnone, hcalls⟩, -, -, hnil⟩ := hat
      refine leaves_done h ⟨hencoder, ?_, fun _ => hnone, fun _ => ⟨hwaiting, hnil⟩⟩ hheap
      simp [Mp3Resources.Matched, hcalls, hnone]

end

/-! ## runs -/

/-- `DECODER_START` is handled only when there is no session. -/
def StartsAlone (t : ResourceSched) : ResourceEvent → Prop
  | .dispatch => match t.queue with
    | .mp3DecoderInit _ :: _ => t.state.NoSession
    | _ => True
  | _ => True

/-- `mp3_decoder_destroy` does not find `resample_used` set without the memory of the encoder. -/
def OwnResampler (t : ResourceSched) : ResourceEvent → Prop
  | .stmt _ => match t.code with
    | c :: _ => c.OwnResampler t.state
    | [] => True
  | _ => True

instance (s : Mp3Resources) : Decidable s.NoSession := inferInstanceAs (Decidable (_ ∧ _))

instance (s : Mp3Resources) (c : ResourceStmt) : Decidable (c.OwnResampler s) := by
  unfold ResourceStmt.OwnResampler
  split <;> infer_instance

instance (t : ResourceSched) (e : ResourceEvent) : Decidable (StartsAlone t e) := by
  unfold StartsAlone
  split
  · split <;> infer_instance
  · infer_instance

instance (t : ResourceSched) (e : ResourceEvent) : Decidable (OwnResampler t e) := by
  unfold OwnResampler
  split
  · split <;> infer_instance
  · infer_instance

/-- No call of the resampler is out of turn; when `mp3_decoder_destroy` has returned, every block
ever allocated has been freed exactly once, and every resampler is given back. -/
structure SessionsBalanced (t : ResourceSched) : Prop where
  inTurn : resamplerAfter t.state.resamplerCalls ≠ none
  blocks : t.code = [.sendPrepReady] → t.state.heap.Settled
  resampler : t.code = [.sendPrepReady] → resamplerAfter t.state.resamplerCalls = some false

/-- What holds between any two steps. -/
structure ResourceInv (t : ResourceSched) : Prop where
  at_code : AtCode t.state t.code
  balanced : t.state.heap.Balanced (owned t.code t.state)

variable {t t' : ResourceSched} {e : ResourceEvent}

/-- At start-up nothing is held. -/
theorem resourceInv_start : ResourceInv .start where
  at_code := by
    refine ⟨⟨rfl, nofun, fun _ => rfl⟩, rfl, fun _ => rfl, fun _ => ⟨Or.inl rfl, rfl⟩⟩
  balanced := Ledger.balanced_empty

/-- **Every step keeps the invariant**: a message, a statement or an interrupt. -/
theorem resourceInv_step (h : ResourceInv t) (hstart : StartsAlone t e) (hown : OwnResampler t e)
    (hstep : resourceStep t e = some t') : ResourceInv t' := by
  obtain ⟨hat, hheap⟩ := h
  obtain ⟨code, queue, s⟩ := t
  obtain ⟨p, -⟩ | ⟨m, rest, rfl, rfl, rfl, rfl⟩ | ⟨c, cs, a, r, rfl, rfl, hexec, rfl⟩ |
    ⟨i, s', posted, rfl, hisr, rfl⟩ := schedStep_cases hstep
  · exact p.elim
  · cases m with
    | mp3DecoderInit type => exact ⟨⟨hat, hstart⟩, hheap⟩
    | _ => exact ⟨hat, hheap⟩
  · cases cs with
    | nil =>
        obtain ⟨hat', hheap'⟩ := exec_leaves hat hown hheap hexec
        exact ⟨hat', hheap'⟩
    | cons c' cs => exact hat.elim
  · obtain ⟨hat', hheap'⟩ := resourceIsr_inv hisr hat hheap
    exact ⟨hat', hheap'⟩

/-- The calls have been in turn so far. -/
theorem inTurn_of_atCode (h : AtCode s code) : resamplerAfter s.resamplerCalls ≠ none := by
  match code, h with
  | [], h =>
      have hmatched := h.matched
      simp_all [Mp3Resources.Matched]
  | [c], h =>
      change c.At s at h
      cases c <;>
        simp only [ResourceStmt.At, Mp3Resources.sound_iff, Mp3Resources.ended_iff,
          Mp3Resources.Matched] at h <;>
        grind

/-- What the invariant is for. -/
theorem ResourceInv.sessionsBalanced (h : ResourceInv t) : SessionsBalanced t := by
  obtain ⟨hat, hheap⟩ := h
  refine ⟨inTurn_of_atCode hat, fun hcode => ?_, fun hcode => ?_⟩
  · rw [hcode] at hat hheap
    have hnone : t.state.held = 0 := held_eq_zero hat
    rw [show owned [.sendPrepReady] t.state = t.state.held from rfl, hnone] at hheap
    exact Ledger.settled_of_balanced hheap
  · rw [hcode] at hat
    exact hat.1.unmatched

/-- A statement without the condition gives back a resampler that is not there. -/
theorem not_sessionsBalanced (h : ResourceInv t) (hown : ¬ OwnResampler t e)
    (hstep : resourceStep t e = some t') : ¬ SessionsBalanced t' := by
  obtain ⟨hat, -⟩ := h
  obtain ⟨code, queue, s⟩ := t
  obtain ⟨p, -⟩ | ⟨m, rest, rfl, rfl, rfl, rfl⟩ | ⟨c, cs, a, r, rfl, rfl, hexec, rfl⟩ |
    ⟨i, s', posted, rfl, hisr, rfl⟩ := schedStep_cases hstep
  · exact p.elim
  · exact absurd trivial hown
  · have hc : ¬ c.OwnResampler s := hown
    cases cs with
    | cons c' cs => exact hat.elim
    | nil =>
        cases c with
        | ifResampleUsed =>
            obtain ⟨-, hmatched, -⟩ := hat
            simp only [ResourceStmt.OwnResampler, Classical.not_imp, not_not] at hc
            obtain ⟨hused, hnone⟩ := hc
            simp only [ResourceStmt.exec, hused, if_true] at hexec
            cases hexec
            refine fun hgood => hgood.inTurn ?_
            simp_all [Mp3Resources.Matched, ResamplerCall.next]
        | _ => exact absurd trivial hc
  · exact absurd trivial hown

/-- In any sequence of sessions in which `DECODER_START` is handled only when there is none: all
states on the way are balanced exactly when `mp3_decoder_destroy` never finds `resample_used` set
without the memory of the encoder. -/
theorem sessions_balanced_iff {es : List ResourceEvent}
    (hstarts : Along resourceStep StartsAlone .start es)
    (hrun : run resourceStep .start es = some t) :
    (∀ es1 t1, es1 <+: es → run resourceStep .start es1 = some t1 → SessionsBalanced t1) ↔
      Along resourceStep OwnResampler .start es :=
  run_good_iff_along (fun _ => ResourceInv.sessionsBalanced)
    (fun _ _ _ hinv hstart hown hstep => resourceInv_step hinv hstart hown hstep)
    (fun _ _ _ hinv _ => not_sessionsBalanced hinv) resourceInv_start hstarts hrun

/-! ## two runs -/

/-- Every allocation succeeds; the stream has 48 kHz and the codec puts out `out`. -/
def ResourceAnswer.plain (out : List UInt8) : ResourceAnswer where
  bufferAlloc := true
  codecAllocs := ⟨true, true, [true]⟩
  encoderAllocs := ⟨true, true, [true]⟩
  inpSize := ⟨0, by decide⟩
  initDone := some true
  sampFreq := 48000
  startConsume := consumeUpTo 0
  decodeConsume := consumeUpTo 0
  out := out
  resampled := none
  encoded := []
  channel := true

/-- The next message is taken from the queue, and its handler executes `n` statements. -/
def handlingPlain (n : Nat) : List ResourceEvent :=
  .dispatch :: List.replicate n (.stmt (.plain []))

/-- `start` starts a session, 2048 bytes arrive and decoding begins. -/
def sessionBegun (start : ResourceIrq) (n : Nat) : List ResourceEvent :=
  .interrupt start :: handlingPlain n ++
    List.replicate 4 (.interrupt (.rawFrame (List.replicate 512 0))) ++ handlingPlain 10

/-- `DECODER_PREPARE_FOR_NEXT`, up to the end of `mp3_decoder_destroy`. -/
def preparedForNext : List ResourceEvent :=
  .interrupt .decoderPrepNext :: handlingPlain 14

/-- `mp3_decoder_destroy` has just returned. -/
def ResourceSched.returned (t : ResourceSched) : Bool := t.code matches [.sendPrepReady]

/-- Only `mp3_decoder_destroy` ends so. -/
theorem code_of_returned (h : t.returned = true) : t.code = [.sendPrepReady] := by
  unfold ResourceSched.returned at h
  split at h
  · assumption
  · cases h

/-- A session with native playback. -/
theorem sessions_balanced_iff_local : ∃ t,
    run resourceStep .start (sessionBegun .decoderStartLocal 17 ++ preparedForNext) = some t ∧
      t.code = [.sendPrepReady] ∧ SessionsBalanced t := by
  obtain ⟨t, hrun, hret⟩ := Option.map_eq_some_iff.mp (show
    (run resourceStep .start (sessionBegun .decoderStartLocal 17 ++ preparedForNext)).map
      ResourceSched.returned = some true by decide +kernel)
  exact ⟨t, hrun, code_of_returned hret,
    (sessions_balanced_iff (by decide +kernel) hrun).mpr (by decide +kernel) _ t
      (List.prefix_refl _) hrun⟩

/-- A session, and `DECODER_PREPARE_FOR_NEXT` twice. -/
def preparedTwice : List ResourceEvent :=
  sessionBegun .decoderStart 14 ++ preparedForNext ++ [.stmt (.plain [])] ++ preparedForNext

/-- The second `DECODER_PREPARE_FOR_NEXT` calls `downsample_destroy` once more. -/
theorem resampler_destroyed_twice : Along resourceStep StartsAlone .start preparedTwice ∧
    ∃ t, run resourceStep .start preparedTwice = some t ∧ t.code = [.sendPrepReady] ∧
      t.state.resamplerCalls = [.init, .destroy, .destroy] := by
  refine ⟨by decide +kernel, ?_⟩
  obtain ⟨t, hrun, hview⟩ := Option.map_eq_some_iff.mp (show
    (run resourceStep .start preparedTwice).map
      (fun t => (t.returned, t.state.resamplerCalls)) =
        some (true, [.init, .destroy, .destroy]) by decide +kernel)
  obtain ⟨hret, hcalls⟩ := Prod.mk.inj hview
  exact ⟨t, hrun, code_of_returned hret, hcalls⟩

end Fr5080
