import Mathlib.Data.List.ModifyLast
import Mathlib.Data.Vector.Basic
import Fr5080.Embedded.Lap
import Fr5080.Embedded.Task

/-!
# Fr5080.Voice.Audio

The signal path of a call (`audio_algorithm.c` of `fr5080_user_code_xip`).  The DMA
interrupts insert frames of 30 samples from the air and from the microphone
(`audio_algorithm_recv_data`) and fetch frames for the speaker and for the air
(`audio_algorithm_send_data`).  A task launches the algorithms in between
(`audio_alg_launch`), and may be interrupted between any two of its statements.

Three buffers connect the two sides, and no counter tells how full they are:

* `plc_buffer`, where a frame for the speaker is inserted, repaired in place, sent,
  and at last taken once more as the reference of the echo canceller;
* `local_in_buffer`, from which blocks of 160 microphone samples are taken;
* `aec_out_buffer`, the blocks for the air.

Offsets are `int16_t` indexes; they stay below 1000, so they are natural numbers.  The
libraries for packet loss concealment, noise suppression and so on are no part of the
repository: they are functions on the samples they are given (`VoiceLib`).
-/

namespace Fr5080

open Embedded

/-! ## constants -/

/-- `AUDIO_ALG_FRAME_SIZE`. -/
abbrev audioAlgFrameSize : Nat := 30

/-- `AUDIO_ALG_AEC_SIZE`. -/
abbrev audioAlgAecSize : Nat := 160

/-- `AUDIO_ALG_AEC_OFFSET`. -/
abbrev audioAlgAecOffset : Nat := audioAlgAecSize + 30

/-- `PLC_BUFFER_MAX`. -/
abbrev plcBufferMax : Nat := 900

/-- `LOCAL_IN_BUFFER_MAX`. -/
abbrev localInBufferMax : Nat := 900

/-- `AEC_OUT_BUFFER_FRAME_COUNT`. -/
abbrev aecOutBufferFrameCount : Nat := 6

/-- `AEC_OUT_BUFFER_MAX`. -/
abbrev aecOutBufferMax : Nat := audioAlgAecSize * aecOutBufferFrameCount

/-- `CVSD_FS`. -/
abbrev cvsdFs : Nat := 30

/-- `CVSD_LHIST`. -/
abbrev cvsdLhist : Nat := 128 + cvsdFs - 1

/-- `audio_alg_sel`, which nothing changes: all algorithms are selected. -/
def audioAlgSel : UInt8 := 0x0F

/-- `AUDIO_ALG_AEC_ENABLE`. -/
def audioAlgAecEnable : UInt8 := 0x01

/-- `AUDIO_ALG_NR_ENABLE`. -/
def audioAlgNrEnable : UInt8 := 0x02

/-- `AUDIO_ALG_AGC_ENABLE`. -/
def audioAlgAgcEnable : UInt8 := 0x04

/-- `aec_shift`, which nothing changes. -/
def aecShift : Int := -240

/-! ## data -/

/-- `n` samples of type `int16_t`. -/
abbrev Samples (n : Nat) := List.Vector Int16 n

/-- A frame of 30 samples, 3.75 ms. -/
abbrev Frame := Samples audioAlgFrameSize

/-- A block of 160 samples, on which the echo canceller works. -/
abbrev Block := Samples audioAlgAecSize

/-- Samples of silence. -/
def silence (n : Nat) : Samples n := List.Vector.replicate n 0

/-- The samples of frames or blocks, one after the other. -/
def samples {n : Nat} (frames : List (Samples n)) : List Int16 :=
  (frames.map List.Vector.toList).flatten

/-- The counters of a `cvsd_plc_state_t`. -/
structure CvsdPlcState where
  goodFramesNr : Int32
  badFramesNr : Int32
deriving DecidableEq, Repr

/-- The libraries, whose own variables are `ω`.  They write the samples they are
given, and no others. -/
structure VoiceLib (ω : Type*) where
  cvsdPlcGoodFrame : ω × CvsdPlcState → Frame → (ω × CvsdPlcState) × Frame
  cvsdPlcBadFrame : ω × CvsdPlcState → Frame → (ω × CvsdPlcState) × Frame
  drcRun : ω → Frame → ω × Frame
  webRtcNsProcess : ω → Samples 80 → ω × Samples 80
  webRtcAgcProcess : ω → Block → ω × Block
  webRtcAecProcessFrame : ω → Block → Block → ω × Block

/-- The local variables of `audio_alg_launch`. -/
structure LaunchLocals where
  out : Nat
  offset : Nat
  storeSize : Nat
  outFrame : Block
  outFrameMiddle : Block

/-- A frame as it is inserted, and its `esco_data_mute`. -/
structure Inserted where
  frame : Frame
  mute : Bool

/-- What a launch does with its frame: where it stands, what it finds there, the number of
frames sent by then, the mute bit if it is tested, and what it leaves there. -/
structure Launch where
  out : Nat
  before : Frame
  sends : Nat
  tested : Option Bool
  after : Frame

/-- History of a call. -/
structure VoiceLog where
  inserted : List Inserted
  mic : List Frame
  launches : List Launch
  localBlocks : List Block
  aecOut : List Block
  spk : List Frame
  escoOut : List Frame

/-- `struct audio_algorithm_t`, the variables of the libraries and the history. -/
structure AudioAlgorithm (ω : Type*) where
  plcBuffer : Nat → Int16
  plcInDataState : BitVec 32
  plcBufferInsertOffset : Nat
  plcBufferWriteOffset : Nat
  plcBufferReadOffset : Nat
  plcBufferAecOffset : Nat
  localInBuffer : Nat → Int16
  localInBufferWriteOffset : Nat
  localInBufferReadOffset : Nat
  aecOutBuffer : Nat → Int16
  aecOutBufferWriteOffset : Nat
  aecOutBufferReadOffset : Nat
  plcState : CvsdPlcState
  lib : ω
  aecRemoteData : Block
  aecLocalData : Block
  locals : LaunchLocals
  log : VoiceLog

variable {ω : Type*}

/-- `audio_algorithm_init`; `w` and `plc` are what the libraries' own initialisation leaves. -/
def audioAlgorithmInit (w : ω) (plc : CvsdPlcState) : AudioAlgorithm ω where
  plcBuffer := fun _ => 0
  plcInDataState := 0
  plcBufferInsertOffset := 0
  plcBufferWriteOffset := 0
  plcBufferReadOffset := plcBufferMax - 8 * audioAlgFrameSize
  plcBufferAecOffset :=
    if aecShift > 0 then plcBufferMax - 8 * audioAlgFrameSize
    else (((plcBufferMax - 8 * audioAlgFrameSize : Nat) : Int) + aecShift).toNat
  localInBuffer := fun _ => 0
  localInBufferWriteOffset := 0
  localInBufferReadOffset := if aecShift > 0 then localInBufferMax - aecShift.toNat else 0
  aecOutBuffer := fun _ => 0
  aecOutBufferWriteOffset := 0
  aecOutBufferReadOffset := (aecOutBufferFrameCount - 3) * audioAlgAecSize
  plcState := plc
  lib := w
  aecRemoteData := silence _
  aecLocalData := silence _
  locals := ⟨0, 0, 0, silence _, silence _⟩
  log := ⟨[], [], [], [], [], [], []⟩

/-! ## the buffers -/

/-- The samples at `&buf[off]`. -/
def samplesAt (n : Nat) (buf : Nat → Int16) (off : Nat) : Samples n :=
  ⟨slice buf off n, length_slice buf off n⟩

/-- `off += n; if(off >= max) off = 0;` -/
def stepOffset (max n off : Nat) : Nat := if off + n ≥ max then 0 else off + n

/-- `n` samples from `&buf[off]`, going on at the start of the buffer, and the offset
behind them. -/
def wrapRead (max n : Nat) (buf : Nat → Int16) (off : Nat) : Samples n × Nat :=
  let tailLen := max - off
  if h : tailLen ≥ n then (samplesAt n buf off, stepOffset max n off)
  else
    let headLen := n - tailLen
    (⟨slice buf off tailLen ++ slice buf 0 headLen, by simp; omega⟩, headLen)

/-- Moving on in the stream is moving on in the buffer. -/
theorem stepOffset_mod {max n x : Nat} (h : x % max + n ≤ max) :
    stepOffset max n (x % max) = (x + n) % max := by
  have hdiv := Nat.div_add_mod x max
  unfold stepOffset
  split
  · next hge =>
      have hlap : x + n = max * (x / max) + max := by omega
      rw [hlap, Nat.add_mod_right, Nat.mul_mod_right]
  · next hlt =>
      have hsum : x + n = max * (x / max) + (x % max + n) := by omega
      rw [hsum, Nat.mul_add_mod, Nat.mod_eq_of_lt (a := x % max + n) (by omega)]

/-- The offset behind a frame, in the two buffers that are whole frames long. -/
theorem stepOffset_frame {x : Nat} (h : 30 ∣ x) :
    stepOffset plcBufferMax audioAlgFrameSize (x % 900) = (x + 30) % 900 :=
  @stepOffset_mod 900 30 x (by omega)

/-- Reading the next part of a stream, whether or not it passes the end of the buffer. -/
theorem toList_wrapRead {max n x : Nat} {buf : Nat → Int16} {xs : List Int16}
    (h : InRing max buf x xs) (hn : n ≤ xs.length) (hmax : n ≤ max) (hpos : 0 < max) :
    (wrapRead max n buf (x % max)).1.toList = xs.take n := by
  have hlt := Nat.mod_lt x hpos
  by_cases htail : max - x % max ≥ n
  · simp only [wrapRead, htail, dif_pos]
    exact h.slice_eq hn (by omega)
  · simp only [wrapRead, htail, dif_neg, not_false_eq_true]
    exact h.slice_split hn hmax (by omega) hpos

/-- The offset behind it. -/
theorem wrapRead_snd {max n : Nat} (x : Nat) (buf : Nat → Int16) (hmax : n ≤ max)
    (hpos : 0 < max) : (wrapRead max n buf (x % max)).2 = (x + n) % max := by
  have hlt := Nat.mod_lt x hpos
  by_cases htail : max - x % max ≥ n
  · simp only [wrapRead, htail, dif_pos]
    exact stepOffset_mod (by omega)
  · simp only [wrapRead, htail, dif_neg, not_false_eq_true]
    have hsum : x + n = max * (x / max) + max + (n - (max - x % max)) := by
      have := Nat.div_add_mod x max
      omega
    rw [hsum, Nat.add_assoc, Nat.mul_add_mod, Nat.add_mod_left,
      Nat.mod_eq_of_lt (a := n - (max - x % max)) (by omega)]

@[simp]
theorem length_samples {n : Nat} (frames : List (Samples n)) :
    (samples frames).length = n * frames.length := by
  induction frames with
  | nil => simp [samples]
  | cons frame frames ih =>
      simp only [samples, List.map_cons, List.flatten_cons, List.length_append,
        List.Vector.toList_length, List.length_cons] at ih ⊢
      rw [ih, Nat.mul_add, Nat.mul_one, Nat.add_comm]

@[simp]
theorem length_frames (frames : List Frame) : (samples frames).length = 30 * frames.length :=
  length_samples frames

@[simp]
theorem length_blocks (blocks : List Block) : (samples blocks).length = 160 * blocks.length :=
  length_samples blocks

@[simp]
theorem samples_append {n : Nat} (frames frames' : List (Samples n)) :
    samples (frames ++ frames') = samples frames ++ samples frames' := by
  simp [samples]

@[simp]
theorem samples_singleton {n : Nat} (frame : Samples n) : samples [frame] = frame.toList := by
  simp [samples]

theorem samples_replicate_silence (n k : Nat) :
    samples (List.replicate k (silence n)) = List.replicate (n * k) 0 := by
  induction k with
  | zero => simp [samples]
  | succ k ih =>
      rw [List.replicate_succ', samples_append, ih, samples_singleton, Nat.mul_succ,
        List.replicate_add]
      rfl

/-- Whole frames are dropped. -/
theorem drop_samples {n : Nat} (frames : List (Samples n)) (k : Nat) :
    (samples frames).drop (n * k) = samples (frames.drop k) := by
  by_cases hk : k ≤ frames.length
  · conv_lhs => rw [← List.take_append_drop k frames, samples_append]
    rw [List.drop_left' (by rw [length_samples, List.length_take, Nat.min_eq_left hk])]
  · have hle : n * frames.length ≤ n * k := Nat.mul_le_mul_left n (by omega)
    rw [List.drop_of_length_le (by rw [length_samples]; exact hle),
      List.drop_of_length_le (by omega)]
    rfl

theorem drop_frames (frames : List Frame) (k : Nat) :
    (samples frames).drop (30 * k) = samples (frames.drop k) :=
  drop_samples frames k

/-! ## the interrupts -/

/-- `audio_algorithm_get_local_in_write_buffer`: where the next frame of the microphone goes. -/
def AudioAlgorithm.getLocalInWriteBuffer (s : AudioAlgorithm ω) : Nat × AudioAlgorithm ω :=
  (s.localInBufferWriteOffset, { s with
    localInBufferWriteOffset :=
      stepOffset localInBufferMax audioAlgFrameSize s.localInBufferWriteOffset })

/-- `audio_algorithm_get_plc_insert_buffer`: where the next frame from the air goes; its mute bit
is recorded. -/
def AudioAlgorithm.getPlcInsertBuffer (escoDataMute : Bool) (s : AudioAlgorithm ω) :
    Nat × AudioAlgorithm ω :=
  let offset := s.plcBufferInsertOffset / audioAlgFrameSize
  (s.plcBufferInsertOffset, { s with
    plcInDataState :=
      if escoDataMute then s.plcInDataState ||| 1#32 <<< offset
      else s.plcInDataState &&& ~~~(1#32 <<< offset)
    plcBufferInsertOffset := stepOffset plcBufferMax audioAlgFrameSize s.plcBufferInsertOffset })

/-- `audio_algorithm_recv_data`. -/
def AudioAlgorithm.recvData (mic escoIn : Frame) (escoDataMute : Bool) (s : AudioAlgorithm ω) :
    AudioAlgorithm ω :=
  let (tmp, s) := s.getLocalInWriteBuffer
  let (tmp1, s) := s.getPlcInsertBuffer escoDataMute
  let frame := if escoDataMute then silence audioAlgFrameSize else escoIn
  { s with
    plcBuffer := store s.plcBuffer tmp1 frame.toList
    localInBuffer := store s.localInBuffer tmp mic.toList
    log := { s.log with
      inserted := s.log.inserted ++ [⟨frame, escoDataMute⟩]
      mic := s.log.mic ++ [mic] } }

/-- `audio_algorithm_get_plc_out_buffer`: where the next frame for the speaker stands. -/
def AudioAlgorithm.getPlcOutBuffer (s : AudioAlgorithm ω) : Nat × AudioAlgorithm ω :=
  (s.plcBufferReadOffset, { s with
    plcBufferReadOffset := stepOffset plcBufferMax audioAlgFrameSize s.plcBufferReadOffset })

/-- `audio_algorithm_send_data`; `spk_i2s` gets what `spk` gets. -/
def AudioAlgorithm.sendData (s : AudioAlgorithm ω) : AudioAlgorithm ω :=
  let (tmp, s) := s.getPlcOutBuffer
  let spk := samplesAt audioAlgFrameSize s.plcBuffer tmp
  let (escoOut, readOffset) :=
    wrapRead aecOutBufferMax audioAlgFrameSize s.aecOutBuffer s.aecOutBufferReadOffset
  { s with
    aecOutBufferReadOffset := readOffset
    log := { s.log with
      spk := s.log.spk ++ [spk]
      escoOut := s.log.escoOut ++ [escoOut] } }

/-- An interrupt handler calls one of the two. -/
inductive VoiceInterrupt
  | recvData (mic escoIn : Frame) (escoDataMute : Bool)
  | sendData

def VoiceInterrupt.isr : VoiceInterrupt → AudioAlgorithm ω → AudioAlgorithm ω
  | .recvData mic escoIn escoDataMute, s => s.recvData mic escoIn escoDataMute
  | .sendData, s => s.sendData

/-! ## the task -/

/-- The statements of `audio_alg_launch`. -/
inductive LaunchStmt
  | takeFrame
  | plc
  | drc
  | storeSize
  | aecRemote
  | aecLocal
  | ns (execute : Bool)
  | agc (execute : Bool)
  | aec (execute : Bool)
  | advanceOut
deriving DecidableEq, Repr

/-- `audio_alg_launch`. -/
def audioAlgLaunch (execute : Bool) : List LaunchStmt :=
  [.takeFrame, .plc, .drc, .storeSize, .aecRemote, .aecLocal, .ns execute, .agc execute,
    .aec execute, .advanceOut]

/-- The statement that follows in a launch. -/
def LaunchStmt.next (execute : Bool) : LaunchStmt → Option LaunchStmt
  | .takeFrame => some .plc
  | .plc => some .drc
  | .drc => some .storeSize
  | .storeSize => some .aecRemote
  | .aecRemote => some .aecLocal
  | .aecLocal => some (.ns execute)
  | .ns _ => some (.agc execute)
  | .agc _ => some (.aec execute)
  | .aec _ => some .advanceOut
  | .advanceOut => none

theorem head?_of_suffix_launch {c : LaunchStmt} {cs : List LaunchStmt} {execute : Bool}
    (h : c :: cs <:+ audioAlgLaunch execute) : cs.head? = c.next execute := by
  simp only [audioAlgLaunch, List.suffix_cons_iff, List.suffix_nil, List.cons.injEq] at h
  rcases h with ⟨rfl, rfl⟩ | ⟨rfl, rfl⟩ | ⟨rfl, rfl⟩ | ⟨rfl, rfl⟩ | ⟨rfl, rfl⟩ | ⟨rfl, rfl⟩ |
    ⟨rfl, rfl⟩ | ⟨rfl, rfl⟩ | ⟨rfl, rfl⟩ | ⟨rfl, rfl⟩ | h
  all_goals first | rfl | cases h

/-- The offset, index and fill at the entry; the write offset moves on to the next frame. -/
def AudioAlgorithm.takeFrame (s : AudioAlgorithm ω) : AudioAlgorithm ω :=
  let out := s.plcBufferWriteOffset
  { s with
    plcBufferWriteOffset := stepOffset plcBufferMax audioAlgFrameSize out
    locals := { s.locals with
      out := out
      offset := out / audioAlgFrameSize
      storeSize :=
        if out ≥ s.plcBufferReadOffset then out - s.plcBufferReadOffset
        else out + plcBufferMax - s.plcBufferReadOffset }
    log := { s.log with
      launches := s.log.launches ++
        [⟨out, samplesAt _ s.plcBuffer out, s.log.spk.length, none,
          samplesAt _ s.plcBuffer out⟩] } }

/-- The samples at `out` are replaced; the history says by what, and what a test of the
mute bit has found before. -/
def AudioAlgorithm.setOut (tested : Option Bool) (xs : List Int16) (s : AudioAlgorithm ω) :
    AudioAlgorithm ω :=
  let plcBuffer := store s.plcBuffer s.locals.out xs
  { s with
    plcBuffer := plcBuffer
    log := { s.log with
      launches := s.log.launches.modifyLast fun l =>
        { l with tested := tested.or l.tested, after := samplesAt _ plcBuffer s.locals.out } } }

/-- A bad frame is concealed; `memset` clears `CVSD_FS` bytes, which is half a frame. -/
def AudioAlgorithm.plcBad (lib : VoiceLib ω) (s : AudioAlgorithm ω) : AudioAlgorithm ω :=
  if s.plcState.goodFramesNr > Int32.ofNat (cvsdLhist / cvsdFs) then
    let ((w, plc), frame) :=
      lib.cvsdPlcBadFrame (s.lib, s.plcState) (samplesAt _ s.plcBuffer s.locals.out)
    { s.setOut (some true) frame.toList with
      lib := w, plcState := { plc with badFramesNr := plc.badFramesNr + 1 } }
  else s.setOut (some true) (List.replicate (cvsdFs / 2) 0)

/-- A good frame is given to the library. -/
def AudioAlgorithm.plcGood (lib : VoiceLib ω) (tested : Option Bool) (s : AudioAlgorithm ω) :
    AudioAlgorithm ω :=
  let ((w, plc), frame) :=
    lib.cvsdPlcGoodFrame (s.lib, s.plcState) (samplesAt _ s.plcBuffer s.locals.out)
  { s.setOut tested frame.toList with
    lib := w, plcState := { plc with goodFramesNr := plc.goodFramesNr + 1 } }

/-- Packet loss concealment.  The bit is tested only where two frames are stored. -/
def AudioAlgorithm.plc (lib : VoiceLib ω) (s : AudioAlgorithm ω) : AudioAlgorithm ω :=
  if s.locals.storeSize ≥ 2 * audioAlgFrameSize then
    if s.plcInDataState &&& 1#32 <<< s.locals.offset != 0 then s.plcBad lib
    else s.plcGood lib (some false)
  else s.plcGood lib none

/-- `drc_run(out, 30)`. -/
def AudioAlgorithm.drc (lib : VoiceLib ω) (s : AudioAlgorithm ω) : AudioAlgorithm ω :=
  let (w, frame) := lib.drcRun s.lib (samplesAt _ s.plcBuffer s.locals.out)
  { s.setOut none frame.toList with lib := w }

/-- The fill of the side that a block waits for. -/
def AudioAlgorithm.fill (s : AudioAlgorithm ω) : Nat :=
  if aecShift < 0 then
    (s.localInBufferWriteOffset + localInBufferMax - s.localInBufferReadOffset) % localInBufferMax
  else (s.plcBufferReadOffset + plcBufferMax - s.plcBufferAecOffset) % plcBufferMax

/-- The reference block of the echo canceller. -/
def AudioAlgorithm.aecRemote (s : AudioAlgorithm ω) : AudioAlgorithm ω :=
  let (block, off) := wrapRead plcBufferMax audioAlgAecSize s.plcBuffer s.plcBufferAecOffset
  { s with aecRemoteData := block, plcBufferAecOffset := off }

/-- The block of the microphone. -/
def AudioAlgorithm.aecLocal (s : AudioAlgorithm ω) : AudioAlgorithm ω :=
  let (block, off) :=
    wrapRead localInBufferMax audioAlgAecSize s.localInBuffer s.localInBufferReadOffset
  { s with
    aecLocalData := block
    localInBufferReadOffset := off
    log := { s.log with localBlocks := s.log.localBlocks ++ [block] } }

/-- Noise suppression, in two halves. -/
def AudioAlgorithm.ns (lib : VoiceLib ω) (execute : Bool) (s : AudioAlgorithm ω) :
    AudioAlgorithm ω :=
  if execute && audioAlgSel &&& audioAlgNrEnable != 0 then
    let (w, first) := lib.webRtcNsProcess s.lib (s.aecLocalData.take 80)
    let (w, second) := lib.webRtcNsProcess w (s.aecLocalData.drop 80)
    { s with
      lib := w, locals := { s.locals with outFrame := first ++ second } }
  else { s with locals := { s.locals with outFrame := s.aecLocalData } }

/-- Gain control. -/
def AudioAlgorithm.agc (lib : VoiceLib ω) (execute : Bool) (s : AudioAlgorithm ω) :
    AudioAlgorithm ω :=
  if execute && audioAlgSel &&& audioAlgAgcEnable != 0 then
    let (w, block) := lib.webRtcAgcProcess s.lib s.locals.outFrame
    { s with lib := w, locals := { s.locals with outFrameMiddle := block } }
  else { s with locals := { s.locals with outFrameMiddle := s.locals.outFrame } }

/-- A block goes to `aec_out_buffer`. -/
def AudioAlgorithm.putOut (block : Block) (s : AudioAlgorithm ω) : AudioAlgorithm ω :=
  { s with
    aecOutBuffer := store s.aecOutBuffer s.aecOutBufferWriteOffset block.toList
    log := { s.log with aecOut := s.log.aecOut ++ [block] } }

/-- Echo cancellation. -/
def AudioAlgorithm.aec (lib : VoiceLib ω) (execute : Bool) (s : AudioAlgorithm ω) :
    AudioAlgorithm ω :=
  if execute && audioAlgSel &&& audioAlgAecEnable != 0 then
    let (w, block) := lib.webRtcAecProcessFrame s.lib s.aecRemoteData s.locals.outFrameMiddle
    { s.putOut block with lib := w }
  else s.putOut s.locals.outFrameMiddle

/-- One statement of `audio_alg_launch`, and whether the launch goes on. -/
def LaunchStmt.exec (lib : VoiceLib ω) : LaunchStmt → AudioAlgorithm ω → AudioAlgorithm ω × Bool
  | .takeFrame, s => (s.takeFrame, true)
  | .plc, s => (s.plc lib, true)
  | .drc, s => (s.drc lib, true)
  | .storeSize, s => (s, s.fill ≥ audioAlgAecOffset)
  | .aecRemote, s => (s.aecRemote, true)
  | .aecLocal, s => (s.aecLocal, true)
  | .ns execute, s => (s.ns lib execute, true)
  | .agc execute, s => (s.agc lib execute, true)
  | .aec execute, s => (s.aec lib execute, true)
  | .advanceOut, s => ({ s with
      aecOutBufferWriteOffset :=
        stepOffset aecOutBufferMax audioAlgAecSize s.aecOutBufferWriteOffset }, true)

section Statements

variable (lib : VoiceLib ω) (s : AudioAlgorithm ω)

/-- All that `plc` can do. -/
theorem AudioAlgorithm.plc_eq : ∃ tested xs w plcState,
    s.plc lib = { s.setOut tested xs with lib := w, plcState := plcState } := by
  rw [plc, plcBad]
  split
  · split
    · split
      · exact ⟨_, _, _, _, rfl⟩
      · exact ⟨_, _, s.lib, s.plcState, rfl⟩
    · exact ⟨_, _, _, _, rfl⟩
  · exact ⟨_, _, _, _, rfl⟩

/-- All that `ns` can do. -/
theorem AudioAlgorithm.ns_eq (execute : Bool) : ∃ w outFrame, s.ns lib execute =
    { s with lib := w, locals := { s.locals with outFrame := outFrame } } := by
  rw [ns]
  split
  · exact ⟨_, _, rfl⟩
  · exact ⟨s.lib, _, rfl⟩

/-- All that `agc` can do. -/
theorem AudioAlgorithm.agc_eq (execute : Bool) : ∃ w outFrameMiddle, s.agc lib execute =
    { s with lib := w, locals := { s.locals with outFrameMiddle := outFrameMiddle } } := by
  rw [agc]
  split
  · exact ⟨_, _, rfl⟩
  · exact ⟨s.lib, _, rfl⟩

/-- All that `aec` can do. -/
theorem AudioAlgorithm.aec_eq (execute : Bool) :
    ∃ w block, s.aec lib execute = { s.putOut block with lib := w } := by
  rw [aec]
  split
  · exact ⟨_, _, rfl⟩
  · exact ⟨s.lib, _, rfl⟩

end Statements

/-- What only the interrupts change. -/
theorem exec_isr (lib : VoiceLib ω) (c : LaunchStmt) (s : AudioAlgorithm ω) :
    let s' := (c.exec lib s).1
    s'.localInBuffer = s.localInBuffer ∧
      s'.localInBufferWriteOffset = s.localInBufferWriteOffset ∧
      s'.aecOutBufferReadOffset = s.aecOutBufferReadOffset ∧ s'.log.mic = s.log.mic ∧
      s'.log.inserted = s.log.inserted ∧ s'.log.spk = s.log.spk ∧
      s'.log.escoOut = s.log.escoOut := by
  cases c with
  | plc =>
      obtain ⟨tested, xs, w, plcState, hplc⟩ := s.plc_eq lib
      rw [LaunchStmt.exec, hplc]
      exact ⟨rfl, rfl, rfl, rfl, rfl, rfl, rfl⟩
  | ns execute =>
      obtain ⟨w, outFrame, hns⟩ := s.ns_eq lib execute
      rw [LaunchStmt.exec, hns]
      exact ⟨rfl, rfl, rfl, rfl, rfl, rfl, rfl⟩
  | agc execute =>
      obtain ⟨w, outFrameMiddle, hagc⟩ := s.agc_eq lib execute
      rw [LaunchStmt.exec, hagc]
      exact ⟨rfl, rfl, rfl, rfl, rfl, rfl, rfl⟩
  | aec execute =>
      obtain ⟨w, block, haec⟩ := s.aec_eq lib execute
      rw [LaunchStmt.exec, haec]
      exact ⟨rfl, rfl, rfl, rfl, rfl, rfl, rfl⟩
  | _ => exact ⟨rfl, rfl, rfl, rfl, rfl, rfl, rfl⟩

/-- One step of a call: `audio_alg_launch` is called, a statement of it is executed, or
an interrupt inserts or sends a frame. -/
def voiceStep (lib : VoiceLib ω) : TaskState LaunchStmt (AudioAlgorithm ω) →
    TaskEvent Bool VoiceInterrupt → Option (TaskState LaunchStmt (AudioAlgorithm ω)) :=
  taskStep (LaunchStmt.exec lib) VoiceInterrupt.isr audioAlgLaunch

/-- Libraries that leave the samples as they are. -/
def VoiceLib.idle : VoiceLib Unit where
  cvsdPlcGoodFrame s frame := (s, frame)
  cvsdPlcBadFrame s frame := (s, frame)
  drcRun w frame := (w, frame)
  webRtcNsProcess w half := (w, half)
  webRtcAgcProcess w block := (w, block)
  webRtcAecProcessFrame w _ block := (w, block)

/-- The start of a call with libraries that have no variables. -/
def VoiceLib.idleCall : TaskState LaunchStmt (AudioAlgorithm Unit) :=
  ⟨[], audioAlgorithmInit () ⟨0, 0⟩⟩

/-- Libraries that can be heard: `drc_run` adds 1 to each sample, the echo canceller doubles
them. -/
def VoiceLib.louder : VoiceLib Unit where
  cvsdPlcGoodFrame s frame := (s, frame)
  cvsdPlcBadFrame s frame := (s, frame)
  drcRun w frame := (w, frame.map (· + 1))
  webRtcNsProcess w half := (w, half)
  webRtcAgcProcess w block := (w, block)
  webRtcAecProcessFrame w _ block := (w, block.map (· * 2))

/-- The `k`-th frame of the samples 1, 2, 3, … -/
def rampFrame (k : Nat) : Frame :=
  ⟨(List.range 30).map fun i => Int16.ofNat (30 * k + i + 1), by simp⟩

/-- A frame is inserted, launched and sent.  The frame from the air is muted for `k = 3`, and the
launches with a block for the echo canceller are those of 6, 11 and 16. -/
def voiceCycle (k : Nat) : List (TaskEvent Bool VoiceInterrupt) :=
  .interrupt (.recvData (rampFrame k) (rampFrame (100 + k)) (k = 3)) :: .call true ::
    List.replicate (if k = 6 ∨ k = 11 ∨ k = 16 then 10 else 4) .stmt ++ [.interrupt .sendData]

/-- The first `n` cycles of a call. -/
def voiceCycles (n : Nat) : List (TaskEvent Bool VoiceInterrupt) :=
  (List.range n).flatMap voiceCycle

end Fr5080
