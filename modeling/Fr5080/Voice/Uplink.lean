import Fr5080.Voice.Audio

/-!
# Fr5080.Voice.Uplink

The way of the microphone in a call.  A launch takes a block of 160 samples from
`local_in_buffer` when 190 samples seem to be in it, and writes one to
`aec_out_buffer`; the interrupts insert and send frames of 30 samples.

The fill is computed from two offsets modulo the length of the buffer, so that it
is right only as long as the launches do not fall behind by a lap.
`UplinkAt.lag` bounds how far the blocks are behind the launches, whatever the
schedule is; with a bound on the frames not launched (`VoiceLog.Launching`) it bounds
the fill.  `EscoOutAt.lag` is the same for the blocks written.
-/

namespace Fr5080

open Embedded

variable {ω : Type*} {s : AudioAlgorithm ω}

/-! ## what a statement leaves alone -/

/-- What only one statement of the launch changes. -/
theorem exec_others (lib : VoiceLib ω) (c : LaunchStmt) (s : AudioAlgorithm ω) :
    let s' := (c.exec lib s).1
    s'.log.launches.length = s.log.launches.length + (if c = .takeFrame then 1 else 0) ∧
      (c ≠ .aecRemote → s'.plcBufferAecOffset = s.plcBufferAecOffset) ∧
      (c ≠ .aecLocal → s'.localInBufferReadOffset = s.localInBufferReadOffset ∧
        s'.log.localBlocks = s.log.localBlocks) ∧
      ((∀ execute, c ≠ .aec execute) → s'.aecOutBuffer = s.aecOutBuffer ∧
        s'.log.aecOut = s.log.aecOut) ∧
      (c ≠ .advanceOut → s'.aecOutBufferWriteOffset = s.aecOutBufferWriteOffset) := by
  have hlength : ∀ (f : Launch → Launch) (ls : List Launch),
      (ls.modifyLast f).length = ls.length := by
    intro f ls
    rcases List.eq_nil_or_concat ls with rfl | ⟨ls, l, rfl⟩
    · rfl
    · simp [List.modifyLast_concat]
  cases c with
  | plc =>
      obtain ⟨tested, xs, w, plcState, hplc⟩ := s.plc_eq lib
      simp [LaunchStmt.exec, hplc, AudioAlgorithm.setOut, hlength]
  | drc => simp [LaunchStmt.exec, AudioAlgorithm.drc, AudioAlgorithm.setOut, hlength]
  | ns execute =>
      obtain ⟨w, outFrame, hns⟩ := s.ns_eq lib execute
      simp [LaunchStmt.exec, hns]
  | agc execute =>
      obtain ⟨w, outFrameMiddle, hagc⟩ := s.agc_eq lib execute
      simp [LaunchStmt.exec, hagc]
  | aec execute =>
      obtain ⟨w, block, haec⟩ := s.aec_eq lib execute
      simp [LaunchStmt.exec, haec, AudioAlgorithm.putOut]
  | takeFrame => simp [LaunchStmt.exec, AudioAlgorithm.takeFrame]
  | storeSize => simp [LaunchStmt.exec]
  | aecRemote => simp [LaunchStmt.exec, AudioAlgorithm.aecRemote]
  | aecLocal => simp [LaunchStmt.exec, AudioAlgorithm.aecLocal]
  | advanceOut => simp [LaunchStmt.exec]

/-! ## the microphone -/

/-- The variables stand for the stream of the microphone: `localBlocks` are its first
samples, and the rest stands in the buffer. -/
structure Uplink (s : AudioAlgorithm ω) : Prop where
  length : s.log.mic.length = s.log.inserted.length
  write : s.localInBufferWriteOffset = 30 * s.log.mic.length % 900
  read : s.localInBufferReadOffset = 160 * s.log.localBlocks.length % 900
  ring : InRing 900 s.localInBuffer (160 * s.log.localBlocks.length)
    ((samples s.log.mic).drop (160 * s.log.localBlocks.length))
  le : 160 * s.log.localBlocks.length ≤ 30 * s.log.mic.length
  blocks : samples s.log.localBlocks =
    (samples s.log.mic).take (160 * s.log.localBlocks.length)

/-- A frame of the microphone is inserted. -/
theorem Uplink.recvData (h : Uplink s)
    (hfits : 30 * s.log.mic.length + 30 ≤ 160 * s.log.localBlocks.length + 900)
    (mic escoIn : Frame) (mute : Bool) : Uplink (s.recvData mic escoIn mute) := by
  have hle := h.le
  have hmic : (s.recvData mic escoIn mute).log.mic = s.log.mic ++ [mic] := rfl
  have hblocks : (s.recvData mic escoIn mute).log.localBlocks = s.log.localBlocks := rfl
  have hread : (s.recvData mic escoIn mute).localInBufferReadOffset =
    s.localInBufferReadOffset := rfl
  have hinserted : (s.recvData mic escoIn mute).log.inserted.length =
      s.log.inserted.length + 1 := by
    simp [AudioAlgorithm.recvData, AudioAlgorithm.getLocalInWriteBuffer,
      AudioAlgorithm.getPlcInsertBuffer]
  refine ⟨?_, ?_, ?_, ?_, ?_, ?_⟩
  · rw [hmic, hinserted, List.length_append, List.length_singleton, h.length]
  · show stepOffset localInBufferMax audioAlgFrameSize s.localInBufferWriteOffset = _
    rw [hmic, List.length_append, List.length_singleton, h.write]
    exact (stepOffset_frame (by omega)).trans (by omega)
  · rw [hread, hblocks, h.read]
  · have hlength : ((samples s.log.mic).drop (160 * s.log.localBlocks.length)).length =
        30 * s.log.mic.length - 160 * s.log.localBlocks.length := by
      rw [List.length_drop, length_frames]
    have hpos : (160 * s.log.localBlocks.length +
        ((samples s.log.mic).drop (160 * s.log.localBlocks.length)).length) % 900 =
          s.localInBufferWriteOffset := by
      rw [hlength, h.write]
      omega
    have hpush := h.ring.push mic.toList
      (by rw [hlength, List.Vector.toList_length]; show _ + 30 ≤ 900; omega)
      (by rw [hlength, List.Vector.toList_length]; show _ + 30 ≤ 900; omega)
    rw [hpos] at hpush
    rw [hmic, hblocks, samples_append, samples_singleton,
      List.drop_append_of_le_length (by rw [length_frames]; exact hle)]
    exact hpush
  · rw [hmic, hblocks, List.length_append, List.length_singleton]
    omega
  · rw [hmic, hblocks, samples_append,
      List.take_append_of_le_length (by rw [length_frames]; exact hle)]
    exact h.blocks

/-- A block is taken. -/
theorem Uplink.aecLocal (h : Uplink s)
    (hle : 160 * s.log.localBlocks.length + 160 ≤ 30 * s.log.mic.length) :
    Uplink s.aecLocal := by
  have hlength : ((samples s.log.mic).drop (160 * s.log.localBlocks.length)).length =
      30 * s.log.mic.length - 160 * s.log.localBlocks.length := by
    rw [List.length_drop, length_frames]
  obtain ⟨block, hblock, hlog⟩ : ∃ block : Block, block.toList =
      ((samples s.log.mic).drop (160 * s.log.localBlocks.length)).take 160 ∧
        s.aecLocal.log.localBlocks = s.log.localBlocks ++ [block] := by
    refine ⟨_, ?_, rfl⟩
    rw [h.read]
    exact toList_wrapRead h.ring (by rw [hlength]; show 160 ≤ _; omega) (by decide) (by decide)
  have hmic : s.aecLocal.log.mic = s.log.mic := rfl
  have hstep : 160 * (s.log.localBlocks.length + 1) = 160 * s.log.localBlocks.length + 160 := rfl
  refine ⟨h.length, h.write, ?_, ?_, ?_, ?_⟩
  · show (wrapRead 900 160 s.localInBuffer s.localInBufferReadOffset).2 = _
    rw [hlog, List.length_append, List.length_singleton, h.read,
      wrapRead_snd _ _ (by decide) (by decide), hstep]
  · rw [hlog, hmic, List.length_append, List.length_singleton, hstep, ← List.drop_drop]
    exact h.ring.drop (by rw [hlength]; omega)
  · rw [hlog, hmic, List.length_append, List.length_singleton]
    omega
  · rw [hlog, hmic, List.length_append, List.length_singleton, hstep, samples_append,
      samples_singleton, h.blocks, hblock, List.take_add]

/-- Statements other than the copy leave it. -/
theorem Uplink.exec (h : Uplink s) (lib : VoiceLib ω) {c : LaunchStmt} (hc : c ≠ .aecLocal) :
    Uplink (c.exec lib s).1 := by
  obtain ⟨hbuf, hwrite, -, hmic, hinserted, -, -⟩ := exec_isr lib c s
  obtain ⟨-, -, hblocks, -, -⟩ := exec_others lib c s
  obtain ⟨hread, hblocks⟩ := hblocks hc
  refine ⟨?_, ?_, ?_, ?_, ?_, ?_⟩
  · rw [hmic, hinserted, h.length]
  · rw [hwrite, hmic, h.write]
  · rw [hread, hblocks, h.read]
  · rw [hbuf, hmic, hblocks]
    exact h.ring
  · rw [hmic, hblocks]
    exact h.le
  · rw [hmic, hblocks, h.blocks]

/-! ## how far the blocks are behind -/

/-- How many samples of launched frames may be left over, with the next statement `c`. -/
def lagBound : Option LaunchStmt → Nat
  | some .plc | some .drc | some .storeSize | some .aecRemote | some .aecLocal => 210
  | _ => 180

/-- A launch is for a frame that was inserted, and at most 22 frames are not launched. -/
def VoiceLog.Launching (l : VoiceLog) : Prop :=
  l.launches.length ≤ l.inserted.length ∧ l.inserted.length ≤ l.launches.length + 22

instance (l : VoiceLog) : Decidable l.Launching := inferInstanceAs (Decidable (_ ∧ _))

/-- What holds with `code` still to be executed. -/
structure UplinkAt (code : List LaunchStmt) (s : AudioAlgorithm ω) : Prop where
  up : Uplink s
  shape : ∃ execute, code <:+ audioAlgLaunch execute
  lag : 30 * s.log.launches.length ≤
    160 * s.log.localBlocks.length + lagBound code.head?
  full : code.head? = some .aecRemote ∨ code.head? = some .aecLocal →
    160 * s.log.localBlocks.length + 190 ≤ 30 * s.log.mic.length
  remote : s.plcBufferAecOffset = (420 + 160 * (s.log.localBlocks.length +
    if code.head? = some .aecLocal then 1 else 0)) % 900

theorem uplinkAt_init (w : ω) (plc : CvsdPlcState) : UplinkAt [] (audioAlgorithmInit w plc) := by
  refine ⟨⟨rfl, rfl, rfl, inRing_nil, le_rfl, rfl⟩, ⟨true, List.nil_suffix⟩, ?_, ?_, rfl⟩
  · simp [audioAlgorithmInit]
  · simp

theorem lagBound_le (c : Option LaunchStmt) : lagBound c ≤ 210 := by
  unfold lagBound
  split <;> omega

/-- The fill is what it seems to be. -/
theorem UplinkAt.fill_eq {code : List LaunchStmt} (h : UplinkAt code s)
    (hstep : s.log.Launching) :
    s.fill = 30 * s.log.mic.length - 160 * s.log.localBlocks.length := by
  have hle := h.up.le
  have hlag := h.lag
  have hbound := lagBound_le code.head?
  have hlength := h.up.length
  obtain ⟨-, hahead⟩ := hstep
  show (s.localInBufferWriteOffset + 900 - s.localInBufferReadOffset) % 900 = _
  rw [h.up.write, h.up.read]
  omega

/-- An interrupt, wherever the launch is. -/
theorem UplinkAt.isr {code : List LaunchStmt} (h : UplinkAt code s) (e : VoiceInterrupt)
    (hstep' : (e.isr s).log.Launching) : UplinkAt code (e.isr s) := by
  cases e with
  | recvData mic escoIn mute =>
      have hlag := h.lag
      have hbound := lagBound_le code.head?
      have hlength := h.up.length
      have hahead : s.log.inserted.length + 1 ≤ s.log.launches.length + 22 := by
        simpa [VoiceInterrupt.isr, AudioAlgorithm.recvData, AudioAlgorithm.getLocalInWriteBuffer,
          AudioAlgorithm.getPlcInsertBuffer] using hstep'.2
      refine ⟨h.up.recvData (by omega) mic escoIn mute, h.shape, hlag, fun hhead => ?_, h.remote⟩
      have hfull := h.full hhead
      show _ ≤ 30 * (s.log.mic ++ [mic]).length
      rw [List.length_append]
      exact hfull.trans (by omega)
  | sendData =>
      exact ⟨⟨h.up.length, h.up.write, h.up.read, h.up.ring, h.up.le, h.up.blocks⟩, h.shape, h.lag,
        h.full, h.remote⟩

section Stmt

variable {cs : List LaunchStmt} {execute : Bool}

/-- A block is taken. -/
theorem UplinkAt.aecLocal (h : UplinkAt (.aecLocal :: cs) s)
    (hshape : ∃ execute, cs <:+ audioAlgLaunch execute)
    (hnext : cs.head? = LaunchStmt.aecLocal.next execute) : UplinkAt cs s.aecLocal := by
  have hlag := h.lag
  have hremote := h.remote
  have hfull := h.full (Or.inr rfl)
  have hblocks : s.aecLocal.log.localBlocks.length = s.log.localBlocks.length + 1 := by
    simp [AudioAlgorithm.aecLocal]
  refine ⟨h.up.aecLocal (by omega), hshape, ?_, fun hhead => ?_, ?_⟩
  · show 30 * s.log.launches.length ≤ 160 * s.aecLocal.log.localBlocks.length + lagBound cs.head?
    rw [hblocks, hnext]
    simp only [lagBound, LaunchStmt.next, List.head?_cons] at hlag ⊢
    omega
  · simp [hnext, LaunchStmt.next] at hhead
  · show s.plcBufferAecOffset = (420 + 160 * (s.aecLocal.log.localBlocks.length +
      if cs.head? = some .aecLocal then 1 else 0)) % 900
    simpa [hblocks, hnext, LaunchStmt.next] using hremote

/-- The launch goes on when the buffer holds a block and a frame. -/
theorem UplinkAt.storeSize (h : UplinkAt (.storeSize :: cs) s) (hstep : s.log.Launching)
    (hsuffix : .storeSize :: cs <:+ audioAlgLaunch execute) :
    UplinkAt (if decide (s.fill ≥ audioAlgAecOffset) then cs else []) s := by
  have hnext := head?_of_suffix_launch hsuffix
  have hlag := h.lag
  have hremote := h.remote
  have hlength := h.up.length
  have hle := hstep.1
  rw [h.fill_eq hstep]
  by_cases hge : 30 * s.log.mic.length - 160 * s.log.localBlocks.length ≥ 190
  · rw [if_pos (by simpa using hge)]
    refine ⟨h.up, ⟨execute, (List.suffix_cons _ cs).trans hsuffix⟩, ?_, fun _ => by omega, ?_⟩
    · simp only [lagBound, hnext, LaunchStmt.next, List.head?_cons] at hlag ⊢
      omega
    · simpa [hnext, LaunchStmt.next] using hremote
  · rw [if_neg (by simpa using hge)]
    refine ⟨h.up, ⟨execute, List.nil_suffix⟩, ?_, by simp, by simpa using hremote⟩
    simp only [lagBound, List.head?_nil]
    omega

end Stmt

/-- A statement of the launch. -/
theorem UplinkAt.stmt {c : LaunchStmt} {cs : List LaunchStmt} (h : UplinkAt (c :: cs) s)
    (hstep : s.log.Launching) (lib : VoiceLib ω) :
    UplinkAt (if (c.exec lib s).2 then cs else []) (c.exec lib s).1 := by
  obtain ⟨execute, hsuffix⟩ := h.shape
  have hnext := head?_of_suffix_launch hsuffix
  have hshape : ∃ execute, cs <:+ audioAlgLaunch execute :=
    ⟨execute, (List.suffix_cons c cs).trans hsuffix⟩
  by_cases hc : c = .aecLocal
  · subst hc
    exact h.aecLocal hshape hnext
  by_cases hsize : c = .storeSize
  · subst hsize
    exact h.storeSize hstep hsuffix
  have hlag := h.lag
  have hremote := h.remote
  have hmic := (exec_isr lib c s).2.2.2.1
  obtain ⟨hlaunches, haec, hlocal, -, -⟩ := exec_others lib c s
  obtain ⟨hread, hblocks⟩ := hlocal hc
  have hgo : (c.exec lib s).2 = true := by cases c <;> first | rfl | exact absurd rfl hsize
  rw [hgo, if_pos rfl]
  refine ⟨h.up.exec lib hc, hshape, ?_, fun hhead => ?_, ?_⟩
  · rw [hlaunches, hblocks, hnext]
    cases c with
    | takeFrame =>
        simp only [lagBound, List.head?_cons, LaunchStmt.next, if_true] at hlag ⊢
        omega
    | aecLocal => exact absurd rfl hc
    | storeSize => exact absurd rfl hsize
    | _ => simpa [lagBound, LaunchStmt.next] using hlag
  · rw [hblocks, hmic]
    cases c with
    | aecRemote => exact h.full (Or.inl rfl)
    | storeSize => exact absurd rfl hsize
    | _ => simp [hnext, LaunchStmt.next] at hhead
  · rw [hblocks, hnext]
    by_cases hcopy : c = .aecRemote
    · subst hcopy
      have hoff : s.plcBufferAecOffset = (420 + 160 * s.log.localBlocks.length) % 900 := by
        simpa using hremote
      show (wrapRead 900 160 s.plcBuffer s.plcBufferAecOffset).2 = _
      rw [hoff, wrapRead_snd _ _ (by decide) (by decide)]
      simp [LaunchStmt.next, Nat.mul_add, Nat.add_assoc]
    · rw [haec hcopy, hremote]
      cases c <;> simp_all [LaunchStmt.next]

/-- One step of a call. -/
theorem UplinkAt.step (lib : VoiceLib ω) {t t' : TaskState LaunchStmt (AudioAlgorithm ω)}
    {e : TaskEvent Bool VoiceInterrupt} (h : UplinkAt t.code t.state)
    (hstep : t.state.log.Launching) (hstep' : t'.state.log.Launching)
    (hrun : voiceStep lib t e = some t') : UplinkAt t'.code t'.state := by
  obtain ⟨execute, -, hcode, rfl⟩ | ⟨c, cs, -, hcode, rfl⟩ | ⟨i, -, rfl⟩ := taskStep_cases hrun
  · rw [hcode] at h
    exact ⟨h.up, ⟨execute, List.suffix_rfl⟩, h.lag, by simp [audioAlgLaunch], by
      simpa [audioAlgLaunch] using h.remote⟩
  · rw [hcode] at h
    exact h.stmt hstep lib
  · exact h.isr i hstep'

variable {lib : VoiceLib ω} {w : ω} {plc : CvsdPlcState} {es : List (TaskEvent Bool VoiceInterrupt)}
  {t : TaskState LaunchStmt (AudioAlgorithm ω)}

/-- The blocks of the microphone are exact and aligned.  In every schedule in which at most
22 frames are not launched, they are consecutive pieces of what the microphone gave,
no sample is taken before it is written, the buffer does not overflow, and outside of
the two copies of a block the offsets of the reference and of the microphone keep their
distance. -/
theorem uplink_blocks_exact
    (hstays : Stays (voiceStep lib) (fun t => t.state.log.Launching)
      ⟨[], audioAlgorithmInit w plc⟩ es)
    (h : run (voiceStep lib) ⟨[], audioAlgorithmInit w plc⟩ es = some t) :
    let s := t.state
    let l := t.state.log
    samples l.localBlocks = (samples l.mic).take (160 * l.localBlocks.length) ∧
      160 * l.localBlocks.length ≤ (samples l.mic).length ∧
      (samples l.mic).length ≤ 160 * l.localBlocks.length + 900 ∧
      (t.code.head? ≠ some .aecLocal →
        ((s.plcBufferAecOffset : Int) - s.localInBufferReadOffset) % 900 =
          (((audioAlgorithmInit w plc).plcBufferAecOffset : Int) -
            (audioAlgorithmInit w plc).localInBufferReadOffset) % 900) := by
  obtain ⟨hinv, hle, hahead⟩ := run_inv_of_stays
    (I := fun t => UplinkAt t.code t.state)
    (fun _ _ _ hI hG hG' hrun => hI.step lib hG hG' hrun) (uplinkAt_init w plc)
    (by simp [VoiceLog.Launching, audioAlgorithmInit]) hstays h
  have hup := hinv.up
  have hlag := hinv.lag
  have hbound := lagBound_le t.code.head?
  have hlength := hup.length
  refine ⟨hup.blocks, by rw [length_frames]; exact hup.le, by rw [length_frames]; omega,
    fun hhead => ?_⟩
  have hremote := hinv.remote
  rw [if_neg hhead] at hremote
  show _ = ((420 : Nat) - (0 : Nat) : Int) % 900
  rw [hremote, hup.read]
  omega

/-- Twelve frames, and the first two blocks of them. -/
theorem uplink_blocks_exact_cycles :
    ∃ t, run (voiceStep .louder) VoiceLib.idleCall (voiceCycles 12) = some t ∧
      samples t.state.log.localBlocks = (List.range 320).map (fun i => Int16.ofNat (1 + i)) ∧
      samples t.state.log.localBlocks =
        (samples t.state.log.mic).take (160 * t.state.log.localBlocks.length) ∧
      ((t.state.plcBufferAecOffset : Int) - t.state.localInBufferReadOffset) % 900 = 420 := by
  obtain ⟨t, hrun, hview⟩ := Option.map_eq_some_iff.mp (show
    (run (voiceStep .louder) VoiceLib.idleCall (voiceCycles 12)).map
      (fun t => (t.code, samples t.state.log.localBlocks)) =
        some ([], (List.range 320).map (fun i => Int16.ofNat (1 + i))) by
    decide +kernel)
  simp only [Prod.mk.injEq] at hview
  obtain ⟨hcode, hblocks⟩ := hview
  obtain ⟨hexact, -, -, hdistance⟩ := uplink_blocks_exact (by decide +kernel) hrun
  exact ⟨t, hrun, hblocks, hexact, hdistance (by rw [hcode]; nofun)⟩

/-! ## the way out -/

/-- What goes to the air: three blocks of silence, and the blocks written. -/
def VoiceLog.escoStream (l : VoiceLog) : List Int16 := List.replicate 480 0 ++ samples l.aecOut

@[simp]
theorem VoiceLog.length_escoStream (l : VoiceLog) :
    l.escoStream.length = 480 + 160 * l.aecOut.length := by
  rw [escoStream, List.length_append, List.length_replicate, length_blocks]

/-- The unsent part of the stream stands in `aec_out_buffer`. -/
structure EscoOut (s : AudioAlgorithm ω) : Prop where
  length : s.log.escoOut.length = s.log.spk.length
  read : s.aecOutBufferReadOffset = (480 + 30 * s.log.escoOut.length) % 960
  ring : InRing 960 s.aecOutBuffer (480 + 30 * s.log.escoOut.length)
    (s.log.escoStream.drop (30 * s.log.escoOut.length))
  le : 30 * s.log.escoOut.length ≤ 480 + 160 * s.log.aecOut.length
  sent : samples s.log.escoOut = s.log.escoStream.take (30 * s.log.escoOut.length)

/-- A frame is sent. -/
theorem EscoOut.sendData (h : EscoOut s)
    (hle : 30 * s.log.escoOut.length + 30 ≤ 480 + 160 * s.log.aecOut.length) :
    EscoOut s.sendData := by
  have hlength : (s.log.escoStream.drop (30 * s.log.escoOut.length)).length =
      480 + 160 * s.log.aecOut.length - 30 * s.log.escoOut.length := by
    rw [List.length_drop, VoiceLog.length_escoStream]
  obtain ⟨frame, hframe, hlog⟩ : ∃ frame : Frame, frame.toList =
      (s.log.escoStream.drop (30 * s.log.escoOut.length)).take 30 ∧
        s.sendData.log.escoOut = s.log.escoOut ++ [frame] := by
    refine ⟨_, ?_, rfl⟩
    show (wrapRead 960 30 s.aecOutBuffer s.aecOutBufferReadOffset).1.toList = _
    rw [h.read]
    exact toList_wrapRead h.ring (by rw [hlength]; omega) (by decide) (by decide)
  have hspk : s.sendData.log.spk.length = s.log.spk.length + 1 := by
    simp [AudioAlgorithm.sendData, AudioAlgorithm.getPlcOutBuffer]
  have hstream : s.sendData.log.escoStream = s.log.escoStream := rfl
  have hout : s.sendData.log.aecOut = s.log.aecOut := rfl
  have hstep : 30 * (s.log.escoOut.length + 1) = 30 * s.log.escoOut.length + 30 := rfl
  refine ⟨?_, ?_, ?_, ?_, ?_⟩
  · rw [hlog, hspk, List.length_append, List.length_singleton, h.length]
  · show (wrapRead 960 30 s.aecOutBuffer s.aecOutBufferReadOffset).2 = _
    rw [hlog, List.length_append, List.length_singleton, h.read,
      wrapRead_snd _ _ (by decide) (by decide), hstep, Nat.add_assoc]
  · rw [hlog, hstream, List.length_append, List.length_singleton, hstep, ← List.drop_drop,
      ← Nat.add_assoc]
    exact h.ring.drop (by rw [hlength]; omega)
  · rw [hlog, hout, List.length_append, List.length_singleton]
    omega
  · rw [hlog, hstream, List.length_append, List.length_singleton, hstep, samples_append,
      samples_singleton, h.sent, hframe, List.take_add]

/-- A block is written behind the stream. -/
theorem EscoOut.putOut (h : EscoOut s)
    (hwrite : s.aecOutBufferWriteOffset = 160 * s.log.aecOut.length % 960)
    (hfits : 160 * s.log.aecOut.length ≤ 320 + 30 * s.log.escoOut.length) (block : Block) :
    EscoOut (s.putOut block) := by
  have hle := h.le
  have hlength : (s.log.escoStream.drop (30 * s.log.escoOut.length)).length =
      480 + 160 * s.log.aecOut.length - 30 * s.log.escoOut.length := by
    rw [List.length_drop, VoiceLog.length_escoStream]
  have hstream : (s.putOut block).log.escoStream = s.log.escoStream ++ block.toList := by
    rw [VoiceLog.escoStream, VoiceLog.escoStream, AudioAlgorithm.putOut, samples_append,
      samples_singleton, List.append_assoc]
  have hout : (s.putOut block).log.aecOut = s.log.aecOut ++ [block] := rfl
  have hsent : (s.putOut block).log.escoOut = s.log.escoOut := rfl
  have hcover : 30 * s.log.escoOut.length ≤ s.log.escoStream.length := by
    rw [VoiceLog.length_escoStream]
    exact hle
  refine ⟨h.length, h.read, ?_, ?_, ?_⟩
  · have hpos : (480 + 30 * s.log.escoOut.length +
        (s.log.escoStream.drop (30 * s.log.escoOut.length)).length) % 960 =
          s.aecOutBufferWriteOffset := by
      rw [hlength, hwrite]
      omega
    have hpush := h.ring.push block.toList
      (by rw [hlength, List.Vector.toList_length]; show _ + 160 ≤ 960; omega)
      (by rw [hlength, List.Vector.toList_length]; show _ + 160 ≤ 960; omega)
    rw [hpos] at hpush
    rw [hstream, hsent, List.drop_append_of_le_length hcover]
    exact hpush
  · rw [hsent, hout, List.length_append, List.length_singleton]
    omega
  · rw [hsent, hstream, List.take_append_of_le_length hcover]
    exact h.sent

/-- The echo canceller writes its block, or the block of the microphone as it is. -/
theorem EscoOut.aec (h : EscoOut s)
    (hwrite : s.aecOutBufferWriteOffset = 160 * s.log.aecOut.length % 960)
    (hfits : 160 * s.log.aecOut.length ≤ 320 + 30 * s.log.escoOut.length) (lib : VoiceLib ω)
    (execute : Bool) :
    EscoOut (s.aec lib execute) ∧
      (s.aec lib execute).log.aecOut.length = s.log.aecOut.length + 1 := by
  have hput := h.putOut hwrite hfits
  unfold AudioAlgorithm.aec
  split
  · obtain ⟨hlength, hread, hring, hle, hsent⟩ :=
      hput (lib.webRtcAecProcessFrame s.lib s.aecRemoteData s.locals.outFrameMiddle).2
    exact ⟨⟨hlength, hread, hring, hle, hsent⟩, by simp [AudioAlgorithm.putOut]⟩
  · exact ⟨hput _, by simp [AudioAlgorithm.putOut]⟩

/-- Statements other than the echo canceller leave it. -/
theorem EscoOut.exec (h : EscoOut s) (lib : VoiceLib ω) {c : LaunchStmt}
    (hc : ∀ execute, c ≠ .aec execute) : EscoOut (c.exec lib s).1 := by
  obtain ⟨-, -, hread, -, -, hspk, hsent⟩ := exec_isr lib c s
  obtain ⟨-, -, -, hblocks, -⟩ := exec_others lib c s
  obtain ⟨hbuf, hout⟩ := hblocks hc
  have hstream : (c.exec lib s).1.log.escoStream = s.log.escoStream := by
    rw [VoiceLog.escoStream, hout]
    rfl
  refine ⟨?_, ?_, ?_, ?_, ?_⟩
  · rw [hsent, hspk, h.length]
  · rw [hread, hsent, h.read]
  · rw [hbuf, hsent, hstream]
    exact h.ring
  · rw [hsent, hout]
    exact h.le
  · rw [hsent, hstream]
    exact h.sent

/-- A launch is for a frame that was inserted, at most 14 frames are inserted ahead of
those sent, and at most 8 sent ahead of the launches. -/
def VoiceLog.Balanced (l : VoiceLog) : Prop :=
  l.launches.length ≤ l.inserted.length ∧ l.inserted.length ≤ l.spk.length + 14 ∧
    l.spk.length ≤ l.launches.length + 8

instance (l : VoiceLog) : Decidable l.Balanced := inferInstanceAs (Decidable (_ ∧ _ ∧ _))

theorem VoiceLog.Balanced.launching {l : VoiceLog} (h : l.Balanced) : l.Launching :=
  ⟨h.1, h.2.1.trans (by have := h.2.2; omega)⟩

/-- With the next statement `c`, the number of blocks taken and not written. -/
def pendingBlock : Option LaunchStmt → Nat
  | some (.ns _) | some (.agc _) | some (.aec _) => 1
  | _ => 0

/-- With the next statement `c`, the number of blocks written in front of the offset. -/
def writtenBlock : Option LaunchStmt → Nat
  | some .advanceOut => 1
  | _ => 0

/-- What holds with `code` still to be executed. -/
structure EscoOutAt (code : List LaunchStmt) (s : AudioAlgorithm ω) : Prop where
  up : UplinkAt code s
  out : EscoOut s
  written : s.log.localBlocks.length = s.log.aecOut.length + pendingBlock code.head?
  pending : pendingBlock code.head? = 1 →
    30 * s.log.launches.length ≤ 160 * s.log.aecOut.length + 210 ∧
      160 * s.log.aecOut.length + 190 ≤ 30 * s.log.mic.length
  write : ∃ n, s.log.aecOut.length = n + writtenBlock code.head? ∧
    s.aecOutBufferWriteOffset = 160 * n % 960

theorem escoOutAt_init (w : ω) (plc : CvsdPlcState) : EscoOutAt [] (audioAlgorithmInit w plc) := by
  refine ⟨uplinkAt_init w plc, ⟨rfl, rfl, ?_, Nat.zero_le _, rfl⟩, rfl, nofun, 0, rfl, rfl⟩
  have hzero : (audioAlgorithmInit w plc).log.escoStream.drop
      (30 * (audioAlgorithmInit w plc).log.escoOut.length) = List.replicate 480 0 :=
    List.append_nil _
  rw [hzero]
  intro i hi
  rw [List.getElem_replicate]
  rfl

/-- The blocks written keep up with the launches. -/
theorem EscoOutAt.lag {code : List LaunchStmt} (h : EscoOutAt code s) :
    30 * s.log.launches.length ≤ 160 * s.log.aecOut.length + 210 := by
  have hwritten := h.written
  by_cases hpending : pendingBlock code.head? = 1
  · exact (h.pending hpending).1
  · have hlag := h.up.lag
    have hbound := lagBound_le code.head?
    have hle : pendingBlock code.head? = 0 := by
      revert hpending
      unfold pendingBlock
      split <;> simp
    omega

/-- An interrupt, wherever the launch is. -/
theorem EscoOutAt.isr {code : List LaunchStmt} (h : EscoOutAt code s) (e : VoiceInterrupt)
    (hstep' : (e.isr s).log.Balanced) : EscoOutAt code (e.isr s) := by
  have hup := h.up.isr e hstep'.launching
  cases e with
  | recvData mic escoIn mute =>
      refine ⟨hup, ⟨h.out.length, h.out.read, h.out.ring, h.out.le, h.out.sent⟩, h.written,
        fun hhead => ?_, h.write⟩
      obtain ⟨hlag, hfull⟩ := h.pending hhead
      refine ⟨hlag, hfull.trans ?_⟩
      show _ ≤ 30 * (s.log.mic ++ [mic]).length
      rw [List.length_append]
      omega
  | sendData =>
      have hlag := h.lag
      have hlength := h.out.length
      have hahead : s.log.spk.length + 1 ≤ s.log.launches.length + 8 := by
        simpa [VoiceInterrupt.isr, AudioAlgorithm.sendData, AudioAlgorithm.getPlcOutBuffer]
          using hstep'.2.2
      exact ⟨hup, h.out.sendData (by omega), h.written, h.pending, h.write⟩

section Stmt

variable {cs : List LaunchStmt} {execute : Bool}

/-- The fill is tested, and the launch goes on or returns. -/
theorem EscoOutAt.storeSize (h : EscoOutAt (.storeSize :: cs) s) (go : Bool)
    (hup : UplinkAt (if go then cs else []) s)
    (hnext : cs.head? = LaunchStmt.storeSize.next execute) :
    EscoOutAt (if go then cs else []) s := by
  obtain ⟨n, hn, hwrite⟩ := h.write
  cases go with
  | true =>
      refine ⟨hup, h.out, ?_, ?_, n, ?_, hwrite⟩
      · rw [if_pos rfl, hnext]
        exact h.written
      · rw [if_pos rfl, hnext]
        nofun
      · rw [if_pos rfl, hnext]
        exact hn
  | false => exact ⟨hup, h.out, h.written, nofun, n, hn, hwrite⟩

/-- A block is taken, and not yet written. -/
theorem EscoOutAt.aecLocal (h : EscoOutAt (.aecLocal :: cs) s) (hup : UplinkAt cs s.aecLocal)
    (hout : EscoOut s.aecLocal) (hnext : cs.head? = LaunchStmt.aecLocal.next execute) :
    EscoOutAt cs s.aecLocal := by
  have hwritten : s.log.localBlocks.length = s.log.aecOut.length := h.written
  have hfull := h.up.full (Or.inr rfl)
  obtain ⟨n, hn, hwrite⟩ := h.write
  refine ⟨hup, hout, ?_, fun _ => ⟨h.lag, ?_⟩, n, ?_, hwrite⟩
  · show s.aecLocal.log.localBlocks.length = s.log.aecOut.length + pendingBlock cs.head?
    rw [hnext, ← hwritten]
    simp [AudioAlgorithm.aecLocal, pendingBlock, LaunchStmt.next]
  · rw [hwritten] at hfull
    exact hfull
  · rw [hnext]
    exact hn

/-- The block is written. -/
theorem EscoOutAt.aec {execute' : Bool} (h : EscoOutAt (.aec execute' :: cs) s)
    (hstep : s.log.Balanced) (lib : VoiceLib ω) (hup : UplinkAt cs (s.aec lib execute'))
    (hnext : cs.head? = (LaunchStmt.aec execute').next execute) :
    EscoOutAt cs (s.aec lib execute') := by
  obtain ⟨-, -, hlocal, -, hadvance⟩ := exec_others lib (.aec execute') s
  have hblocks : (s.aec lib execute').log.localBlocks = s.log.localBlocks := (hlocal (by simp)).2
  have hoffset : (s.aec lib execute').aecOutBufferWriteOffset = s.aecOutBufferWriteOffset :=
    hadvance (by simp)
  have hlength := h.up.up.length
  have hsent := h.out.length
  obtain ⟨-, hlead, -⟩ := hstep
  obtain ⟨hlag, hfull⟩ := h.pending rfl
  obtain ⟨n, hn, hwrite⟩ := h.write
  obtain rfl : s.log.aecOut.length = n := hn
  obtain ⟨hout, hwrote⟩ := h.out.aec hwrite (by omega) lib execute'
  refine ⟨hup, hout, ?_, fun hhead => ?_, s.log.aecOut.length, ?_, ?_⟩
  · rw [hblocks, hwrote, hnext, h.written]
    rfl
  · rw [hnext] at hhead
    cases hhead
  · rw [hwrote, hnext]
    rfl
  · rw [hoffset, hwrite]

/-- The offset goes behind the block. -/
theorem EscoOutAt.advanceOut (h : EscoOutAt (.advanceOut :: cs) s) (lib : VoiceLib ω)
    (hup : UplinkAt cs (LaunchStmt.advanceOut.exec lib s).1)
    (hout : EscoOut (LaunchStmt.advanceOut.exec lib s).1)
    (hnext : cs.head? = LaunchStmt.advanceOut.next execute) :
    EscoOutAt cs (LaunchStmt.advanceOut.exec lib s).1 := by
  obtain ⟨n, hn, hwrite⟩ := h.write
  have hn : s.log.aecOut.length = n + 1 := hn
  refine ⟨hup, hout, ?_, fun hhead => ?_, n + 1, ?_, ?_⟩
  · rw [hnext]
    exact h.written
  · rw [hnext] at hhead
    cases hhead
  · rw [hnext]
    exact hn
  · show stepOffset 960 160 s.aecOutBufferWriteOffset = _
    rw [hwrite, stepOffset_mod (by omega)]
    omega

end Stmt

/-- A statement of the launch. -/
theorem EscoOutAt.stmt {c : LaunchStmt} {cs : List LaunchStmt} (h : EscoOutAt (c :: cs) s)
    (hstep : s.log.Balanced) (lib : VoiceLib ω) :
    EscoOutAt (if (c.exec lib s).2 then cs else []) (c.exec lib s).1 := by
  have hup := h.up.stmt hstep.launching lib
  obtain ⟨execute, hsuffix⟩ := h.up.shape
  have hnext := head?_of_suffix_launch hsuffix
  have hmic := (exec_isr lib c s).2.2.2.1
  obtain ⟨hlaunches, -, hlocal, haec, hadvance⟩ := exec_others lib c s
  cases c with
  | storeSize => exact h.storeSize _ hup hnext
  | aecLocal => exact h.aecLocal hup (h.out.exec lib (c := .aecLocal) (by simp)) hnext
  | aec execute' => exact h.aec hstep lib hup hnext
  | advanceOut => exact h.advanceOut lib hup (h.out.exec lib (by simp)) hnext
  | _ =>
      -- the blocks stay as they are
      obtain ⟨-, hblocks⟩ := hlocal (by simp)
      obtain ⟨-, hwrites⟩ := haec (by simp)
      have hoffset := hadvance (by simp)
      have hpending := h.pending
      obtain ⟨n, hn, hwrite⟩ := h.write
      refine ⟨hup, h.out.exec lib (by simp), ?_, fun hhead => ?_, n, ?_, hoffset.trans hwrite⟩
      · rw [hblocks, hwrites]
        show _ = _ + pendingBlock cs.head?
        rw [hnext]
        exact h.written
      · have hhead : pendingBlock cs.head? = 1 := hhead
        rw [hnext] at hhead
        rw [hlaunches, hwrites, hmic]
        first
          | exact hpending hhead
          | cases hhead
      · rw [hwrites]
        show _ = _ + writtenBlock cs.head?
        rw [hnext]
        exact hn

/-- One step of a call. -/
theorem EscoOutAt.step (lib : VoiceLib ω) {t t' : TaskState LaunchStmt (AudioAlgorithm ω)}
    {e : TaskEvent Bool VoiceInterrupt} (h : EscoOutAt t.code t.state)
    (hstep : t.state.log.Balanced) (hstep' : t'.state.log.Balanced)
    (hrun : voiceStep lib t e = some t') : EscoOutAt t'.code t'.state := by
  have hup := h.up.step lib hstep.launching hstep'.launching hrun
  obtain ⟨execute, -, hcode, rfl⟩ | ⟨c, cs, -, hcode, rfl⟩ | ⟨i, -, rfl⟩ := taskStep_cases hrun
  · rw [hcode] at h
    exact ⟨hup, h.out, h.written, nofun, h.write⟩
  · rw [hcode] at h
    exact h.stmt hstep lib
  · exact h.isr i hstep'

/-- The way out neither underruns nor overruns.  In every schedule that keeps inserts,
launches and sends in balance, the air gets 480 samples of silence and then the
blocks written, each sample once and in order; a sample is never sent before its block is
written, and no block is written over samples that are not sent. -/
theorem esco_out_exact
    (hstays : Stays (voiceStep lib) (fun t => t.state.log.Balanced)
      ⟨[], audioAlgorithmInit w plc⟩ es)
    (h : run (voiceStep lib) ⟨[], audioAlgorithmInit w plc⟩ es = some t) :
    let l := t.state.log
    samples l.escoOut =
        (List.replicate 480 0 ++ samples l.aecOut).take (30 * l.escoOut.length) ∧
      30 * l.escoOut.length ≤ 480 + 160 * l.aecOut.length ∧
      480 + 160 * l.aecOut.length ≤ 30 * l.escoOut.length + 960 := by
  obtain ⟨hinv, hle, hlead, hahead⟩ := run_inv_of_stays
    (I := fun t => EscoOutAt t.code t.state)
    (fun _ _ _ hI hG hG' hrun => hI.step lib hG hG' hrun) (escoOutAt_init w plc)
    (by simp [VoiceLog.Balanced, audioAlgorithmInit]) hstays h
  have hsent := hinv.out.length
  have hmic := hinv.up.up.length
  have htaken := hinv.up.up.le
  have hwritten := hinv.written
  exact ⟨hinv.out.sent, hinv.out.le, by omega⟩

/-- Eighteen frames: behind the silence the air gets the first samples of the first of three
blocks. -/
theorem esco_out_exact_cycles :
    ∃ t, run (voiceStep .louder) VoiceLib.idleCall (voiceCycles 18) = some t ∧
      t.state.log.aecOut.length = 3 ∧
      (samples t.state.log.escoOut).drop 480 =
        (List.range 60).map (fun i => Int16.ofNat (2 * (1 + i))) ∧
      samples t.state.log.escoOut = (List.replicate 480 0 ++ samples t.state.log.aecOut).take
        (30 * t.state.log.escoOut.length) ∧
      480 + 160 * t.state.log.aecOut.length ≤ 30 * t.state.log.escoOut.length + 960 := by
  obtain ⟨t, hrun, hview⟩ := Option.map_eq_some_iff.mp (show
    (run (voiceStep .louder) VoiceLib.idleCall (voiceCycles 18)).map
      (fun t => (t.state.log.aecOut.length, (samples t.state.log.escoOut).drop 480)) =
        some (3, (List.range 60).map (fun i => Int16.ofNat (2 * (1 + i)))) by
    decide +kernel)
  simp only [Prod.mk.injEq] at hview
  obtain ⟨hwritten, hsent⟩ := hview
  obtain ⟨hexact, -, hroom⟩ := esco_out_exact (by decide +kernel) hrun
  exact ⟨t, hrun, hwritten, hsent, hexact, hroom⟩

end Fr5080
