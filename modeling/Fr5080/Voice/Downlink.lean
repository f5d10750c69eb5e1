import Fr5080.Voice.Audio

/-!
# Fr5080.Voice.Downlink

What the speaker gets in a call.  Three offsets chase each other around
`plc_buffer`: frames are inserted at the first, repaired in place at the second,
sent from the third, which starts 8 frames behind.

`VoiceLog.downlink` is the stream of the speaker: 8 frames of silence, what the
launches have made of their frames, and the frames inserted since.  As long as
the three do not get too far apart (`VoiceLog.InStep`), the unsent part of it
stands in the buffer, at the place that the offsets tell (`Downlink`).
-/

namespace Fr5080

open Embedded

variable {ω : Type*}

/-! ## the stream -/

/-- The silence at the start, and what the launches have made of their frames. -/
def launched (ls : List Launch) : List Frame :=
  List.replicate 8 (silence _) ++ ls.map Launch.after

@[simp]
theorem length_launched (ls : List Launch) : (launched ls).length = ls.length + 8 := by
  rw [launched, List.length_append, List.length_replicate, List.length_map, Nat.add_comm]

theorem launched_append (ls : List Launch) (l : Launch) :
    launched (ls ++ [l]) = launched ls ++ [l.after] := by
  rw [launched, launched, List.map_append, List.append_assoc]
  rfl

/-- The frames that no launch has taken. -/
def VoiceLog.waiting (l : VoiceLog) : List Frame :=
  (l.inserted.drop l.launches.length).map Inserted.frame

/-- The frames in the order in which the speaker gets them. -/
def VoiceLog.downlink (l : VoiceLog) : List Frame := launched l.launches ++ l.waiting

/-- The stream in front of the frame of the last launch, that frame, and those behind it. -/
theorem VoiceLog.downlink_append {l : VoiceLog} {ls : List Launch} {x : Launch}
    (h : l.launches = ls ++ [x]) : l.downlink = launched ls ++ [x.after] ++ l.waiting := by
  rw [downlink, h, launched_append]

theorem drop_stream {ls : List Launch} {n : Nat} (hn : n ≤ ls.length + 8) (f : Frame)
    (waiting : List Frame) :
    (launched ls ++ [f] ++ waiting).drop n = (launched ls).drop n ++ [f] ++ waiting := by
  rw [List.append_assoc, List.drop_append_of_le_length (by rw [length_launched]; exact hn),
    List.append_assoc]

theorem take_stream {ls : List Launch} {n : Nat} (hn : n ≤ ls.length + 8) (f : Frame)
    (waiting : List Frame) :
    (launched ls ++ [f] ++ waiting).take n = (launched ls).take n := by
  rw [List.append_assoc, List.take_append_of_le_length (by rw [length_launched]; exact hn)]

/-- A launch is for a frame that was inserted, at most 22 frames are inserted ahead of
those sent, and at most 7 sent ahead of the launches. -/
def VoiceLog.InStep (l : VoiceLog) : Prop :=
  l.launches.length ≤ l.inserted.length ∧ l.inserted.length ≤ l.spk.length + 22 ∧
    l.spk.length ≤ l.launches.length + 7

instance (l : VoiceLog) : Decidable l.InStep := inferInstanceAs (Decidable (_ ∧ _ ∧ _))

theorem VoiceLog.length_downlink {l : VoiceLog} (h : l.launches.length ≤ l.inserted.length) :
    l.downlink.length = l.inserted.length + 8 := by
  simp only [downlink, waiting, List.length_append, length_launched, List.length_map,
    List.length_drop]
  omega

/-- The variables stand for the stream. -/
structure Downlink (s : AudioAlgorithm ω) : Prop where
  insert : s.plcBufferInsertOffset = 30 * s.log.inserted.length % 900
  write : s.plcBufferWriteOffset = 30 * s.log.launches.length % 900
  read : s.plcBufferReadOffset = (660 + 30 * s.log.spk.length) % 900
  bits : ∀ n (h : n < s.log.inserted.length), s.log.inserted.length ≤ n + 30 →
    s.plcInDataState.getLsbD (n % 30) = s.log.inserted[n].mute
  ring : InRing 900 s.plcBuffer (660 + 30 * s.log.spk.length)
    (samples (s.log.downlink.drop s.log.spk.length))
  before : s.log.launches.map Launch.before =
    (s.log.inserted.take s.log.launches.length).map Inserted.frame
  out : ∀ n (h : n < s.log.launches.length), s.log.launches[n].out = 30 * n % 900
  spk : s.log.spk = s.log.downlink.take s.log.spk.length

variable {s : AudioAlgorithm ω}

theorem downlink_init (w : ω) (plc : CvsdPlcState) : Downlink (audioAlgorithmInit w plc) := by
  refine ⟨rfl, rfl, rfl, by simp [audioAlgorithmInit], ?_, rfl, by simp [audioAlgorithmInit], rfl⟩
  have hzeros : samples (List.drop (audioAlgorithmInit w plc).log.spk.length
      (audioAlgorithmInit w plc).log.downlink) = List.replicate 240 0 := by
    rw [← samples_replicate_silence 30 8]
    rfl
  rw [hzeros]
  intro i hi
  rw [List.getElem_replicate]
  rfl

/-! ## the mute bits -/

/-- A bit that is set is found. -/
theorem getLsbD_or_shiftLeft (x : BitVec 32) {i j : Nat} (hi : i < 32) :
    (x ||| 1#32 <<< i).getLsbD j = (x.getLsbD j || decide (i = j)) := by
  have htwo : 1#32 <<< i = BitVec.twoPow 32 i := rfl
  rw [htwo, BitVec.getLsbD_or, BitVec.getLsbD_twoPow]
  simp [hi]

/-- A bit that is cleared is gone. -/
theorem getLsbD_and_not_shiftLeft (x : BitVec 32) {i j : Nat} (hi : i < 32) (hj : j < 32) :
    (x &&& ~~~(1#32 <<< i)).getLsbD j = (x.getLsbD j && decide (i ≠ j)) := by
  have htwo : 1#32 <<< i = BitVec.twoPow 32 i := rfl
  rw [htwo, BitVec.getLsbD_and, BitVec.getLsbD_not, BitVec.getLsbD_twoPow]
  simp [hi, hj]

/-- The test of a bit. -/
theorem and_shiftLeft_bne_zero (x : BitVec 32) {i : Nat} (hi : i < 32) :
    (x &&& 1#32 <<< i != 0) = x.getLsbD i := by
  have htwo : 1#32 <<< i = BitVec.twoPow 32 i := rfl
  have hne : BitVec.twoPow 32 i ≠ 0#32 := by
    intro heq
    have := congrArg (fun y => y.getLsbD i) heq
    simp [hi] at this
  rw [htwo, BitVec.and_twoPow]
  cases x.getLsbD i with
  | false => simp
  | true => simpa using hne

/-! ## the interrupts -/

/-- A frame is inserted. -/
theorem Downlink.recvData (h : Downlink s) (hstep : s.log.InStep) {mic escoIn : Frame}
    {mute : Bool} (hstep' : (s.recvData mic escoIn mute).log.InStep) :
    Downlink (s.recvData mic escoIn mute) := by
  obtain ⟨hle, hlag, hahead⟩ := hstep
  have hlag' : s.log.inserted.length + 1 ≤ s.log.spk.length + 22 := by
    simpa [AudioAlgorithm.recvData, AudioAlgorithm.getLocalInWriteBuffer,
      AudioAlgorithm.getPlcInsertBuffer] using hstep'.2.1
  have hinserted : (s.recvData mic escoIn mute).log.inserted =
      s.log.inserted ++ [⟨if mute then silence _ else escoIn, mute⟩] := rfl
  have hlaunches : (s.recvData mic escoIn mute).log.launches = s.log.launches := rfl
  have hspk : (s.recvData mic escoIn mute).log.spk = s.log.spk := rfl
  have hstream : (s.recvData mic escoIn mute).log.downlink =
      s.log.downlink ++ [if mute then silence _ else escoIn] := by
    simp [VoiceLog.downlink, VoiceLog.waiting, hinserted, hlaunches,
      List.drop_append_of_le_length hle]
  have hlen := VoiceLog.length_downlink hle
  have hoffset : s.plcBufferInsertOffset / audioAlgFrameSize = s.log.inserted.length % 30 := by
    rw [h.insert]
    show 30 * s.log.inserted.length % 900 / 30 = _
    omega
  refine ⟨?_, h.write, h.read, ?_, ?_, ?_, h.out, ?_⟩
  · show stepOffset plcBufferMax audioAlgFrameSize s.plcBufferInsertOffset = _
    rw [hinserted, List.length_append, List.length_singleton, h.insert,
      stepOffset_frame (by omega)]
    omega
  · intro n hn hrecent
    have hidx : s.log.inserted.length % 30 < 32 := by omega
    show (if mute then s.plcInDataState ||| 1#32 <<< (s.plcBufferInsertOffset / audioAlgFrameSize)
      else s.plcInDataState &&& ~~~(1#32 <<< (s.plcBufferInsertOffset / audioAlgFrameSize))).getLsbD
        (n % 30) = _
    simp only [hinserted, List.length_append, List.length_singleton] at hn hrecent ⊢
    rw [hoffset]
    by_cases hlast : n = s.log.inserted.length
    · subst hlast
      cases mute <;> simp [getLsbD_or_shiftLeft _ hidx, getLsbD_and_not_shiftLeft _ hidx hidx]
    · -- one of the 29 frames before: its bit is another
      have hne : s.log.inserted.length % 30 ≠ n % 30 := by omega
      have hlt : n < s.log.inserted.length := by omega
      have hidx' : n % 30 < 32 := by omega
      rw [List.getElem_append_left hlt, ← h.bits n hlt (by omega)]
      cases mute <;>
        simp [getLsbD_or_shiftLeft _ hidx, getLsbD_and_not_shiftLeft _ hidx hidx', hne]
  · have hlength : (samples (s.log.downlink.drop s.log.spk.length)).length =
        30 * (s.log.inserted.length + 8 - s.log.spk.length) := by
      rw [length_frames, List.length_drop, hlen]
    have hpos : (660 + 30 * s.log.spk.length +
        (samples (s.log.downlink.drop s.log.spk.length)).length) % 900 =
          s.plcBufferInsertOffset := by
      rw [hlength, h.insert]
      omega
    have hpush := h.ring.push (if mute then silence 30 else escoIn).toList
      (by rw [hlength, List.Vector.toList_length]; omega)
      (by rw [hlength, List.Vector.toList_length]; omega)
    rw [hpos] at hpush
    rw [hstream, hspk, List.drop_append_of_le_length (by omega), samples_append,
      samples_singleton]
    exact hpush
  · rw [hinserted, hlaunches, List.take_append_of_le_length hle]
    exact h.before
  · rw [hstream, hspk, List.take_append_of_le_length (by omega)]
    exact h.spk

/-- The part of the stream behind its first unsent frames. -/
theorem Downlink.ring_drop (h : Downlink s) {d : Nat}
    (hd : s.log.spk.length + d ≤ s.log.downlink.length) :
    InRing 900 s.plcBuffer (660 + 30 * (s.log.spk.length + d))
      (samples (s.log.downlink.drop (s.log.spk.length + d))) := by
  have hdrop := h.ring.drop (n := 30 * d) (by rw [length_frames, List.length_drop]; omega)
  rwa [drop_frames, List.drop_drop, Nat.add_assoc, ← Nat.mul_add] at hdrop

/-- A frame of the stream that is not sent yet, and where it stands. -/
theorem Downlink.samplesAt_eq (h : Downlink s) {d : Nat} {frame : Frame}
    (hframe : s.log.downlink[s.log.spk.length + d]? = some frame) :
    samplesAt audioAlgFrameSize s.plcBuffer ((660 + 30 * (s.log.spk.length + d)) % 900) =
      frame := by
  obtain ⟨hlt, hget⟩ := List.getElem?_eq_some_iff.mp hframe
  apply List.Vector.toList_injective
  refine ((h.ring_drop hlt.le).slice_eq (n := 30) ?_ (by omega)).trans ?_
  · rw [length_frames, List.length_drop]
    omega
  · rw [List.drop_eq_getElem_cons hlt, hget, ← List.singleton_append, samples_append,
      samples_singleton]
    exact List.take_left' (List.Vector.toList_length _)

/-- A frame is sent. -/
theorem Downlink.sendData (h : Downlink s) (hstep : s.log.InStep) : Downlink s.sendData := by
  obtain ⟨hle, hlag, hahead⟩ := hstep
  have hlen := VoiceLog.length_downlink hle
  have hlt : s.log.spk.length < s.log.downlink.length := by omega
  have hget := List.getElem?_eq_getElem hlt
  have hstream : s.sendData.log.downlink = s.log.downlink := rfl
  have hsent : s.sendData.log.spk = s.log.spk ++ [s.log.downlink[s.log.spk.length]] := by
    rw [← h.samplesAt_eq (d := 0) hget, Nat.add_zero, ← h.read]
    rfl
  refine ⟨h.insert, h.write, ?_, h.bits, ?_, h.before, h.out, ?_⟩
  · rw [hsent, List.length_append, List.length_singleton]
    show stepOffset plcBufferMax audioAlgFrameSize s.plcBufferReadOffset = _
    rw [h.read, stepOffset_frame (by omega)]
    omega
  · rw [hsent, hstream, List.length_append, List.length_singleton]
    exact h.ring_drop (d := 1) hlt
  · rw [hsent, hstream, List.length_append, List.length_singleton, List.take_add_one, hget,
      ← h.spk]
    rfl

/-! ## the launch -/

/-- A launch has taken its frame and works on it. -/
structure AtFrame (s : AudioAlgorithm ω) (ls : List Launch) (l : Launch) : Prop where
  launches : s.log.launches = ls ++ [l]
  out : s.locals.out = 30 * ls.length % 900

/-- It has not tested the mute bit. -/
structure AtPlc (s : AudioAlgorithm ω) (ls : List Launch) (l : Launch) : Prop
    extends AtFrame s ls l where
  offset : s.locals.offset = ls.length % 30
  storeSize : s.locals.storeSize = 30 * (ls.length + 8 - l.sends)
  sends : l.sends ≤ ls.length + 7

/-- The frame that the next launch takes, in the stream. -/
theorem VoiceLog.getElem?_downlink {l : VoiceLog} {x : Inserted}
    (hx : l.inserted[l.launches.length]? = some x) :
    l.downlink[l.launches.length + 8]? = some x.frame := by
  rw [downlink, List.getElem?_append_right (by rw [length_launched]), length_launched,
    Nat.sub_self, waiting, List.getElem?_map, List.getElem?_drop, Nat.add_zero, hx]
  rfl

/-- The entry of a launch: the frame is the next one inserted. -/
theorem Downlink.takeFrame (h : Downlink s) (hstep : s.log.InStep)
    (hstep' : s.takeFrame.log.InStep) :
    Downlink s.takeFrame ∧ ∃ l, l.tested = none ∧ AtPlc s.takeFrame s.log.launches l := by
  obtain ⟨hle, hlag, hahead⟩ := hstep
  have hlt : s.log.launches.length + 1 ≤ s.log.inserted.length := by
    simpa [AudioAlgorithm.takeFrame] using hstep'.1
  have hx := List.getElem?_eq_getElem hlt
  have hbefore : samplesAt audioAlgFrameSize s.plcBuffer s.plcBufferWriteOffset =
      s.log.inserted[s.log.launches.length].frame := by
    have hget := VoiceLog.getElem?_downlink hx
    have hidx : s.log.launches.length + 8 =
        s.log.spk.length + (s.log.launches.length + 8 - s.log.spk.length) := by omega
    rw [hidx] at hget
    rw [← h.samplesAt_eq hget, h.write]
    congr 1
    omega
  have hlog : s.takeFrame.log.launches = s.log.launches ++
      [⟨s.plcBufferWriteOffset, s.log.inserted[s.log.launches.length].frame, s.log.spk.length, none,
        s.log.inserted[s.log.launches.length].frame⟩] := by
    rw [← hbefore]
    rfl
  have hstream : s.takeFrame.log.downlink = s.log.downlink := by
    have hinserted : s.takeFrame.log.inserted = s.log.inserted := rfl
    rw [VoiceLog.downlink, VoiceLog.downlink, VoiceLog.waiting, VoiceLog.waiting, hlog, hinserted,
      launched_append, List.drop_eq_getElem_cons hlt, List.length_append, List.append_assoc]
    rfl
  have hout : s.takeFrame.locals.out = 30 * s.log.launches.length % 900 := h.write
  refine ⟨⟨h.insert, ?_, h.read, h.bits, ?_, ?_, ?_, ?_⟩, _, ?_, ⟨hlog, hout⟩, ?_, ?_, ?_⟩
  · rw [hlog, List.length_append, List.length_singleton]
    show stepOffset plcBufferMax audioAlgFrameSize s.plcBufferWriteOffset = _
    rw [h.write, stepOffset_frame (by omega)]
    omega
  · rw [hstream]
    exact h.ring
  · have htake : s.log.inserted.take (s.log.launches.length + 1) =
        s.log.inserted.take s.log.launches.length ++ [s.log.inserted[s.log.launches.length]] := by
      rw [List.take_add_one, hx]
      rfl
    rw [hlog, List.map_append, h.before, List.length_append, List.length_singleton]
    show _ = (s.log.inserted.take (s.log.launches.length + 1)).map Inserted.frame
    rw [htake, List.map_append]
    rfl
  · intro n hn
    simp only [hlog, List.length_append, List.length_singleton] at hn ⊢
    by_cases hlast : n = s.log.launches.length
    · subst hlast
      rw [List.getElem_append_right le_rfl]
      simpa using h.write
    · rw [List.getElem_append_left (by omega)]
      exact h.out n (by omega)
  · rw [hstream]
    exact h.spk
  · rfl
  · show s.plcBufferWriteOffset / 30 = _
    rw [h.write]
    omega
  · show (if s.plcBufferWriteOffset ≥ s.plcBufferReadOffset then
        s.plcBufferWriteOffset - s.plcBufferReadOffset
      else s.plcBufferWriteOffset + 900 - s.plcBufferReadOffset) =
        30 * (s.log.launches.length + 8 - s.log.spk.length)
    rw [h.write, h.read]
    split <;> omega
  · exact hahead

/-- The frame of the launch is in the unsent part of the stream, and is replaced there. -/
theorem Downlink.ring_setOut (h : Downlink s) (hstep : s.log.InStep) {ls : List Launch}
    {l : Launch} (hat : AtFrame s ls l) (tested : Option Bool) {xs : List Int16}
    (hxs : xs.length ≤ 30) :
    InRing 900 (s.setOut tested xs).plcBuffer (660 + 30 * s.log.spk.length)
      (samples ((launched ls ++ [samplesAt _ (s.setOut tested xs).plcBuffer s.locals.out] ++
        s.log.waiting).drop s.log.spk.length)) := by
  obtain ⟨hle, hlag, hahead⟩ := hstep
  have hlast : s.log.launches.length = ls.length + 1 := by rw [hat.launches]; simp
  have hlen := VoiceLog.length_downlink hle
  have hsent : s.log.spk.length ≤ ls.length + 8 := by omega
  have hold := VoiceLog.downlink_append hat.launches
  have hring := h.ring
  have hpos : (660 + 30 * s.log.spk.length +
      (samples ((launched ls).drop s.log.spk.length)).length) % 900 = s.locals.out := by
    rw [length_frames, List.length_drop, length_launched, hat.out]
    omega
  rw [hold, drop_stream hsent, samples_append, samples_append, samples_singleton] at hring
  have hover := hring.overwrite xs
    (by
      rw [← samples_singleton, ← samples_append, ← samples_append, ← drop_stream hsent, ← hold,
        length_frames, List.length_drop]
      omega)
    (by rw [List.Vector.toList_length]; exact hxs)
    (by rw [hpos, hat.out, List.Vector.toList_length]; show _ + 30 ≤ 900; omega)
  rw [hpos, List.Vector.toList_length] at hover
  rw [drop_stream hsent, samples_append, samples_append, samples_singleton]
  exact hover

/-- What stands at `out` is replaced, and the launch has made that of its frame. -/
theorem Downlink.setOut (h : Downlink s) (hstep : s.log.InStep) {ls : List Launch} {l : Launch}
    (hat : AtFrame s ls l) (tested : Option Bool) (xs : List Int16) (hxs : xs.length ≤ 30) :
    Downlink (s.setOut tested xs) ∧ AtFrame (s.setOut tested xs) ls { l with
      tested := tested.or l.tested
      after := samplesAt _ (s.setOut tested xs).plcBuffer s.locals.out } := by
  have hring := h.ring_setOut hstep hat tested hxs
  obtain ⟨-, -, hahead⟩ := hstep
  have hlaunches := hat.launches
  have hlast : s.log.launches.length = ls.length + 1 := by rw [hlaunches]; simp
  have hlog : (s.setOut tested xs).log.launches =
      ls ++ [{ l with
        tested := tested.or l.tested
        after := samplesAt _ (s.setOut tested xs).plcBuffer s.locals.out }] := by
    show s.log.launches.modifyLast _ = _
    rw [hlaunches, List.modifyLast_concat]
    rfl
  have hinserted : (s.setOut tested xs).log.inserted = s.log.inserted := rfl
  have hspk : (s.setOut tested xs).log.spk = s.log.spk := rfl
  have hwaiting : (s.setOut tested xs).log.waiting = s.log.waiting := by
    rw [VoiceLog.waiting, VoiceLog.waiting, hinserted, hlog, hlast, List.length_append]
    rfl
  have hnew := VoiceLog.downlink_append hlog
  rw [hwaiting] at hnew
  have hsent : s.log.spk.length ≤ ls.length + 8 := by omega
  refine ⟨⟨h.insert, ?_, h.read, h.bits, ?_, ?_, ?_, ?_⟩, hlog, hat.out⟩
  · rw [hlog, List.length_append, List.length_singleton, ← hlast]
    exact h.write
  · rw [hnew, hspk]
    exact hring
  · have hbefore := h.before
    rw [hlaunches] at hbefore
    rw [hlog, hinserted]
    simpa using hbefore
  · intro n hn
    have hout := h.out n (by rw [hlaunches]; simpa [hlog] using hn)
    simp only [hlog, hlaunches] at hout ⊢
    rcases Nat.lt_or_ge n ls.length with hlt | hge
    · rw [List.getElem_append_left hlt] at hout ⊢
      exact hout
    · rw [List.getElem_append_right hge] at hout ⊢
      simpa using hout
  · have hold := h.spk
    rw [VoiceLog.downlink_append hlaunches, take_stream hsent] at hold
    rw [hspk, hnew, take_stream hsent]
    exact hold

/-- The libraries' own variables are no part of it. -/
theorem Downlink.setLib (h : Downlink s) (w : ω) (plcState : CvsdPlcState) :
    Downlink { s with lib := w, plcState := plcState } :=
  ⟨h.insert, h.write, h.read, h.bits, h.ring, h.before, h.out, h.spk⟩

/-- Both ways of packet loss concealment. -/
theorem Downlink.plc (h : Downlink s) (hstep : s.log.InStep) {ls : List Launch} {l : Launch}
    (hat : AtPlc s ls l) (htested : l.tested = none) (lib : VoiceLib ω) :
    Downlink (s.plc lib) ∧ ∃ l', AtFrame (s.plc lib) ls l' ∧ l'.sends = l.sends ∧
      l'.tested = if l.sends ≤ ls.length + 6 then some (s.plcInDataState.getLsbD (ls.length % 30))
        else none := by
  have hbit : (s.plcInDataState &&& 1#32 <<< s.locals.offset != 0) =
      s.plcInDataState.getLsbD (ls.length % 30) := by
    rw [hat.offset, and_shiftLeft_bne_zero _ (by omega)]
  have hframe : ∀ (tested : Option Bool) (frame : Frame), Downlink (s.setOut tested frame.toList) ∧
      AtFrame (s.setOut tested frame.toList) ls { l with
        tested := tested.or l.tested
        after := samplesAt _ (s.setOut tested frame.toList).plcBuffer s.locals.out } :=
    fun tested frame => h.setOut hstep hat.toAtFrame tested _ (by rw [List.Vector.toList_length])
  have hgood : ∀ tested : Option Bool, Downlink (s.plcGood lib tested) ∧
      ∃ l', AtFrame (s.plcGood lib tested) ls l' ∧ l'.sends = l.sends ∧ l'.tested = tested := by
    intro tested
    obtain ⟨hdown, hat'⟩ := hframe tested _
    exact ⟨hdown.setLib _ _, _, ⟨hat'.launches, hat'.out⟩, rfl, by simp [htested]⟩
  have hbad : Downlink (s.plcBad lib) ∧
      ∃ l', AtFrame (s.plcBad lib) ls l' ∧ l'.sends = l.sends ∧ l'.tested = some true := by
    unfold AudioAlgorithm.plcBad
    split
    · obtain ⟨hdown, hat'⟩ := hframe (some true) _
      exact ⟨hdown.setLib _ _, _, ⟨hat'.launches, hat'.out⟩, rfl, rfl⟩
    · obtain ⟨hdown, hat'⟩ := h.setOut hstep hat.toAtFrame (some true)
        (List.replicate (cvsdFs / 2) 0) (by rw [List.length_replicate]; decide)
      exact ⟨hdown, _, hat', rfl, rfl⟩
  have hstore : s.locals.storeSize ≥ 2 * audioAlgFrameSize ↔ l.sends ≤ ls.length + 6 := by
    rw [hat.storeSize]
    have := hat.sends
    show 30 * _ ≥ 60 ↔ _
    omega
  unfold AudioAlgorithm.plc
  rw [hbit]
  simp only [hstore]
  split
  · cases s.plcInDataState.getLsbD (ls.length % 30) with
    | true => exact hbad
    | false => exact hgood (some false)
  · exact hgood none

/-! ## a whole call -/

/-- The launches have tested the bits of their frames, where two frames were left to send. -/
def Tested (inserted : List Inserted) (ls : List Launch) : Prop :=
  ∀ n (h : n < ls.length) (x : Inserted), inserted[n]? = some x →
    ls[n].tested = if ls[n].sends ≤ n + 6 then some x.mute else none

theorem Tested.insert {inserted : List Inserted} {ls : List Launch} (h : Tested inserted ls)
    (hle : ls.length ≤ inserted.length) (x : Inserted) : Tested (inserted ++ [x]) ls := by
  intro n hn y hy
  exact h n hn y (by rwa [List.getElem?_append_left (by omega)] at hy)

theorem tested_append {inserted : List Inserted} {ls : List Launch} {l : Launch} :
    Tested inserted (ls ++ [l]) ↔ Tested inserted ls ∧
      ∀ x, inserted[ls.length]? = some x →
        l.tested = if l.sends ≤ ls.length + 6 then some x.mute else none := by
  constructor
  · intro h
    constructor
    · intro n hn x hx
      have := h n (by rw [List.length_append]; omega) x hx
      rwa [List.getElem_append_left hn] at this
    · intro x hx
      have := h ls.length (by simp) x hx
      rw [List.getElem_append_right le_rfl] at this
      simpa using this
  · rintro ⟨hls, hl⟩ n hn x hx
    rw [List.length_append, List.length_singleton] at hn
    by_cases hlast : n = ls.length
    · subst hlast
      rw [List.getElem_append_right le_rfl]
      simpa using hl x hx
    · rw [List.getElem_append_left (by omega)]
      exact hls n (by omega) x hx

/-- What holds with `code` still to be executed. -/
structure DownlinkAt (code : List LaunchStmt) (s : AudioAlgorithm ω) : Prop where
  down : Downlink s
  shape : ∃ execute, code <:+ audioAlgLaunch execute
  plc : code.head? = some .plc →
    ∃ ls l, AtPlc s ls l ∧ l.tested = none ∧ Tested s.log.inserted ls
  drc : code.head? = some .drc → ∃ ls l, AtFrame s ls l
  tested : code.head? ≠ some .plc → Tested s.log.inserted s.log.launches

/-- An interrupt, wherever the launch is. -/
theorem DownlinkAt.isr {code : List LaunchStmt} (h : DownlinkAt code s) (hstep : s.log.InStep)
    (e : VoiceInterrupt) (hstep' : (e.isr s).log.InStep) : DownlinkAt code (e.isr s) := by
  cases e with
  | recvData mic escoIn mute =>
      refine ⟨h.down.recvData hstep hstep', h.shape, fun hplc => ?_, fun hdrc => ?_,
        fun hne => (h.tested hne).insert hstep.1 _⟩
      · obtain ⟨ls, l, hat, hnone, htested⟩ := h.plc hplc
        have hle := hstep.1
        rw [hat.launches, List.length_append, List.length_singleton] at hle
        exact ⟨ls, l, ⟨⟨hat.launches, hat.out⟩, hat.offset, hat.storeSize, hat.sends⟩, hnone,
          htested.insert (by omega) _⟩
      · obtain ⟨ls, l, hat⟩ := h.drc hdrc
        exact ⟨ls, l, hat.launches, hat.out⟩
  | sendData =>
      refine ⟨h.down.sendData hstep, h.shape, fun hplc => ?_, fun hdrc => ?_, h.tested⟩
      · obtain ⟨ls, l, hat, hnone, htested⟩ := h.plc hplc
        exact ⟨ls, l, ⟨⟨hat.launches, hat.out⟩, hat.offset, hat.storeSize, hat.sends⟩, hnone,
          htested⟩
      · obtain ⟨ls, l, hat⟩ := h.drc hdrc
        exact ⟨ls, l, hat.launches, hat.out⟩

/-- The statements behind `drc_run` leave the downlink alone. -/
theorem Downlink.exec (h : Downlink s) (lib : VoiceLib ω) {c : LaunchStmt}
    (hentry : c ≠ .takeFrame) (hplc : c ≠ .plc) (hdrc : c ≠ .drc) :
    Downlink (c.exec lib s).1 ∧ (c.exec lib s).1.log.inserted = s.log.inserted ∧
      (c.exec lib s).1.log.launches = s.log.launches := by
  have hsame : ∀ s' : AudioAlgorithm ω, s'.plcBuffer = s.plcBuffer ∧
      s'.plcInDataState = s.plcInDataState ∧ s'.plcBufferInsertOffset = s.plcBufferInsertOffset ∧
      s'.plcBufferWriteOffset = s.plcBufferWriteOffset ∧
      s'.plcBufferReadOffset = s.plcBufferReadOffset ∧ s'.log.inserted = s.log.inserted ∧
      s'.log.launches = s.log.launches ∧ s'.log.spk = s.log.spk →
      Downlink s' ∧ s'.log.inserted = s.log.inserted ∧ s'.log.launches = s.log.launches := by
    rintro s' ⟨hbuf, hstate, hinsert, hwrite, hread, hinserted, hlaunches, hspk⟩
    have hdown : s'.log.downlink = s.log.downlink := by
      rw [VoiceLog.downlink, VoiceLog.waiting, hinserted, hlaunches]
      rfl
    refine ⟨⟨?_, ?_, ?_, ?_, ?_, ?_, ?_, ?_⟩, hinserted, hlaunches⟩
    · rw [hinsert, hinserted, h.insert]
    · rw [hwrite, hlaunches, h.write]
    · rw [hread, hspk, h.read]
    · simpa only [hstate, hinserted] using h.bits
    · rw [hbuf, hdown, hspk]
      exact h.ring
    · rw [hlaunches, hinserted, h.before]
    · simpa only [hlaunches] using h.out
    · rw [hspk, hdown]
      exact h.spk
  apply hsame
  cases c with
  | takeFrame => exact absurd rfl hentry
  | plc => exact absurd rfl hplc
  | drc => exact absurd rfl hdrc
  | ns execute =>
      obtain ⟨w, outFrame, hns⟩ := s.ns_eq lib execute
      rw [LaunchStmt.exec, hns]
      exact ⟨rfl, rfl, rfl, rfl, rfl, rfl, rfl, rfl⟩
  | agc execute =>
      obtain ⟨w, outFrameMiddle, hagc⟩ := s.agc_eq lib execute
      rw [LaunchStmt.exec, hagc]
      exact ⟨rfl, rfl, rfl, rfl, rfl, rfl, rfl, rfl⟩
  | aec execute =>
      obtain ⟨w, block, haec⟩ := s.aec_eq lib execute
      rw [LaunchStmt.exec, haec]
      exact ⟨rfl, rfl, rfl, rfl, rfl, rfl, rfl, rfl⟩
  | _ => exact ⟨rfl, rfl, rfl, rfl, rfl, rfl, rfl, rfl⟩

/-- A statement of the launch. -/
theorem DownlinkAt.stmt {c : LaunchStmt} {cs : List LaunchStmt} (h : DownlinkAt (c :: cs) s)
    (hstep : s.log.InStep) (lib : VoiceLib ω) (hstep' : (c.exec lib s).1.log.InStep) :
    DownlinkAt (if (c.exec lib s).2 then cs else []) (c.exec lib s).1 := by
  obtain ⟨execute, hsuffix⟩ := h.shape
  have hnext := head?_of_suffix_launch hsuffix
  have hshape : ∃ execute, cs <:+ audioAlgLaunch execute :=
    ⟨execute, (List.suffix_cons c cs).trans hsuffix⟩
  have hd := h.down
  by_cases hentry : c = .takeFrame
  · subst hentry
    obtain ⟨hdown, l, hnone, hat⟩ := hd.takeFrame hstep hstep'
    exact ⟨hdown, hshape, fun _ => ⟨_, l, hat, hnone, h.tested (by simp)⟩,
      fun hhead => (by cases hnext.symm.trans hhead), fun hne => absurd hnext hne⟩
  by_cases hplc : c = .plc
  · subst hplc
    obtain ⟨ls, l, hat, hnone, htested⟩ := h.plc rfl
    obtain ⟨hdown, l', hat', hsends, htest⟩ := hd.plc hstep hat hnone lib
    refine ⟨hdown, hshape, fun hhead => (by cases hnext.symm.trans hhead),
      fun _ => ⟨ls, l', hat'⟩, fun _ => ?_⟩
    obtain ⟨-, hlag, hahead⟩ := hstep
    have hinserted : (s.plc lib).log.inserted = s.log.inserted :=
      (exec_isr lib .plc s).2.2.2.2.1
    show Tested (s.plc lib).log.inserted (s.plc lib).log.launches
    rw [hinserted, hat'.launches, tested_append]
    refine ⟨htested, fun x hx => ?_⟩
    obtain ⟨hlt, rfl⟩ := List.getElem?_eq_some_iff.mp hx
    have hlength : s.log.launches.length = ls.length + 1 := by rw [hat.launches]; simp
    rw [htest, hsends, hd.bits ls.length hlt (by omega)]
  by_cases hdrc : c = .drc
  · subst hdrc
    obtain ⟨ls, l, hat⟩ := h.drc rfl
    obtain ⟨hdown, hat'⟩ := hd.setOut hstep hat none
      (lib.drcRun s.lib (samplesAt _ s.plcBuffer s.locals.out)).2.toList
      (by rw [List.Vector.toList_length])
    have htested := h.tested (by simp)
    rw [hat.launches, tested_append] at htested
    refine ⟨hdown.setLib _ _, hshape, fun hhead => (by cases hnext.symm.trans hhead),
      fun hhead => (by cases hnext.symm.trans hhead), fun _ => ?_⟩
    have hlaunches := hat'.launches
    show Tested s.log.inserted (s.setOut none _).log.launches
    rw [hlaunches, tested_append]
    exact htested
  · -- the downlink is done with the launch
    obtain ⟨hdown, hinserted, hlaunches⟩ := hd.exec lib hentry hplc hdrc
    have htested : Tested (c.exec lib s).1.log.inserted (c.exec lib s).1.log.launches := by
      rw [hinserted, hlaunches]
      exact h.tested (by simpa using hplc)
    split
    · refine ⟨hdown, hshape, fun hhead => ?_, fun hhead => ?_, fun _ => htested⟩
      · cases c <;> simp_all [LaunchStmt.next]
      · cases c <;> simp_all [LaunchStmt.next]
    · exact ⟨hdown, ⟨execute, List.nil_suffix⟩, nofun, nofun, fun _ => htested⟩

theorem downlinkAt_init (w : ω) (plc : CvsdPlcState) :
    DownlinkAt [] (audioAlgorithmInit w plc) :=
  ⟨downlink_init w plc, ⟨true, List.nil_suffix⟩, nofun, nofun, by
    simp [Tested, audioAlgorithmInit]⟩

/-- One step of a call. -/
theorem DownlinkAt.step (lib : VoiceLib ω) {t t' : TaskState LaunchStmt (AudioAlgorithm ω)}
    {e : TaskEvent Bool VoiceInterrupt} (h : DownlinkAt t.code t.state)
    (hstep : t.state.log.InStep) (hstep' : t'.state.log.InStep)
    (hrun : voiceStep lib t e = some t') : DownlinkAt t'.code t'.state := by
  obtain ⟨execute, -, hcode, rfl⟩ | ⟨c, cs, -, hcode, rfl⟩ | ⟨i, -, rfl⟩ := taskStep_cases hrun
  · rw [hcode] at h
    exact ⟨h.down, ⟨execute, List.suffix_rfl⟩, nofun, nofun, fun _ => h.tested (by simp)⟩
  · rw [hcode] at h
    exact h.stmt hstep lib hstep'
  · exact h.isr hstep i hstep'

variable {lib : VoiceLib ω} {w : ω} {plc : CvsdPlcState} {es : List (TaskEvent Bool VoiceInterrupt)}
  {t : TaskState LaunchStmt (AudioAlgorithm ω)}

/-- Frames and mute flags stay paired.  In every schedule that keeps the three sides of
`plc_buffer` in step, the `n`-th launch works in place on the `n`-th frame inserted,
and tests the mute bit of that frame if at least two frames are left to send; with one
frame left it takes the frame for a good one.  The speaker gets 8 frames of silence
and then what the launches have left, each frame once and after its launch.  The
offsets are multiples of 30 within the buffer. -/
theorem downlink_paired
    (hstays : Stays (voiceStep lib) (fun t => t.state.log.InStep) ⟨[], audioAlgorithmInit w plc⟩ es)
    (h : run (voiceStep lib) ⟨[], audioAlgorithmInit w plc⟩ es = some t) :
    let s := t.state
    let l := t.state.log
    l.launches.map Launch.before = (l.inserted.take l.launches.length).map Inserted.frame ∧
      (∀ n (hn : n < l.launches.length), l.launches[n].out = 30 * n % 900) ∧
      (t.code.head? ≠ some .plc → Tested l.inserted l.launches) ∧
      l.spk = (List.replicate 8 (silence _) ++ l.launches.map Launch.after).take l.spk.length ∧
      l.spk.length < 8 + l.launches.length ∧
      (∀ off ∈ [s.plcBufferInsertOffset, s.plcBufferWriteOffset, s.plcBufferReadOffset],
        30 ∣ off ∧ off < 900) := by
  obtain ⟨hinv, hle, hlag, hahead⟩ := run_inv_of_stays
    (I := fun t => DownlinkAt t.code t.state)
    (fun _ _ _ hI hG hG' hrun => hI.step lib hG hG' hrun) (downlinkAt_init w plc)
    (by simp [VoiceLog.InStep, audioAlgorithmInit]) hstays h
  have hd := hinv.down
  refine ⟨hd.before, hd.out, hinv.tested, ?_, by omega, ?_⟩
  · have hspk := hd.spk
    rwa [VoiceLog.downlink, List.take_append_of_le_length (by rw [length_launched]; omega)] at hspk
  · simp only [List.mem_cons, List.not_mem_nil, or_false, forall_eq_or_imp, forall_eq, hd.insert,
      hd.write, hd.read]
    omega

/-- Twelve frames, of which the fourth is muted: behind the silence the speaker gets the first
three, each sample with 1 added, and what the muted one has become. -/
theorem downlink_paired_muted :
    ∃ t, run (voiceStep .louder) VoiceLib.idleCall (voiceCycles 12) = some t ∧ t.code = [] ∧
      (samples t.state.log.spk).drop 240 =
        (List.range 90).map (fun i => Int16.ofNat (3002 + i)) ++ List.replicate 30 1 ∧
      t.state.log.launches.map Launch.tested =
        [some false, some false, some false, some true] ++ List.replicate 8 (some false) ∧
      t.state.log.launches.map Launch.before =
        (t.state.log.inserted.take t.state.log.launches.length).map Inserted.frame ∧
      Tested t.state.log.inserted t.state.log.launches ∧
      t.state.log.spk = (List.replicate 8 (silence _) ++
        t.state.log.launches.map Launch.after).take t.state.log.spk.length := by
  obtain ⟨t, hrun, hview⟩ := Option.map_eq_some_iff.mp (show
    (run (voiceStep .louder) VoiceLib.idleCall (voiceCycles 12)).map
      (fun t => (t.code, (samples t.state.log.spk).drop 240,
        t.state.log.launches.map Launch.tested)) =
      some ([], (List.range 90).map (fun i => Int16.ofNat (3002 + i)) ++ List.replicate 30 1,
        [some false, some false, some false, some true] ++ List.replicate 8 (some false)) by
    decide +kernel)
  simp only [Prod.mk.injEq] at hview
  obtain ⟨hcode, hspk, htested⟩ := hview
  obtain ⟨hbefore, -, hpaired, hsent, -⟩ := downlink_paired (by decide +kernel) hrun
  exact ⟨t, hrun, hcode, hspk, htested, hbefore, hpaired (by rw [hcode]; nofun), hsent⟩

/-- With the sends 7 ahead of the launches the mute bit is not tested: a muted frame is
taken for a good one. -/
theorem mute_bit_untested :
    ∃ t, Stays (voiceStep .idle) (fun t => t.state.log.InStep) VoiceLib.idleCall
        (List.replicate 7 (.interrupt .sendData) ++
          [.interrupt (.recvData (silence _) (silence _) true), .call true, .stmt, .stmt, .stmt,
            .stmt]) ∧
      run (voiceStep .idle) VoiceLib.idleCall
        (List.replicate 7 (.interrupt .sendData) ++
          [.interrupt (.recvData (silence _) (silence _) true), .call true, .stmt, .stmt, .stmt,
            .stmt]) = some t ∧
      t.code = [] ∧ t.state.log.inserted.map Inserted.mute = [true] ∧
      t.state.log.launches.map Launch.tested = [none] := by
  obtain ⟨t, hrun, hview⟩ := Option.map_eq_some_iff.mp (show
    (run (voiceStep .idle) VoiceLib.idleCall
        (List.replicate 7 (.interrupt .sendData) ++
          [.interrupt (.recvData (silence _) (silence _) true), .call true, .stmt, .stmt, .stmt,
            .stmt])).map
      (fun t => (t.code, t.state.log.inserted.map Inserted.mute,
        t.state.log.launches.map Launch.tested)) = some ([], [true], [none]) by
    decide +kernel)
  simp only [Prod.mk.injEq] at hview
  exact ⟨t, by decide +kernel, hrun, hview⟩

end Fr5080
