import Fr5080.Playback.Playback

/-!
# Fr5080.Playback.GapFree

Native playback of `fr5080_native_playback` outputs the PCM stream without a
gap and without a repeat, whatever the sizes of the nodes.

`PcmStream` says what playback is for: the nodes pushed are one stream of
bytes, and every frame takes the next 512 bytes of it, or what there is of
them.  `Playback.Plays` relates the variables to it: the list is the stream
advanced by what was sent, `pcm_size_in_list` counts the rest on top of what it
was at first, and the blocks freed are those of the nodes sent to their last
byte.

The interrupt handler keeps this (`Playback.Plays.ipcTx`), and so does the
critical section of `native_playback_recv_frame` (`Playback.Plays.insert`).  The
sum of the lengths does not overflow because the nodes are on the heap
(`RecvFrameStmt.Fits`).

`native_playback_init` empties the list but leaves `pcm_size_in_list`, so the
count is right exactly if it was zero before (`native_playback_gap_free_iff`).
It is behind `native_playback_destroy` (`gapFree_behind_destroy`), and not when
a session is started on top of another one (`init_keeps_count`).
-/

namespace Fr5080

open Embedded

/-! ## the abstract stream -/

/-- The nodes pushed in a session, and the pieces of their stream that went
into the frames. -/
structure PcmStream where
  pushed : List PcmData
  parts : List (List UInt8)

namespace PcmStream

/-- The number of bytes sent. -/
def sent (a : PcmStream) : Nat := a.parts.flatten.length

/-- What the next frame takes. -/
def nextPart (a : PcmStream) : List UInt8 :=
  ((stream a.pushed).drop a.sent).take nativePlaybackSingleFrame

/-- A node is pushed, or a frame fetched. -/
def step (a : PcmStream) : PcmOp → PcmStream
  | .push pcmData => { a with pushed := a.pushed ++ [pcmData] }
  | .frame => { a with parts := a.parts ++ [a.nextPart] }

@[simp] theorem pushed_frame (a : PcmStream) : (a.step .frame).pushed = a.pushed := rfl

@[simp] theorem parts_frame (a : PcmStream) :
    (a.step .frame).parts = a.parts ++ [a.nextPart] := rfl

@[simp] theorem sent_frame (a : PcmStream) :
    (a.step .frame).sent = a.sent + a.nextPart.length := by
  simp [sent]

/-- The stream after a session. -/
def replay (history : List PcmOp) : PcmStream := history.foldl step ⟨[], []⟩

end PcmStream

/-- The frame for a piece of the stream: a piece that is too short is followed by zeros. -/
def pcmFrame (part : List UInt8) : List UInt8 :=
  part ++ List.replicate (nativePlaybackSingleFrame - part.length) 0

/-- The heap blocks of a node, in the order in which they are freed. -/
def PcmBlocks.list (b : PcmBlocks) : List Nat := [b.data, b.node]

/-- The heap blocks of the nodes that have been sent to their last byte. -/
def PcmStream.sentBlocks (a : PcmStream) : List Nat :=
  (passed a.pushed a.sent).flatMap PcmBlocks.list

/-- The variables stand for the stream; `stale` is what `pcm_size_in_list` counts besides. -/
structure Playback.Plays (s : Playback) (stale : UInt32) (a : PcmStream) : Prop where
  fresh : ∀ p ∈ a.pushed, 0 < p.left
  whole : ∀ p ∈ a.pushed, p.offset = 0
  parts : a.parts.flatten = (stream a.pushed).take a.sent
  list : s.pcmDataList = advance a.pushed a.sent
  size : s.pcmSizeInList = stale + UInt32.ofNat (stream s.pcmDataList).length
  frames : s.log.frames = a.parts.map pcmFrame
  freed : s.log.freed = a.sentBlocks

namespace Playback.Plays

variable {s : Playback} {stale : UInt32} {a : PcmStream}

theorem sent_le (h : s.Plays stale a) : a.sent ≤ (stream a.pushed).length := by
  have hlen := congrArg List.length h.parts
  rw [List.length_take] at hlen
  unfold PcmStream.sent at *
  omega

/-- What was sent and what is queued is what was pushed. -/
theorem stream_eq (h : s.Plays stale a) :
    a.parts.flatten ++ stream s.pcmDataList = (a.pushed.map fun p => p.data).flatten := by
  have hwhole : a.pushed.map Chunk.rest = a.pushed.map fun p => p.data := by
    refine List.map_congr_left fun p hp => ?_
    rw [Chunk.rest, h.whole p hp, List.drop_zero]
  rw [h.list, stream_advance, h.parts, List.take_append_drop, stream, hwhole]

theorem left_pos (h : s.Plays stale a) : ∀ p ∈ s.pcmDataList, 0 < p.left := by
  rw [h.list]
  exact left_pos_of_mem_advance h.fresh

theorem nextPart_eq (h : s.Plays stale a) :
    a.nextPart = (stream s.pcmDataList).take nativePlaybackSingleFrame := by
  rw [PcmStream.nextPart, h.list, stream_advance]

end Playback.Plays

/-! ## the interrupt handler -/

/-- What the loop leaves behind when `n` bytes are needed. -/
structure IpcTxLoop.Fetched (q : List PcmData) (l l' : IpcTxLoop) : Prop where
  list : l'.pcmDataList = advance q l.neededLength
  needed : l'.neededLength = l.neededLength - (stream q).length
  spk : l'.neededLength ≠ 0 → l'.spk = l.spk + (stream q).length
  size : l'.pcmSizeInList =
    l.pcmSizeInList - UInt32.ofNat (min l.neededLength (stream q).length)
  shm : l'.shm = store l.shm l.spk ((stream q).take l.neededLength)
  freed : l'.freed = l.freed ++ (passed q l.neededLength).flatMap PcmBlocks.list

/-- Copying from a node copies what it still has. -/
theorem memOps_copy (dst : Nat) (pcmData : PcmData) (size : Nat) (shm : Nat → UInt8)
    (h : size ≤ pcmData.left) :
    memOps.copy dst pcmData.data pcmData.offset size shm =
      some (store shm dst (pcmData.rest.take size)) := by
  have hle : pcmData.offset + size ≤ pcmData.data.length := by
    have := pcmData.offset_le
    unfold Chunk.left at h
    omega
  simp only [memOps, memcpy, slice_getD _ _ _ _ hle, Chunk.rest]

/-- A node that has more than is needed. -/
theorem fetched_within {p : PcmData} (q : List PcmData) {l : IpcTxLoop}
    (hlt : l.neededLength < p.left) :
    l.Fetched (p :: q)
      (l.within p q hlt (store l.shm l.spk (p.rest.take l.neededLength))) := by
  have hmin : min l.neededLength (stream (p :: q)).length = l.neededLength := by
    simp; omega
  have hsub : l.neededLength - (stream (p :: q)).length = 0 := by simp; omega
  unfold IpcTxLoop.within
  constructor
  · exact (advance_cons_of_lt q hlt).symm
  · exact hsub.symm
  · exact fun hne => absurd rfl hne
  · rw [hmin]
  · rw [take_stream_of_lt q hlt]
  · rw [passed_cons_of_lt q hlt]
    simp

/-- A node that is copied to its end and freed, before what the loop fetches behind it. -/
theorem IpcTxLoop.Fetched.behind {p : PcmData} {q : List PcmData} {l l' : IpcTxLoop}
    (hle : p.left ≤ l.neededLength) (h : (l.after p (store l.shm l.spk p.rest)).Fetched q l') :
    l.Fetched (p :: q) l' := by
  unfold IpcTxLoop.after at h
  have hlen : (stream (p :: q)).length = p.left + (stream q).length := by simp
  constructor
  · rw [advance_cons_of_le q hle]
    exact h.list
  · have := h.needed
    simp only at this
    omega
  · intro hne
    have := h.spk hne
    simp only at this
    omega
  · have hmin : min l.neededLength (stream (p :: q)).length =
        p.left + min (l.neededLength - p.left) (stream q).length := by omega
    rw [h.size, hmin, UInt32.ofNat_add]
    grind
  · rw [h.shm, take_stream_of_le q hle, ← store_store_append, Chunk.length_rest]
  · rw [h.freed, passed_cons_of_le q hle]
    simp [PcmBlocks.list]

/-- The loop fetches the next bytes of the stream, across any number of nodes. -/
theorem memOps_loop {q : List PcmData} (hq : ∀ p ∈ q, 0 < p.left) (l : IpcTxLoop) :
    ∃ l', memOps.loop q l = some l' ∧ l.Fetched q l' := by
  induction q generalizing l with
  | nil => exact ⟨_, rfl, by constructor <;> simp [advance, passed]⟩
  | cons p q ih =>
      by_cases hzero : l.neededLength = 0
      · refine ⟨_, loop_full _ _ hzero, ?_⟩
        constructor <;> simp [hzero, advance_zero hq, passed_zero hq]
      by_cases hlt : l.neededLength < p.left
      · have hcopy := memOps_copy l.spk p l.neededLength l.shm (Nat.le_of_lt hlt)
        exact ⟨_, by rw [loop_lt _ _ hzero hlt, hcopy]; rfl, fetched_within q hlt⟩
      · have hcopy := memOps_copy l.spk p p.left l.shm le_rfl
        rw [← Chunk.length_rest, List.take_length, Chunk.length_rest] at hcopy
        obtain ⟨l', hloop, hl'⟩ := ih (fun p' hp' => hq p' (List.mem_cons_of_mem p hp'))
          (l.after p (store l.shm l.spk p.rest))
        refine ⟨l', ?_, hl'.behind (Nat.not_lt.mp hlt)⟩
        rw [loop_le _ _ hzero hlt, hcopy]
        exact hloop

theorem length_pcmFrame {part : List UInt8} (h : part.length ≤ nativePlaybackSingleFrame) :
    (pcmFrame part).length = nativePlaybackSingleFrame := by
  rw [pcmFrame, List.length_append, List.length_replicate]
  omega

/-- The zeros behind the last byte complete the frame. -/
theorem memOps_fillRest {s : Playback} {ipcCodecDacTog : Nat} {l : IpcTxLoop}
    (hl : (s.ipcTxEntry ipcCodecDacTog).Fetched s.pcmDataList l) :
    ∃ shm, memOps.fillRest l = some shm ∧
      slice shm (ipcTxSpk ipcCodecDacTog) nativePlaybackSingleFrame =
        pcmFrame ((stream s.pcmDataList).take nativePlaybackSingleFrame) := by
  obtain ⟨part, hpart⟩ : ∃ part, part =
    (stream s.pcmDataList).take nativePlaybackSingleFrame := ⟨_, rfl⟩
  have hle : part.length ≤ nativePlaybackSingleFrame := by
    rw [hpart, List.length_take]
    exact Nat.min_le_left _ _
  have hneeded : l.neededLength = nativePlaybackSingleFrame - (stream s.pcmDataList).length :=
    hl.needed
  have hshm : l.shm = store s.shm (ipcTxSpk ipcCodecDacTog) part := by
    rw [hpart]
    exact hl.shm
  have hstore : memOps.fillRest l =
      some (store s.shm (ipcTxSpk ipcCodecDacTog) (pcmFrame part)) := by
    unfold IpcTxOps.fillRest
    split
    · next hne =>
        have hlen : (stream s.pcmDataList).length = part.length := by
          rw [hpart, List.length_take]
          omega
        have hspk : l.spk = ipcTxSpk ipcCodecDacTog + part.length := by
          rw [← hlen]
          exact hl.spk hne
        have hneeded' : l.neededLength = nativePlaybackSingleFrame - part.length := by omega
        simp only [memOps, hshm, hspk, store_store_append, hneeded', pcmFrame]
    · next hzero =>
        have hnone : nativePlaybackSingleFrame - part.length = 0 := by
          rw [hpart, List.length_take]
          omega
        rw [hshm, pcmFrame, hnone, List.replicate_zero, List.append_nil]
  have hslice := slice_store_self s.shm (ipcTxSpk ipcCodecDacTog) (pcmFrame part)
  rw [length_pcmFrame hle] at hslice
  exact ⟨_, hstore, by rw [hslice, hpart]⟩

/-- The interrupt handler always returns, and puts the next frame into the
exchange memory. -/
theorem nativePlaybackIpcTx_eq {s : Playback} (hlist : ∀ p ∈ s.pcmDataList, 0 < p.left)
    (ipcCodecDacTog : Nat) :
    ∃ s' posted, nativePlaybackIpcTx ipcCodecDacTog s = some (s', posted) ∧
      s'.pcmDataList = advance s.pcmDataList nativePlaybackSingleFrame ∧
      s'.pcmSizeInList = s.pcmSizeInList - UInt32.ofNat
        (min nativePlaybackSingleFrame (stream s.pcmDataList).length) ∧
      s'.nextBlock = s.nextBlock ∧
      slice s'.shm (ipcTxSpk ipcCodecDacTog) nativePlaybackSingleFrame =
        pcmFrame ((stream s.pcmDataList).take nativePlaybackSingleFrame) ∧
      s'.log.history = s.log.history ++ [.frame] ∧
      s'.log.frames = s.log.frames ++
        [pcmFrame ((stream s.pcmDataList).take nativePlaybackSingleFrame)] ∧
      s'.log.freed = s.log.freed ++
        (passed s.pcmDataList nativePlaybackSingleFrame).flatMap PcmBlocks.list := by
  obtain ⟨l, hloop, hl⟩ := memOps_loop hlist (s.ipcTxEntry ipcCodecDacTog)
  obtain ⟨shm, hfill, hslice⟩ := memOps_fillRest hl
  unfold nativePlaybackIpcTx IpcTxOps.ipcTx
  simp only [hloop, hfill]
  unfold Playback.ipcTxEnd
  split
  · exact ⟨_, _, rfl, hl.list, hl.size, rfl, hslice, rfl, by rw [hslice], hl.freed⟩
  · exact ⟨_, _, rfl, hl.list, hl.size, rfl, hslice, rfl, by rw [hslice], hl.freed⟩

/-- A frame is fetched: the stream is sent on by what it takes. -/
theorem Playback.Plays.ipcTx {s s' : Playback} {stale : UInt32} {a : PcmStream}
    {posted : List DecoderTask} {ipcCodecDacTog : Nat} (h : s.Plays stale a)
    (hisr : nativePlaybackIpcTx ipcCodecDacTog s = some (s', posted)) :
    s'.Plays stale (a.step .frame) := by
  obtain ⟨s1, posted1, heq, hlist, hsize, -, -, -, hframes, hfreed⟩ :=
    nativePlaybackIpcTx_eq h.left_pos ipcCodecDacTog
  cases heq.symm.trans hisr
  have hnext := h.nextPart_eq
  have hlen : a.nextPart.length =
      min nativePlaybackSingleFrame (stream s.pcmDataList).length := by
    rw [hnext, List.length_take]
  -- nothing is left when less than a frame is taken
  have hadvance : advance s.pcmDataList nativePlaybackSingleFrame =
      advance s.pcmDataList a.nextPart.length := by
    rw [hlen]
    exact advance_min_length h.left_pos _
  have hpassed : passed s.pcmDataList nativePlaybackSingleFrame =
      passed s.pcmDataList a.nextPart.length := by
    rw [hlen]
    exact passed_min_length h.left_pos _
  refine ⟨h.fresh, h.whole, ?_, ?_, ?_, ?_, ?_⟩
  · have hdrop : a.nextPart = ((stream a.pushed).drop a.sent).take a.nextPart.length := by
      rw [PcmStream.nextPart, List.length_take, List.take_eq_take_iff]
      omega
    rw [PcmStream.sent_frame, PcmStream.parts_frame, PcmStream.pushed_frame, List.take_add,
      ← hdrop, ← h.parts]
    simp
  · rw [hlist, hadvance, h.list, advance_advance, PcmStream.sent_frame, PcmStream.pushed_frame]
  · have hrest : (stream s.pcmDataList).length -
        min nativePlaybackSingleFrame (stream s.pcmDataList).length =
        (stream s.pcmDataList).length - nativePlaybackSingleFrame := by omega
    rw [hsize, hlist, stream_advance, List.length_drop, h.size, UInt32.sub_eq_add_neg,
      UInt32.add_assoc, ← UInt32.sub_eq_add_neg, ← UInt32.ofNat_sub (Nat.min_le_right _ _), hrest]
  · rw [hframes, h.frames, ← hnext, PcmStream.parts_frame, List.map_append]
    rfl
  · rw [hfreed, h.freed, hpassed, PcmStream.sentBlocks, PcmStream.sentBlocks,
      PcmStream.sent_frame, PcmStream.pushed_frame, h.list, passed_add, List.flatMap_append]

/-! ## the critical section -/

/-- A new node goes to the end of the stream. -/
theorem Playback.Plays.push {s : Playback} {stale : UInt32} {a : PcmStream}
    (h : s.Plays stale a) {p : PcmData} (hp : 0 < p.left) (hoffset : p.offset = 0) :
    ({ s with
      pcmDataList := s.pcmDataList ++ [p]
      pcmSizeInList := s.pcmSizeInList + UInt32.ofNat p.data.length
      log := { s.log with history := s.log.history ++ [.push p] } } : Playback).Plays
        stale (a.step (.push p)) := by
  have hone : ∀ p' ∈ [p], 0 < p'.left := by simpa using hp
  have hleft : p.left = p.data.length := by
    rw [Chunk.left, hoffset, Nat.sub_zero]
  refine ⟨?_, ?_, ?_, ?_, ?_, h.frames, ?_⟩
  · intro p' hp'
    cases List.mem_append.mp hp' with
    | inl hmem => exact h.fresh p' hmem
    | inr hmem => exact hone p' hmem
  · intro p' hp'
    cases List.mem_append.mp hp' with
    | inl hmem => exact h.whole p' hmem
    | inr hmem => rw [List.mem_singleton.mp hmem, hoffset]
  · show a.parts.flatten = (stream (a.pushed ++ [p])).take a.sent
    rw [stream_append, List.take_append_of_le_length h.sent_le]
    exact h.parts
  · show s.pcmDataList ++ [p] = advance (a.pushed ++ [p]) a.sent
    rw [advance_append hone h.sent_le, h.list]
  · show s.pcmSizeInList + UInt32.ofNat p.data.length =
      stale + UInt32.ofNat (stream (s.pcmDataList ++ [p])).length
    rw [h.size, UInt32.add_assoc, ← UInt32.ofNat_add]
    simp [hleft]
  · show s.log.freed = (passed (a.pushed ++ [p]) a.sent).flatMap PcmBlocks.list
    rw [passed_append hone h.sent_le]
    exact h.freed

/-! ## runs -/

/-- The heap blocks that the local variables of a statement hold. -/
def RecvFrameStmt.blocks : RecvFrameStmt → List Nat
  | .mallocNode _ => []
  | .mallocData node _ => [node]
  | .copyData blocks _ => blocks.list
  | .setFields blocks _ => blocks.list
  | .insert pcmData => pcmData.tag.list

/-- What is known of the local variables of a statement: the data is not empty and,
once it is allocated, fits on the heap together with what is queued. -/
def RecvFrameStmt.Fits (s : Playback) : RecvFrameStmt → Prop
  | .mallocNode data => 0 < data.length
  | .mallocData _ data => 0 < data.length
  | .copyData _ data => 0 < data.length ∧ s.liveBytes + data.length ≤ configTotalHeapSize
  | .setFields _ data => 0 < data.length ∧ s.liveBytes + data.length ≤ configTotalHeapSize
  | .insert p => 0 < p.left ∧ p.offset = 0 ∧ s.liveBytes + p.data.length ≤ configTotalHeapSize

theorem RecvFrameStmt.Fits.mono {s s' : Playback} {c : RecvFrameStmt} (h : c.Fits s)
    (hle : s'.liveBytes ≤ s.liveBytes) : c.Fits s' := by
  cases c with
  | mallocNode data => exact h
  | mallocData node data => exact h
  | copyData blocks data => exact ⟨h.1, by have := h.2; omega⟩
  | setFields blocks data => exact ⟨h.1, by have := h.2; omega⟩
  | insert p => exact ⟨h.1, h.2.1, by have := h.2.2; omega⟩

/-- The heap blocks of the nodes of a session. -/
def PcmStream.blocks (a : PcmStream) : List Nat := a.pushed.flatMap fun p => p.tag.list

/-- The invariant of a session, with `code` still to be executed. -/
structure PlaybackInv (stale : UInt32) (code : List RecvFrameStmt) (s : Playback) : Prop where
  plays : s.Plays stale (.replay s.log.history)
  heap : s.liveBytes ≤ configTotalHeapSize
  single : code.length ≤ 1
  fits : ∀ c ∈ code, c.Fits s
  nodup : ((PcmStream.replay s.log.history).blocks ++ code.flatMap RecvFrameStmt.blocks).Nodup
  below : ∀ b ∈ (PcmStream.replay s.log.history).blocks ++ code.flatMap RecvFrameStmt.blocks,
    b < s.nextBlock

namespace PlaybackInv

variable {s : Playback} {stale : UInt32} {c : RecvFrameStmt} {code : List RecvFrameStmt}

theorem replay_append (history : List PcmOp) (op : PcmOp) :
    PcmStream.replay (history ++ [op]) = (PcmStream.replay history).step op := by
  simp [PcmStream.replay]

/-- A session starts empty, with the count of before. -/
theorem init (s : Playback) : PlaybackInv s.pcmSizeInList [] (nativePlaybackInit s) := by
  refine ⟨⟨?_, ?_, rfl, rfl, (UInt32.add_zero _).symm, rfl, rfl⟩, Nat.zero_le _, Nat.zero_le _,
    ?_, List.nodup_nil, ?_⟩
  · exact fun p hp => absurd hp List.not_mem_nil
  · exact fun p hp => absurd hp List.not_mem_nil
  · exact fun c hc => absurd hc List.not_mem_nil
  · exact fun b hb => absurd hb List.not_mem_nil

/-- The next statement, with the same blocks in its local variables. -/
theorem next (h : PlaybackInv stale [c] s) {c' : RecvFrameStmt} (hfits : c'.Fits s)
    (hblocks : c'.blocks = c.blocks) : PlaybackInv stale [c'] s := by
  refine ⟨h.plays, h.heap, le_rfl, ?_, ?_, ?_⟩
  · intro c1 hc1
    rw [List.mem_singleton.mp hc1]
    exact hfits
  · have := h.nodup
    simp only [List.flatMap_cons, List.flatMap_nil] at this ⊢
    rwa [hblocks]
  · have := h.below
    simp only [List.flatMap_cons, List.flatMap_nil] at this ⊢
    rwa [hblocks]

/-- A block is allocated: it is new. -/
theorem malloc (h : PlaybackInv stale [c] s) {xWantedSize : Nat} {fits : Bool} {block : Nat}
    {s' : Playback} (hmalloc : s.pvPortMallocUser xWantedSize fits = some (block, s'))
    {c' : RecvFrameStmt} (hblocks : (c'.blocks).Perm (block :: c.blocks))
    (hfits : s.liveBytes + xWantedSize ≤ configTotalHeapSize → c'.Fits s') :
    PlaybackInv stale [c'] s' := by
  unfold Playback.pvPortMallocUser at hmalloc
  split at hmalloc
  · next hguard =>
      cases hmalloc
      have hnodup := h.nodup
      have hbelow := h.below
      simp only [List.flatMap_cons, List.flatMap_nil, List.append_nil] at hnodup hbelow
      have hperm : ((PcmStream.replay s.log.history).blocks ++ c'.blocks).Perm
          (s.nextBlock :: ((PcmStream.replay s.log.history).blocks ++ c.blocks)) :=
        (hblocks.append_left _).trans List.perm_middle
      refine ⟨⟨h.plays.fresh, h.plays.whole, h.plays.parts, h.plays.list, h.plays.size,
        h.plays.frames, h.plays.freed⟩, h.heap, le_rfl, ?_, ?_, ?_⟩
      · intro c1 hc1
        rw [List.mem_singleton.mp hc1]
        exact hfits hguard.2
      · simp only [List.flatMap_cons, List.flatMap_nil, List.append_nil]
        refine hperm.nodup_iff.mpr (List.nodup_cons.mpr ⟨fun hmem => ?_, hnodup⟩)
        exact Nat.lt_irrefl _ (hbelow _ hmem)
      · intro b hb
        simp only [List.flatMap_cons, List.flatMap_nil, List.append_nil] at hb
        cases hperm.subset hb with
        | head => exact Nat.lt_succ_self _
        | tail _ hmem => exact Nat.lt_succ_of_lt (hbelow b hmem)
  · cases hmalloc

/-- The critical section. -/
theorem insert {p : PcmData} (h : PlaybackInv stale [.insert p] s) :
    PlaybackInv stale [] { s with
      pcmDataList := s.pcmDataList ++ [p]
      pcmSizeInList := s.pcmSizeInList + UInt32.ofNat p.data.length
      log := { s.log with history := s.log.history ++ [.push p] } } := by
  obtain ⟨hleft, hoffset, hlive⟩ := h.fits _ List.mem_cons_self
  have hblocks : (PcmStream.replay (s.log.history ++ [.push p])).blocks =
      (PcmStream.replay s.log.history).blocks ++ p.tag.list := by
    simp [replay_append, PcmStream.step, PcmStream.blocks]
  have hnodup := h.nodup
  have hbelow := h.below
  simp only [List.flatMap_cons, List.flatMap_nil, List.append_nil, RecvFrameStmt.blocks]
    at hnodup hbelow
  refine ⟨?_, ?_, Nat.zero_le _, fun c hc => absurd hc List.not_mem_nil, ?_, ?_⟩
  · rw [replay_append]
    exact h.plays.push hleft hoffset
  · simpa [Playback.liveBytes] using hlive
  · simpa [hblocks] using hnodup
  · simpa [hblocks] using hbelow

/-- A frame is fetched, wherever the decoder is. -/
theorem ipcTx (h : PlaybackInv stale code s) {s' : Playback} {posted : List DecoderTask}
    {ipcCodecDacTog : Nat} (hisr : nativePlaybackIpcTx ipcCodecDacTog s = some (s', posted)) :
    PlaybackInv stale code s' := by
  obtain ⟨s1, posted1, heq, hlist, -, hnext, -, hhistory, -, -⟩ :=
    nativePlaybackIpcTx_eq h.plays.left_pos ipcCodecDacTog
  cases heq.symm.trans hisr
  have hlive : s'.liveBytes ≤ s.liveBytes := by
    rw [Playback.liveBytes, hlist]
    exact sum_length_advance_le _ _
  have hblocks : (PcmStream.replay s'.log.history).blocks =
      (PcmStream.replay s.log.history).blocks := by
    rw [hhistory, replay_append]
    rfl
  refine ⟨?_, hlive.trans h.heap, h.single, fun c hc => (h.fits c hc).mono hlive, ?_, ?_⟩
  · rw [hhistory, replay_append]
    exact h.plays.ipcTx hisr
  · rw [hblocks]
    exact h.nodup
  · rw [hblocks, hnext]
    exact h.below

/-- One statement of `native_playback_recv_frame`. -/
theorem stmt (h : PlaybackInv stale (c :: code) s) {fits : Bool}
    {r : Effect RecvFrameStmt DecoderTask Playback} (hexec : c.exec fits s = some r) :
    PlaybackInv stale (r.code code) r.state := by
  have hcode : code = [] := List.eq_nil_of_length_eq_zero (by
    have := h.single
    rw [List.length_cons] at this
    omega)
  subst hcode
  have hfits := h.fits c List.mem_cons_self
  cases c with
  | mallocNode data =>
      simp only [RecvFrameStmt.exec] at hexec
      split at hexec
      · next node s' hmalloc =>
          cases hexec
          exact h.malloc hmalloc (List.Perm.refl _) fun _ => hfits
      · cases hexec
  | mallocData node data =>
      simp only [RecvFrameStmt.exec] at hexec
      split at hexec
      · next block s' hmalloc =>
          cases hexec
          refine h.malloc hmalloc (List.Perm.refl _) fun hle => ⟨hfits, ?_⟩
          unfold Playback.pvPortMallocUser at hmalloc
          split at hmalloc
          · cases hmalloc
            exact hle
          · cases hmalloc
      · cases hexec
  | copyData blocks data =>
      cases hexec
      exact h.next hfits rfl
  | setFields blocks bytes =>
      cases hexec
      exact h.next ⟨by simpa using hfits.1, rfl, hfits.2⟩ rfl
  | insert p =>
      cases hexec
      exact h.insert

end PlaybackInv

/-- The invariant holds throughout a session. -/
theorem playback_run_inv (s : Playback) {queue : List DecoderTask}
    {es : List (SchedEvent (List UInt8) Bool Nat)}
    (hlength : ∀ data, SchedEvent.call data ∈ es → 0 < data.length)
    {t : Sched RecvFrameStmt DecoderTask Playback}
    (h : run playbackStep ⟨[], queue, nativePlaybackInit s⟩ es = some t) :
    PlaybackInv s.pcmSizeInList t.code t.state := by
  refine run_inv_of_sched (A := fun code _ s' => PlaybackInv s.pcmSizeInList code s')
    (C := fun _ e => ∀ data : List UInt8, e = .call data → 0 < data.length)
    ?_ ?_ ?_ ?_ (PlaybackInv.init s) ?_ h
  · intro data queue s hC hs
    refine ⟨hs.plays, hs.heap, le_rfl, fun c hc => ?_, hs.nodup, hs.below⟩
    rw [List.mem_singleton.mp hc]
    exact hC data rfl
  · exact fun m queue s _ hs => hs
  · exact fun c cs queue s fits r _ hs hexec => hs.stmt hexec
  · exact fun cs queue s tog s' posted _ hs hisr => hs.ipcTx hisr
  · refine along_of_forall (P := fun e : SchedEvent (List UInt8) Bool Nat =>
        ∀ data, e = .call data → 0 < data.length) (I := fun _ => True)
      (fun _ _ _ _ _ _ => trivial) (fun _ _ _ hP => hP) trivial ?_
    intro e he data heq
    exact hlength data (heq ▸ he)

/-! ## no gap -/

/-- Playback is gap-free so far: the byte count is the sum over the nodes; the frames are the
pieces of the stream as they were due; what was sent and what is queued is what was pushed; the
blocks freed, each once, are those of the nodes whose last byte was sent; and the next frame is
the next 512 bytes of the stream. -/
structure Playback.GapFree (s : Playback) : Prop where
  count : s.pcmSizeInList.toNat = (s.pcmDataList.map fun p => p.data.length - p.offset).sum
  frames : s.log.frames = (PcmStream.replay s.log.history).parts.map pcmFrame
  complete : (PcmStream.replay s.log.history).parts.flatten ++ stream s.pcmDataList =
    ((PcmStream.replay s.log.history).pushed.map fun p => p.data).flatten
  freed : s.log.freed = (PcmStream.replay s.log.history).sentBlocks
  once : s.log.freed.Nodup
  next : ∀ ipcCodecDacTog, ∃ s' posted,
    nativePlaybackIpcTx ipcCodecDacTog s = some (s', posted) ∧
    slice s'.shm (ipcTxSpk ipcCodecDacTog) nativePlaybackSingleFrame =
      pcmFrame ((stream s.pcmDataList).take nativePlaybackSingleFrame) ∧
    stream s'.pcmDataList = (stream s.pcmDataList).drop nativePlaybackSingleFrame

namespace PlaybackInv

variable {s : Playback} {stale : UInt32} {code : List RecvFrameStmt}

/-- The blocks freed are different ones. -/
theorem nodup_freed (h : PlaybackInv stale code s) : s.log.freed.Nodup := by
  obtain ⟨rest, hrest⟩ := passed_prefix (PcmStream.replay s.log.history).pushed
    (PcmStream.replay s.log.history).sent
  have hnodup := (List.nodup_append.mp h.nodup).1
  rw [PcmStream.blocks, ← List.flatMap_map Chunk.tag, ← hrest, List.flatMap_append] at hnodup
  rw [h.plays.freed]
  exact (List.nodup_append.mp hnodup).1

/-- The nodes are on the heap, and the sum over them is far from an overflow. -/
theorem length_stream_lt (h : PlaybackInv stale code s) :
    (stream s.pcmDataList).length < 2 ^ 32 := by
  have hle := (length_stream_le s.pcmDataList).trans h.heap
  unfold configTotalHeapSize at hle
  omega

/-- The count is the sum over the nodes if nothing was counted besides. -/
theorem count_iff (h : PlaybackInv stale code s) :
    s.pcmSizeInList.toNat = (s.pcmDataList.map fun p => p.data.length - p.offset).sum ↔
      stale = 0 := by
  have hsum : (s.pcmDataList.map fun p => p.data.length - p.offset).sum =
      (UInt32.ofNat (stream s.pcmDataList).length).toNat := by
    rw [UInt32.toNat_ofNat_of_lt' h.length_stream_lt, length_stream]
    rfl
  rw [hsum, UInt32.toNat_inj, h.plays.size, UInt32.add_eq_right]

/-- All else does not depend on the count. -/
theorem gapFree_iff (h : PlaybackInv stale code s) : s.GapFree ↔ stale = 0 := by
  refine ⟨fun hgap => h.count_iff.mp hgap.count, fun hstale => ?_⟩
  refine ⟨h.count_iff.mpr hstale, h.plays.frames, h.plays.stream_eq, h.plays.freed,
    h.nodup_freed, fun tog => ?_⟩
  obtain ⟨s', posted, heq, hlist, -, -, hslice, -⟩ :=
    nativePlaybackIpcTx_eq h.plays.left_pos tog
  exact ⟨s', posted, heq, hslice, by rw [hlist, stream_advance]⟩

end PlaybackInv

/-- **No gap**: after `native_playback_init`, in every interleaving of
`native_playback_recv_frame` with the DMA interrupt, playback is gap-free exactly if
`pcm_size_in_list` was zero before. -/
theorem native_playback_gap_free_iff (s : Playback) {queue : List DecoderTask}
    {es : List (SchedEvent (List UInt8) Bool Nat)}
    (hlength : ∀ data, SchedEvent.call data ∈ es → 0 < data.length)
    {t : Sched RecvFrameStmt DecoderTask Playback}
    (h : run playbackStep ⟨[], queue, nativePlaybackInit s⟩ es = some t) :
    t.state.GapFree ↔ s.pcmSizeInList = 0 :=
  (playback_run_inv s hlength h).gapFree_iff

/-- Nodes of 300 and 400 bytes, and two frames. -/
def twoNodes : List (SchedEvent (List UInt8) Bool Nat) :=
  .call ((List.range 300).map UInt8.ofNat) :: List.replicate 5 (.stmt true) ++
    .call ((List.range 400).map fun i => UInt8.ofNat (7 * i)) :: List.replicate 5 (.stmt true) ++
      [.interrupt 0, .interrupt 1]

/-- The first frame ends within the second node, the second one behind it. -/
theorem native_playback_gap_free_iff_twoNodes :
    ∃ t, run playbackStep ⟨[], [], nativePlaybackInit .zeroed⟩ twoNodes = some t ∧
      t.state.log.freed = [1, 0, 3, 2] ∧ t.state.GapFree := by
  have hlength : ∀ data, SchedEvent.call data ∈ twoNodes → 0 < data.length := by
    intro data hdata
    simp [twoNodes] at hdata
    rcases hdata with rfl | rfl <;> simp
  have hfreed : (run playbackStep ⟨[], [], nativePlaybackInit .zeroed⟩ twoNodes).map
      (·.state.log.freed) = some [1, 0, 3, 2] := by decide +kernel
  obtain ⟨t, ht, hlog⟩ := Option.map_eq_some_iff.mp hfreed
  exact ⟨t, ht, hlog, (native_playback_gap_free_iff .zeroed hlength ht).mpr rfl⟩

/-- A session behind `native_playback_destroy` is gap-free. -/
theorem gapFree_behind_destroy (s : Playback) {queue : List DecoderTask}
    {es : List (SchedEvent (List UInt8) Bool Nat)}
    (hlength : ∀ data, SchedEvent.call data ∈ es → 0 < data.length)
    {t : Sched RecvFrameStmt DecoderTask Playback}
    (h : run playbackStep ⟨[], queue, nativePlaybackInit (nativePlaybackDestroy s)⟩ es =
      some t) : t.state.GapFree :=
  (playback_run_inv (nativePlaybackDestroy s) hlength h).gapFree_iff.mpr rfl

/-- A session is started while the one before it has three bytes in its list: they are counted for
good, and the list is empty. -/
theorem init_keeps_count :
    ∃ t t', run playbackStep ⟨[], [], nativePlaybackInit .zeroed⟩
        (.call [1, 2, 3] :: List.replicate 5 (.stmt true)) = some t ∧
      run playbackStep ⟨[], t.queue, nativePlaybackInit t.state⟩ [.interrupt 0] = some t' ∧
      t'.state.pcmDataList = [] ∧ t'.state.pcmSizeInList = 3 ∧ ¬ t'.state.GapFree := by
  refine ⟨_, _, rfl, rfl, rfl, rfl, fun h => ?_⟩
  exact absurd h.count (by decide)

end Fr5080
