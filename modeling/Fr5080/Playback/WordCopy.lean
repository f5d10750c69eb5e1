import Fr5080.Playback.GapFree

/-!
# Fr5080.Playback.WordCopy

Native playback of `fr5080_user_code_xip` copies to the DMA buffer with
functions of its own, which move 32-bit words: `size` is shifted right by two,
so the last `size % 4` bytes are dropped, while the pointers and counters of
the caller go on by the full size.  A word access to an address that is not a
multiple of four faults; the blocks of the heap are aligned to eight bytes, so
an address in a node is aligned when its offset is.

The frame agrees with that of `memcpy` and `memset` exactly when every piece
of it is moved whole (`MovedWhole`): no word access faults, and the bytes
dropped are in the buffer already.
-/

namespace Fr5080

open Embedded

/-! ## the copies -/

/-- `while(size--) *dst_u32++ = …`: the words `load i`, `load (i + 1)`, … go to `dst`. -/
def wordLoop (load : Nat → Option (List UInt8)) :
    Nat → Nat → Nat → (Nat → UInt8) → Option (Nat → UInt8)
  | 0, _, _, shm => some shm
  | size + 1, i, dst, shm => match load i with
    | none => none
    | some word =>
        if dst % 4 = 0 then wordLoop load size (i + 1) (dst + 4) (store shm dst word) else none

/-- `*src_u32` for the word `i` of a source at offset `src` of a heap block. -/
def loadWord (data : List UInt8) (src i : Nat) : Option (List UInt8) :=
  if (src + 4 * i) % 4 = 0 then some (slice (fun k => data.getD k 0) (src + 4 * i) 4) else none

namespace Xip

/-- `ipc_tx_memcpy`. -/
def ipcTxMemcpy (dst : Nat) (data : List UInt8) (src size : Nat) (shm : Nat → UInt8) :
    Option (Nat → UInt8) :=
  wordLoop (loadWord data src) (size >>> 2) 0 dst shm

/-- `ipc_tx_memset`; every byte of `value_u32` is `value`. -/
def ipcTxMemset (dst : Nat) (value : UInt8) (size : Nat) (shm : Nat → UInt8) :
    Option (Nat → UInt8) :=
  wordLoop (fun _ => some (List.replicate 4 value)) (size >>> 2) 0 dst shm

/-- `NATIVE_PLAYBACK_DECODER_THD` of `fr5080_user_code_xip`. -/
def nativePlaybackDecoderThd : UInt32 := 44100 * 2 * 2 / 25

/-- `ipc_tx_memcpy` and `ipc_tx_memset`. -/
def wordOps : IpcTxOps where
  copy := ipcTxMemcpy
  fill := ipcTxMemset

/-- `native_playback_ipc_tx` of `fr5080_user_code_xip`. -/
def nativePlaybackIpcTx (ipcCodecDacTog : Nat) (s : Playback) :
    Option (Playback × List DecoderTask) :=
  wordOps.ipcTx nativePlaybackDecoderThd ipcCodecDacTog s

end Xip

/-- The two interrupt handlers agree on a state: the same frame, list and byte count. -/
def IpcTxAgree (ipcCodecDacTog : Nat) (s : Playback) : Prop :=
  ∃ w p, Xip.nativePlaybackIpcTx ipcCodecDacTog s = some w ∧
    nativePlaybackIpcTx ipcCodecDacTog s = some p ∧
    slice w.1.shm (ipcTxSpk ipcCodecDacTog) nativePlaybackSingleFrame =
      slice p.1.shm (ipcTxSpk ipcCodecDacTog) nativePlaybackSingleFrame ∧
    w.1.pcmDataList = p.1.pcmDataList ∧ w.1.pcmSizeInList = p.1.pcmSizeInList

/-! ## the condition -/

/-- A piece of a frame is moved whole to `dst` by words: none of them faults,
and the bytes behind the last word are in the buffer already. -/
structure MovedWhole (aligned : Prop) (dst : Nat) (piece : List UInt8) (shm : Nat → UInt8) :
    Prop where
  aligned : 4 ≤ piece.length → aligned
  dropped : slice shm (dst + 4 * (piece.length / 4)) (piece.length % 4) =
    piece.drop (4 * (piece.length / 4))

/-- Every piece of a frame is moved whole: `needed` bytes of the nodes `q` to
`spk`, and zeros behind them. -/
def FrameMovedWhole (shm : Nat → UInt8) : List PcmData → Nat → Nat → Prop
  | [], needed, spk => MovedWhole (spk % 4 = 0) spk (List.replicate needed 0) shm
  | p :: q, needed, spk =>
      if needed = 0 then True
      else if needed < p.left then
        MovedWhole (p.offset % 4 = 0 ∧ spk % 4 = 0) spk (p.rest.take needed) shm
      else
        MovedWhole (p.offset % 4 = 0 ∧ spk % 4 = 0) spk p.rest shm ∧
          FrameMovedWhole shm q (needed - p.left) (spk + p.left)

/-! ## one copy -/

/-- Words whose bytes are those of a list make up a store of the list. -/
theorem wordLoop_eq {load : Nat → Option (List UInt8)} {aligned : Prop} [Decidable aligned]
    {bytes : List UInt8}
    (hload : ∀ i, 4 * i + 4 ≤ bytes.length →
      load i = if aligned then some ((bytes.drop (4 * i)).take 4) else none)
    (n i dst : Nat) (shm : Nat → UInt8) (h : 4 * (i + n) ≤ bytes.length) :
    wordLoop load n i dst shm =
      if n = 0 ∨ (aligned ∧ dst % 4 = 0) then
        some (store shm dst ((bytes.drop (4 * i)).take (4 * n)))
      else none := by
  induction n generalizing i dst shm with
  | zero => simp [wordLoop]
  | succ n ih =>
      rw [wordLoop, hload i (by omega)]
      by_cases ha : aligned
      · by_cases hd : dst % 4 = 0
        · have hd' : (dst + 4) % 4 = 0 := by omega
          have hlen : ((bytes.drop (4 * i)).take 4).length = 4 := by
            simp only [List.length_take, List.length_drop]
            omega
          have hdrop : bytes.drop (4 * (i + 1)) = (bytes.drop (4 * i)).drop 4 := by
            rw [List.drop_drop, Nat.mul_add, Nat.mul_one]
          have hsplit : (bytes.drop (4 * i)).take (4 * (n + 1)) =
              (bytes.drop (4 * i)).take 4 ++ (bytes.drop (4 * (i + 1))).take (4 * n) := by
            rw [hdrop, ← List.take_add]
            congr 1
            omega
          have hstore := store_store_append shm dst ((bytes.drop (4 * i)).take 4)
            ((bytes.drop (4 * (i + 1))).take (4 * n))
          rw [hlen] at hstore
          simp only [ha, hd, hd', ih (i + 1) (dst + 4) _ (by omega), hsplit, hstore, and_self,
            or_true, if_true]
        · simp [ha, hd]
      · simp [ha]

/-- The bytes moved by words are the whole piece exactly if those dropped are there. -/
theorem slice_store_words_iff (shm : Nat → UInt8) (dst : Nat) (piece : List UInt8) :
    slice (store shm dst (piece.take (4 * (piece.length / 4)))) dst piece.length = piece ↔
      slice shm (dst + 4 * (piece.length / 4)) (piece.length % 4) =
        piece.drop (4 * (piece.length / 4)) := by
  obtain ⟨k, hk⟩ : ∃ k, k = 4 * (piece.length / 4) := ⟨_, rfl⟩
  have hle : k + piece.length % 4 = piece.length := by omega
  have hlen : (piece.take k).length = k := by
    rw [List.length_take]
    omega
  have hhead := slice_store_self shm dst (piece.take k)
  rw [hlen] at hhead
  have htail : slice (store shm dst (piece.take k)) (dst + k) (piece.length % 4) =
      slice shm (dst + k) (piece.length % 4) := by
    refine slice_eq_slice_iff.mpr fun i _ => store_of_not_mem _ _ _ _ ?_
    rw [hlen]
    omega
  rw [← hk]
  constructor
  · intro h
    rw [← hle, slice_add, hhead, htail] at h
    exact List.append_cancel_left (h.trans (List.take_append_drop k piece).symm)
  · intro h
    rw [← hle, slice_add, hhead, htail, h, List.take_append_drop]

/-- What a copy by words leaves, if it does not fault. -/
def moveWords (aligned : Prop) [Decidable aligned] (dst : Nat) (piece : List UInt8)
    (shm : Nat → UInt8) : Option (Nat → UInt8) :=
  if piece.length / 4 = 0 ∨ aligned then
    some (store shm dst (piece.take (4 * (piece.length / 4))))
  else none

/-- Copying from a node moves words of what it still has. -/
theorem wordOps_copy (dst : Nat) (p : PcmData) (size : Nat) (shm : Nat → UInt8)
    (h : size ≤ p.left) :
    Xip.wordOps.copy dst p.data p.offset size shm =
      moveWords (p.offset % 4 = 0 ∧ dst % 4 = 0) dst (p.rest.take size) shm := by
  have hle : p.offset + p.left = p.data.length := by
    have := p.offset_le
    unfold Chunk.left
    omega
  have hlen : (p.rest.take size).length = size := by
    rw [List.length_take, Chunk.length_rest]
    omega
  have hload : ∀ i, 4 * i + 4 ≤ (p.rest.take size).length →
      loadWord p.data p.offset i =
        if p.offset % 4 = 0 then some (((p.rest.take size).drop (4 * i)).take 4) else none := by
    intro i hi
    rw [hlen] at hi
    have hmod : (p.offset + 4 * i) % 4 = p.offset % 4 := by omega
    have hword : slice (fun k => p.data.getD k 0) (p.offset + 4 * i) 4 =
        ((p.rest.take size).drop (4 * i)).take 4 := by
      rw [slice_getD _ _ _ _ (by omega), Chunk.rest, List.drop_take, List.drop_drop,
        List.take_take, Nat.min_eq_left (by omega)]
    rw [loadWord, hmod, hword]
  have hwords := wordLoop_eq hload (size / 4) 0 dst shm (by rw [hlen]; omega)
  show wordLoop (loadWord p.data p.offset) (size >>> 2) 0 dst shm = _
  rw [Nat.shiftRight_eq_div_pow, hwords, moveWords, hlen]
  rfl

/-- Filling moves words of zeros. -/
theorem wordOps_fill (dst size : Nat) (value : UInt8) (shm : Nat → UInt8) :
    Xip.wordOps.fill dst value size shm =
      moveWords (dst % 4 = 0) dst (List.replicate size value) shm := by
  have hload : ∀ i, 4 * i + 4 ≤ (List.replicate size value).length →
      (some (List.replicate 4 value) : Option (List UInt8)) =
        if True then some (((List.replicate size value).drop (4 * i)).take 4) else none := by
    intro i hi
    rw [List.length_replicate] at hi
    rw [List.drop_replicate, List.take_replicate, Nat.min_eq_left (by omega), if_pos trivial]
  have hwords := wordLoop_eq hload (size / 4) 0 dst shm (by rw [List.length_replicate]; omega)
  show wordLoop (fun _ => some (List.replicate 4 value)) (size >>> 2) 0 dst shm = _
  rw [Nat.shiftRight_eq_div_pow, hwords, moveWords, List.length_replicate]
  simp

/-- A copy by words is right exactly if the piece is moved whole. -/
theorem moveWords_iff (aligned : Prop) [Decidable aligned] (dst : Nat) (piece : List UInt8)
    (shm : Nat → UInt8) :
    (∃ shm', moveWords aligned dst piece shm = some shm' ∧ slice shm' dst piece.length = piece) ↔
      MovedWhole aligned dst piece shm := by
  unfold moveWords
  have hwords : piece.length / 4 = 0 ↔ ¬ 4 ≤ piece.length := by omega
  by_cases haligned : piece.length / 4 = 0 ∨ aligned
  · rw [if_pos haligned]
    constructor
    · rintro ⟨shm', heq, hslice⟩
      cases heq
      refine ⟨fun h4 => ?_, (slice_store_words_iff shm dst piece).mp hslice⟩
      cases haligned with
      | inl hzero => exact absurd h4 (hwords.mp hzero)
      | inr ha => exact ha
    · intro h
      exact ⟨_, rfl, (slice_store_words_iff shm dst piece).mpr h.dropped⟩
  · rw [if_neg haligned]
    refine iff_of_false (fun ⟨_, hnone, _⟩ => by cases hnone) fun h => haligned ?_
    by_cases h4 : 4 ≤ piece.length
    · exact Or.inr (h.aligned h4)
    · exact Or.inl (hwords.mpr h4)

/-- A copy by words changes nothing outside of the piece. -/
theorem moveWords_frame {aligned : Prop} [Decidable aligned] {dst : Nat} {piece : List UInt8}
    {shm shm' : Nat → UInt8} (h : moveWords aligned dst piece shm = some shm') (a : Nat)
    (ha : a < dst ∨ dst + piece.length ≤ a) : shm' a = shm a := by
  unfold moveWords at h
  split at h
  · cases h
    refine store_of_not_mem _ _ _ _ ?_
    rw [List.length_take]
    omega
  · cases h

/-! ## a frame -/

/-- What a frame leaves in the exchange memory. -/
def IpcTxOps.frameShm (ops : IpcTxOps) (q : List PcmData) (l : IpcTxLoop) :
    Option (Nat → UInt8) :=
  match ops.loop q l with
  | none => none
  | some l' => ops.fillRest l'

/-- What a frame is to be: the next bytes of the nodes, and zeros behind them. -/
def frameBytes (q : List PcmData) (needed : Nat) : List UInt8 :=
  (stream q).take needed ++ List.replicate (needed - (stream q).length) 0

theorem length_frameBytes (q : List PcmData) (needed : Nat) :
    (frameBytes q needed).length = needed := by
  simp [frameBytes]
  omega

theorem frameBytes_cons_of_lt {p : PcmData} (q : List PcmData) {needed : Nat}
    (h : needed < p.left) : frameBytes (p :: q) needed = p.rest.take needed := by
  have hsub : needed - (stream (p :: q)).length = 0 := by simp; omega
  rw [frameBytes, hsub, take_stream_of_lt q h]
  simp

theorem frameBytes_cons_of_le {p : PcmData} (q : List PcmData) {needed : Nat}
    (h : p.left ≤ needed) :
    frameBytes (p :: q) needed = p.rest ++ frameBytes q (needed - p.left) := by
  have hsub : needed - (stream (p :: q)).length = needed - p.left - (stream q).length := by
    simp; omega
  rw [frameBytes, frameBytes, hsub, take_stream_of_le q h, List.append_assoc]

theorem movedWhole_congr {shm shm' : Nat → UInt8} {spk : Nat}
    (h : ∀ a, spk ≤ a → shm a = shm' a) (aligned : Prop) (piece : List UInt8) :
    MovedWhole aligned spk piece shm ↔ MovedWhole aligned spk piece shm' := by
  have hslice : slice shm (spk + 4 * (piece.length / 4)) (piece.length % 4) =
      slice shm' (spk + 4 * (piece.length / 4)) (piece.length % 4) :=
    slice_eq_slice_iff.mpr fun i _ => h _ (by omega)
  exact ⟨fun hm => ⟨hm.aligned, hslice ▸ hm.dropped⟩,
    fun hm => ⟨hm.aligned, hslice ▸ hm.dropped⟩⟩

/-- The condition is about the buffer from `spk` on. -/
theorem frameMovedWhole_congr {shm shm' : Nat → UInt8} (q : List PcmData) {needed spk : Nat}
    (h : ∀ a, spk ≤ a → shm a = shm' a) :
    FrameMovedWhole shm q needed spk ↔ FrameMovedWhole shm' q needed spk := by
  induction q generalizing needed spk with
  | nil => exact movedWhole_congr h _ _
  | cons p q ih =>
      simp only [FrameMovedWhole]
      split
      · exact Iff.rfl
      · split
        · exact movedWhole_congr h _ _
        · rw [movedWhole_congr h, ih fun a ha => h a (by omega)]

/-! ## the pieces of a frame -/

/-- A list that is used up: the rest of the frame is filled. -/
theorem frameShm_nil (ops : IpcTxOps) (l : IpcTxLoop) :
    ops.frameShm [] l = if l.neededLength ≠ 0 then ops.fill l.spk 0 l.neededLength l.shm
      else some l.shm := rfl

/-- A full frame: nothing is done. -/
theorem frameShm_full (ops : IpcTxOps) (q : List PcmData) {l : IpcTxLoop}
    (h : l.neededLength = 0) : ops.frameShm q l = some l.shm := by
  simp [IpcTxOps.frameShm, loop_full ops q h, IpcTxOps.fillRest, h]

/-- A node with more than is needed: one copy completes the frame. -/
theorem frameShm_lt (ops : IpcTxOps) {p : PcmData} (q : List PcmData) {l : IpcTxLoop}
    (hzero : l.neededLength ≠ 0) (h : l.neededLength < p.left) :
    ops.frameShm (p :: q) l = ops.copy l.spk p.data p.offset l.neededLength l.shm := by
  rw [IpcTxOps.frameShm, loop_lt ops q hzero h]
  cases ops.copy l.spk p.data p.offset l.neededLength l.shm with
  | none => rfl
  | some shm => rfl

theorem frameShm_le (ops : IpcTxOps) {p : PcmData} (q : List PcmData) {l : IpcTxLoop}
    (hzero : l.neededLength ≠ 0) (h : ¬ l.neededLength < p.left) :
    ops.frameShm (p :: q) l = (ops.copy l.spk p.data p.offset p.left l.shm).bind fun shm =>
      ops.frameShm q (l.after p shm) := by
  rw [IpcTxOps.frameShm, loop_le ops q hzero h]
  cases ops.copy l.spk p.data p.offset p.left l.shm with
  | none => rfl
  | some shm => rfl

/-- `memcpy` and `memset` write the frame as it is to be. -/
theorem memOps_frameShm (q : List PcmData) (l : IpcTxLoop) :
    memOps.frameShm q l = some (store l.shm l.spk (frameBytes q l.neededLength)) := by
  induction q generalizing l with
  | nil =>
      by_cases hzero : l.neededLength = 0
      · simp [frameShm_full _ _ hzero, hzero, frameBytes]
      · simp [frameShm_nil, hzero, memOps, frameBytes]
  | cons p q ih =>
      by_cases hzero : l.neededLength = 0
      · simp [frameShm_full _ _ hzero, hzero, frameBytes]
      by_cases hlt : l.neededLength < p.left
      · rw [frameShm_lt _ _ hzero hlt, memOps_copy _ _ _ _ (Nat.le_of_lt hlt),
          frameBytes_cons_of_lt q hlt]
      · have hcopy := memOps_copy l.spk p p.left l.shm le_rfl
        rw [List.take_of_length_le (by simp)] at hcopy
        have hstore := store_store_append l.shm l.spk p.rest
          (frameBytes q (l.neededLength - p.left))
        rw [Chunk.length_rest] at hstore
        rw [frameShm_le _ _ hzero hlt, hcopy, Option.bind_some, ih,
          frameBytes_cons_of_le q (Nat.not_lt.mp hlt), ← hstore]
        rfl

/-- A frame of word copies writes at `spk` and behind. -/
theorem wordOps_frameShm_frame (q : List PcmData) {l : IpcTxLoop} {shm : Nat → UInt8}
    (h : Xip.wordOps.frameShm q l = some shm) (a : Nat) (ha : a < l.spk) : shm a = l.shm a := by
  induction q generalizing l with
  | nil =>
      rw [frameShm_nil] at h
      split at h
      · rw [wordOps_fill] at h
        exact moveWords_frame h a (Or.inl ha)
      · cases h
        rfl
  | cons p q ih =>
      by_cases hzero : l.neededLength = 0
      · rw [frameShm_full _ _ hzero] at h
        cases h
        rfl
      by_cases hlt : l.neededLength < p.left
      · rw [frameShm_lt _ _ hzero hlt, wordOps_copy _ _ _ _ (Nat.le_of_lt hlt)] at h
        exact moveWords_frame h a (Or.inl ha)
      · rw [frameShm_le _ _ hzero hlt, wordOps_copy _ _ _ _ le_rfl] at h
        obtain ⟨shm1, hcopy, hrest⟩ := Option.bind_eq_some_iff.mp h
        have hafter : a < (l.after p shm1).spk := Nat.lt_add_right _ ha
        rw [ih hrest hafter]
        exact moveWords_frame hcopy a (Or.inl ha)

/-- What the node in front has left stays as it is. -/
theorem wordOps_frameShm_front {p : PcmData} {q : List PcmData} {l : IpcTxLoop}
    {shm shm1 : Nat → UInt8} (h : Xip.wordOps.frameShm q (l.after p shm1) = some shm) :
    slice shm l.spk p.left = slice shm1 l.spk p.left :=
  slice_eq_slice_iff.mpr fun _ hi => wordOps_frameShm_frame q h _ (Nat.add_lt_add_left hi _)

/-- A frame of word copies is as it is to be exactly if its pieces are moved whole. -/
theorem wordOps_frameShm_iff (q : List PcmData) (l : IpcTxLoop) :
    (∃ shm, Xip.wordOps.frameShm q l = some shm ∧
        slice shm l.spk l.neededLength = frameBytes q l.neededLength) ↔
      FrameMovedWhole l.shm q l.neededLength l.spk := by
  induction q generalizing l with
  | nil =>
      have hbytes : frameBytes [] l.neededLength = List.replicate l.neededLength 0 := by
        simp [frameBytes]
      have hfill : Xip.wordOps.frameShm [] l =
          moveWords (l.spk % 4 = 0) l.spk (List.replicate l.neededLength 0) l.shm := by
        by_cases hzero : l.neededLength = 0
        · simp [frameShm_full _ _ hzero, hzero, moveWords]
        · rw [frameShm_nil, if_pos hzero, wordOps_fill]
      have hiff := moveWords_iff (l.spk % 4 = 0) l.spk
        (List.replicate l.neededLength 0) l.shm
      rw [List.length_replicate] at hiff
      rw [hbytes, hfill, hiff]
      rfl
  | cons p q ih =>
      by_cases hzero : l.neededLength = 0
      · simp [FrameMovedWhole, frameShm_full _ _ hzero, hzero, frameBytes]
      by_cases hlt : l.neededLength < p.left
      · -- the last piece of the frame
        have hlen : (p.rest.take l.neededLength).length = l.neededLength := by simp; omega
        have hiff := moveWords_iff (p.offset % 4 = 0 ∧ l.spk % 4 = 0) l.spk
          (p.rest.take l.neededLength) l.shm
        rw [hlen] at hiff
        rw [frameShm_lt _ _ hzero hlt, wordOps_copy _ _ _ _ (Nat.le_of_lt hlt),
          frameBytes_cons_of_lt q hlt, hiff, FrameMovedWhole, if_neg hzero, if_pos hlt]
      · -- a node to its end, and the pieces behind it
        have hle : p.left ≤ l.neededLength := Nat.not_lt.mp hlt
        have hsplit : ∀ shm : Nat → UInt8, slice shm l.spk l.neededLength =
            slice shm l.spk p.left ++ slice shm (l.spk + p.left) (l.neededLength - p.left) := by
          intro shm
          rw [← slice_add, Nat.add_sub_cancel' hle]
        have hcopy := wordOps_copy l.spk p p.left l.shm le_rfl
        rw [List.take_of_length_le (by simp)] at hcopy
        have hiff := moveWords_iff (p.offset % 4 = 0 ∧ l.spk % 4 = 0) l.spk p.rest l.shm
        rw [Chunk.length_rest] at hiff
        rw [FrameMovedWhole, if_neg hzero, if_neg hlt, ← hiff, frameShm_le _ _ hzero hlt, hcopy,
          frameBytes_cons_of_le q hle]
        -- behind the node the buffer is what it was
        have hbehind : ∀ shm1, moveWords (p.offset % 4 = 0 ∧ l.spk % 4 = 0) l.spk p.rest l.shm =
            some shm1 → (FrameMovedWhole shm1 q (l.neededLength - p.left) (l.spk + p.left) ↔
              FrameMovedWhole l.shm q (l.neededLength - p.left) (l.spk + p.left)) := by
          intro shm1 hshm1
          refine frameMovedWhole_congr q fun a ha => moveWords_frame hshm1 a (Or.inr ?_)
          rw [Chunk.length_rest]
          exact ha
        constructor
        · rintro ⟨shm, hframe, hslice⟩
          obtain ⟨shm1, hshm1, hrest⟩ := Option.bind_eq_some_iff.mp hframe
          rw [hsplit] at hslice
          obtain ⟨hnode, htail⟩ := List.append_inj hslice (by simp)
          refine ⟨⟨shm1, hshm1, (wordOps_frameShm_front hrest).symm.trans hnode⟩, ?_⟩
          exact (hbehind shm1 hshm1).mp ((ih (l.after p shm1)).mp ⟨shm, hrest, htail⟩)
        · rintro ⟨⟨shm1, hshm1, hnode⟩, hcond⟩
          obtain ⟨shm, hrest, htail⟩ :=
            (ih (l.after p shm1)).mpr ((hbehind shm1 hshm1).mpr hcond)
          refine ⟨shm, by rw [hshm1]; exact hrest, ?_⟩
          rw [hsplit, wordOps_frameShm_front hrest, hnode]
          exact congrArg _ htail

/-! ## the interrupt handlers -/

/-- What the loop does to its other variables does not depend on the copies. -/
theorem loop_same {ops ops' : IpcTxOps} {q : List PcmData} {l r r' : IpcTxLoop}
    {shm : Nat → UInt8} (h : ops.loop q l = some r)
    (h' : ops'.loop q { l with shm := shm } = some r') : ∃ shm', r' = { r with shm := shm' } := by
  induction q generalizing l shm with
  | nil =>
      cases h
      cases h'
      exact ⟨shm, rfl⟩
  | cons p q ih =>
      by_cases hzero : l.neededLength = 0
      · rw [loop_full _ _ hzero] at h
        rw [loop_full _ _ (by simpa using hzero)] at h'
        cases h
        cases h'
        exact ⟨shm, rfl⟩
      by_cases hlt : l.neededLength < p.left
      · rw [loop_lt _ _ hzero hlt] at h
        rw [loop_lt _ _ (by simpa using hzero) (by simpa using hlt)] at h'
        obtain ⟨shm1, -, rfl⟩ := Option.map_eq_some_iff.mp h
        obtain ⟨shm1', -, rfl⟩ := Option.map_eq_some_iff.mp h'
        exact ⟨shm1', rfl⟩
      · rw [loop_le _ _ hzero hlt] at h
        rw [loop_le _ _ (by simpa using hzero) (by simpa using hlt)] at h'
        obtain ⟨shm1, -, hrest⟩ := Option.bind_eq_some_iff.mp h
        obtain ⟨shm1', -, hrest'⟩ := Option.bind_eq_some_iff.mp h'
        exact ih hrest hrest'

/-- The interrupt handler returns when its frame is complete, with the list and the byte
count of the loop. -/
theorem ipcTx_eq_some {ops : IpcTxOps} {thd : UInt32} {tog : Nat} {s : Playback}
    {w : Playback × List DecoderTask} (h : ops.ipcTx thd tog s = some w) :
    ∃ l, ops.loop s.pcmDataList (s.ipcTxEntry tog) = some l ∧
      ops.frameShm s.pcmDataList (s.ipcTxEntry tog) = some w.1.shm ∧
      w.1.pcmDataList = l.pcmDataList ∧ w.1.pcmSizeInList = l.pcmSizeInList := by
  unfold IpcTxOps.ipcTx at h
  split at h
  · cases h
  · next l hloop =>
      split at h
      · cases h
      · next shm hfill =>
          have hframe : ops.frameShm s.pcmDataList (s.ipcTxEntry tog) = some shm := by
            rw [IpcTxOps.frameShm, hloop]
            exact hfill
          cases h
          unfold Playback.ipcTxEnd
          refine ⟨l, hloop, ?_⟩
          split
          · exact ⟨hframe, rfl, rfl⟩
          · exact ⟨hframe, rfl, rfl⟩

theorem ipcTx_of_frameShm {ops : IpcTxOps} (thd : UInt32) {tog : Nat} {s : Playback}
    {shm : Nat → UInt8} (h : ops.frameShm s.pcmDataList (s.ipcTxEntry tog) = some shm) :
    ∃ w, ops.ipcTx thd tog s = some w := by
  unfold IpcTxOps.frameShm at h
  split at h
  · cases h
  · next l hloop =>
      unfold IpcTxOps.ipcTx
      rw [hloop]
      simp only [h]
      exact ⟨_, rfl⟩

/-- The two interrupt handlers agree exactly if the frame of word copies is as it is
to be. -/
theorem ipcTxAgree_iff_frame (tog : Nat) (s : Playback) :
    IpcTxAgree tog s ↔ ∃ shm, Xip.wordOps.frameShm s.pcmDataList (s.ipcTxEntry tog) = some shm ∧
      slice shm (ipcTxSpk tog) nativePlaybackSingleFrame =
        frameBytes s.pcmDataList nativePlaybackSingleFrame := by
  have hmem := memOps_frameShm s.pcmDataList (s.ipcTxEntry tog)
  have hself := slice_store_self s.shm (ipcTxSpk tog)
    (frameBytes s.pcmDataList nativePlaybackSingleFrame)
  rw [length_frameBytes] at hself
  constructor
  · rintro ⟨w, p, hw, hp, hslice, -, -⟩
    obtain ⟨-, -, hwshm, -⟩ := ipcTx_eq_some hw
    obtain ⟨-, -, hpshm, -⟩ := ipcTx_eq_some hp
    rw [Option.some.inj (hpshm.symm.trans hmem)] at hslice
    exact ⟨w.1.shm, hwshm, hslice.trans hself⟩
  · rintro ⟨shm, hshm, hslice⟩
    obtain ⟨w, hw⟩ := ipcTx_of_frameShm Xip.nativePlaybackDecoderThd hshm
    obtain ⟨p, hp⟩ := ipcTx_of_frameShm nativePlaybackDecoderThd hmem
    obtain ⟨lw, hlw, hwshm, hwlist, hwsize⟩ := ipcTx_eq_some hw
    obtain ⟨lp, hlp, hpshm, hplist, hpsize⟩ := ipcTx_eq_some hp
    obtain ⟨shm', rfl⟩ := loop_same hlw hlp
    refine ⟨w, p, hw, hp, ?_, ?_, ?_⟩
    · rw [Option.some.inj (hwshm.symm.trans hshm), Option.some.inj (hpshm.symm.trans hmem)]
      exact hslice.trans hself.symm
    · rw [hwlist, hplist]
    · rw [hwsize, hpsize]

/-- The two interrupt handlers agree exactly if every piece of the frame is moved
whole. -/
theorem word_copy_agrees_iff (tog : Nat) (s : Playback) :
    IpcTxAgree tog s ↔
      FrameMovedWhole s.shm s.pcmDataList nativePlaybackSingleFrame (ipcTxSpk tog) :=
  (ipcTxAgree_iff_frame tog s).trans
    (wordOps_frameShm_iff s.pcmDataList (s.ipcTxEntry tog))

/-- A node of 510 bytes: the last two stay what they were in the DMA buffer. -/
theorem word_copy_drops_bytes :
    ¬ IpcTxAgree 0 { Playback.zeroed with
      pcmDataList := [.fresh ⟨0, 1⟩ (List.replicate 510 1)], pcmSizeInList := 510 } := by
  obtain ⟨s, hs⟩ : ∃ s : Playback, s = { Playback.zeroed with
    pcmDataList := [.fresh ⟨0, 1⟩ (List.replicate 510 1)], pcmSizeInList := 510 } := ⟨_, rfl⟩
  rw [← hs]
  intro h
  have hframe : FrameMovedWhole s.shm s.pcmDataList nativePlaybackSingleFrame (ipcTxSpk 0) :=
    ((ipcTxAgree_iff_frame 0 s).trans (wordOps_frameShm_iff _ (s.ipcTxEntry 0))).mp h
  have hlist : s.pcmDataList = [.fresh ⟨0, 1⟩ (List.replicate 510 1)] := by rw [hs]
  have hshm : s.shm = fun _ => 0 := by rw [hs]; rfl
  have hleft : ¬ nativePlaybackSingleFrame <
      (Chunk.fresh (PcmBlocks.mk 0 1) (List.replicate 510 (1 : UInt8))).left := by
    rw [Chunk.left_fresh, List.length_replicate]
    decide
  rw [hlist, hshm, FrameMovedWhole, if_neg (by decide), if_neg hleft] at hframe
  have hdropped := hframe.1.dropped
  rw [Chunk.rest_fresh, List.length_replicate, List.drop_replicate] at hdropped
  exact absurd hdropped (by decide)

/-- Pieces of whole words are moved whole. -/
theorem movedWhole_of_dvd {aligned : Prop} {dst : Nat} {piece : List UInt8} {shm : Nat → UInt8}
    (ha : aligned) (h : 4 ∣ piece.length) : MovedWhole aligned dst piece shm := by
  have hmod : piece.length % 4 = 0 := Nat.mod_eq_zero_of_dvd h
  refine ⟨fun _ => ha, ?_⟩
  rw [hmod, slice_zero, Nat.mul_div_cancel' h, List.drop_length]

/-- Nodes that start and end at whole words make frames of whole words. -/
theorem frameMovedWhole_of_dvd {q : List PcmData} (hq : ∀ p ∈ q, 4 ∣ p.offset ∧ 4 ∣ p.data.length)
    {shm : Nat → UInt8} {needed spk : Nat} (hneeded : 4 ∣ needed) (hspk : 4 ∣ spk) :
    FrameMovedWhole shm q needed spk := by
  induction q generalizing needed spk with
  | nil => exact movedWhole_of_dvd (Nat.mod_eq_zero_of_dvd hspk) (by simpa using hneeded)
  | cons p q ih =>
      obtain ⟨hoffset, hlength⟩ := hq p List.mem_cons_self
      have haligned : p.offset % 4 = 0 ∧ spk % 4 = 0 :=
        ⟨Nat.mod_eq_zero_of_dvd hoffset, Nat.mod_eq_zero_of_dvd hspk⟩
      have hleft : 4 ∣ p.left := by
        unfold Chunk.left
        omega
      simp only [FrameMovedWhole]
      split
      · trivial
      · split
        · next hlt =>
            have hlen : (p.rest.take needed).length = needed := by simp; omega
            exact movedWhole_of_dvd haligned (by rw [hlen]; exact hneeded)
        · refine ⟨movedWhole_of_dvd haligned (by simpa using hleft), ih ?_ ?_ ?_⟩
          · exact fun p' hp' => hq p' (List.mem_cons_of_mem p hp')
          · omega
          · omega

/-- PCM data in whole words is played as by `memcpy` and `memset`. -/
theorem ipcTxAgree_of_dvd {tog : Nat} {s : Playback}
    (h : ∀ p ∈ s.pcmDataList, 4 ∣ p.offset ∧ 4 ∣ p.data.length) : IpcTxAgree tog s := by
  have hspk : 4 ∣ ipcTxSpk tog := by
    unfold ipcTxSpk
    split <;> decide
  have hframe : FrameMovedWhole s.shm s.pcmDataList nativePlaybackSingleFrame (ipcTxSpk tog) :=
    frameMovedWhole_of_dvd h (by decide) hspk
  exact (ipcTxAgree_iff_frame tog s).mpr
    ((wordOps_frameShm_iff _ (s.ipcTxEntry tog)).mpr hframe)

end Fr5080
