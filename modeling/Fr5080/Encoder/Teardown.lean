import Fr5080.Encoder.Queue

/-!
# Fr5080.Encoder.Teardown

The end of a session of the mSBC encoder.  `msbc_encoder_destroy` frees the queued frames in a
critical section, then the memory of the codec, and clears
`msbc_encoder_ready` last; the DMA interrupt stays enabled.  An interrupt in between finds the
encoder ready.

It does no harm as long as the blocks it uses are still there and it queues no
frame (`RxHarmless`): either no block is freed yet and the codec puts out nothing,
or the samples only fill up the staging buffer, and that is not yet freed.
-/

namespace Fr5080

open Embedded

/-! ## the memory of the codec -/

/-- The blocks of a frame are freed. -/
def EncodedFrame.Freed (frame : EncodedFrame) (heap : Heap) : Prop :=
  ∀ b ∈ frame.blocks, b ∉ heap.live

/-- No frame is left, and those ever queued are freed. -/
def MsbcReturn.Clean (r : MsbcReturn) : Prop := r.frames = [] ∧ ∀ f ∈ r.queued, f.Freed r.heap

/-- The memory of the codec was allocated whenever it was used. -/
def MsbcEncoder.UsesAllocated (s : MsbcEncoder) : Prop := ∀ u ∈ s.uses, u.2.Allocated u.1

/-- The blocks of the codec differ, the first one is the API object, and there is one for
the input and one for the output. -/
structure MsbcEncoder.Loaded (s : MsbcEncoder) : Prop where
  nodup : s.gPvArrAllocMemory.Nodup
  handle : s.gPvArrAllocMemory.head? = some s.xaProcessHandle
  inp : s.pbInpBuf ∈ s.gPvArrAllocMemory
  out : s.pbOutBuf ∈ s.gPvArrAllocMemory

/-- The frames that were ever queued. -/
def EncodedQueue.queued (q : EncodedQueue) : List EncodedFrame := DropQueue.puts q.ops

/-- The frames ever queued have blocks of their own, none of them in the table `arr` of the codec.
Those of a frame that has left the list are freed, apart from the blocks `kept` by the task. -/
structure FramesInv (kept : List Nat) (arr : List (Option Nat)) (q : EncodedQueue)
    (heap : Heap) : Prop where
  issued : ∀ p ∈ arr, heap.Issued p
  queued : ∀ f ∈ q.frameList, f ∈ q.queued
  number : ∀ f ∈ q.queued, ∀ b ∈ f.blocks, b < heap.next
  apart : ∀ f ∈ q.queued, ∀ b ∈ f.blocks, some b ∉ arr
  taken : ∀ b ∈ kept, some b ∉ arr
  freed : ∀ f ∈ q.queued, f ∉ q.frameList → ∀ b ∈ f.blocks, b ∈ kept ∨ b ∉ heap.live

/-- The memory of the codec is there, and so it was for all uses. -/
structure MemInv (kept : List Nat) (s : MsbcEncoder) : Prop where
  frames : FramesInv kept s.gPvArrAllocMemory s.encoded s.heap
  loaded : s.Loaded
  allocated : ∀ p ∈ s.gPvArrAllocMemory, s.heap.Allocated p
  uses : s.UsesAllocated

variable {s s' : MsbcEncoder} {kept : List Nat} {frame f : EncodedFrame} {heap : Heap}
  {q q' : EncodedQueue} {arr : List (Option Nat)}

/-- Freeing allocates nothing. -/
theorem not_mem_live_free {b : Nat} (h : b ∉ heap.live) (p : Option Nat) :
    b ∉ (heap.free p).live := by
  simp_all [Heap.free]

/-- A frame that is freed is freed as a whole. -/
theorem EncodedFrame.freed_free : frame.Freed (frame.free heap) := by
  simp [EncodedFrame.Freed, EncodedFrame.blocks, EncodedFrame.free, Heap.free]

/-- A block of the past is not allocated again. -/
theorem not_mem_live_malloc {b : Nat} (h : b ∉ heap.live) (hb : b < heap.next) :
    b ∉ (heap.malloc true).2.live := by
  simp only [Heap.malloc, if_true]
  grind

@[simp]
theorem queued_pushBack : (q.pushBack frame).queued = q.queued ++ [frame] := by
  simp [EncodedQueue.queued, EncodedQueue.pushBack, DropQueue.puts]

theorem frameList_pushBack : (q.pushBack frame).frameList = q.frameList ++ [frame] := rfl

/-- The first frame is taken from the list. -/
theorem popFront_eq_some (h : q.popFront = some (frame, q')) :
    q.frameList = frame :: q'.frameList ∧ q'.queued = q.queued := by
  unfold EncodedQueue.popFront at h
  split at h
  · cases h
  · next hlist =>
      cases h
      exact ⟨hlist, rfl⟩

/-! ## the frames -/

/-- Whatever is freed. -/
theorem FramesInv.free (h : FramesInv kept arr q heap) (p : Option Nat) :
    FramesInv kept arr q (heap.free p) := by
  obtain ⟨hissued, hqueued, hnumber, hapart, hkept, hfreed⟩ := h
  exact ⟨hissued, hqueued, hnumber, hapart, hkept, fun f hf hnot b hb =>
    (hfreed f hf hnot b hb).imp_right fun hlive => not_mem_live_free hlive p⟩

/-- The oldest frame is freed. -/
theorem FramesInv.dropOldest (h : FramesInv kept arr q heap)
    (hpop : q.popFront = some (frame, q')) : FramesInv kept arr q' (frame.free heap) := by
  obtain ⟨hissued, hqueued, hnumber, hapart, hkept, hfreed⟩ := h
  obtain ⟨hlist, heq⟩ := popFront_eq_some hpop
  rw [hlist] at hqueued hfreed
  refine ⟨hissued, ?_, ?_, ?_, hkept, ?_⟩
  · rw [heq]
    exact fun f hf => hqueued f (List.mem_cons_of_mem frame hf)
  · rwa [heq]
  · rwa [heq]
  · rw [heq]
    intro f hf hnot b hb
    by_cases hsame : f = frame
    · subst hsame
      exact Or.inr (EncodedFrame.freed_free b hb)
    · refine (hfreed f hf (by simp_all) b hb).imp_right fun hlive => ?_
      exact not_mem_live_free (not_mem_live_free hlive _) _

/-- A frame is allocated and queued. -/
theorem FramesInv.pushFrame (h : FramesInv kept arr q heap) (out : List UInt8) :
    FramesInv kept arr (q.pushBack ⟨heap.next, (heap.malloc true).2.next, out⟩)
      ((heap.malloc true).2.malloc true).2 := by
  obtain ⟨hissued, hqueued, hnumber, hapart, hkept, hfreed⟩ := h
  have hnode : some heap.next ∉ arr := fun hmem => absurd (hissued _ hmem _ rfl) (Nat.lt_irrefl _)
  have hdata : some (heap.malloc true).2.next ∉ arr := fun hmem =>
    absurd ((hissued _ hmem).malloc _ rfl) (Nat.lt_irrefl _)
  refine ⟨fun p hp => (hissued p hp).malloc.malloc, ?_, ?_, ?_, hkept, ?_⟩
  · rw [queued_pushBack, frameList_pushBack]
    grind
  · rw [queued_pushBack]
    simp only [Heap.malloc, if_true, EncodedFrame.blocks] at hnumber ⊢
    grind
  · rw [queued_pushBack]
    simp only [EncodedFrame.blocks] at hapart ⊢
    grind
  · rw [queued_pushBack, frameList_pushBack]
    intro f hf hnot b hb
    have hmem : f ∈ q.queued := by grind
    have hlt := hnumber f hmem b hb
    refine (hfreed f hmem (by grind) b hb).imp_right fun hlive => ?_
    exact not_mem_live_malloc (not_mem_live_malloc hlive hlt) (Nat.lt_succ_of_lt hlt)

/-! ## the interrupt, with the memory there -/

/-- One more use of an allocated block. -/
theorem MsbcEncoder.UsesAllocated.use (h : s.UsesAllocated) {p : Option Nat}
    (hp : s.heap.Allocated p) : (s.use p).UsesAllocated := by
  intro u hu
  cases List.mem_append.mp hu with
  | inl hold => exact h u hold
  | inr hnew => rw [List.mem_singleton.mp hnew]; exact hp

/-- The handle is one of the blocks of the codec. -/
theorem MsbcEncoder.Loaded.mem_handle (h : s.Loaded) : s.xaProcessHandle ∈ s.gPvArrAllocMemory :=
  List.mem_of_mem_head? h.handle

/-- What a loaded codec depends on. -/
theorem MsbcEncoder.Loaded.congr (h : s.Loaded) (harr : s'.gPvArrAllocMemory = s.gPvArrAllocMemory)
    (hhandle : s'.xaProcessHandle = s.xaProcessHandle) (hinp : s'.pbInpBuf = s.pbInpBuf)
    (hout : s'.pbOutBuf = s.pbOutBuf) : s'.Loaded := by
  obtain ⟨h1, h2, h3, h4⟩ := h
  constructor <;> simpa only [harr, hhandle, hinp, hout]

theorem MemInv.use (h : MemInv kept s) {p : Option Nat} (hp : p ∈ s.gPvArrAllocMemory) :
    MemInv kept (s.use p) :=
  ⟨h.frames, h.loaded.congr rfl rfl rfl rfl, h.allocated, h.uses.use (h.allocated p hp)⟩

/-- Dropping a frame keeps the blocks in order. -/
theorem MemInv.dropOldest (h : MemInv kept s) (hdrop : s.dropOldest = some s') :
    MemInv kept s' := by
  unfold MsbcEncoder.dropOldest at hdrop
  split at hdrop
  · cases hdrop
  next frame q hpop =>
  cases hdrop
  obtain ⟨hlist, -⟩ := popFront_eq_some hpop
  have hapart := h.frames.apart frame (h.frames.queued frame (by simp [hlist]))
  refine ⟨h.frames.dropOldest hpop, h.loaded.congr rfl rfl rfl rfl, fun p hp => ?_, h.uses⟩
  have halloc := h.allocated p hp
  simp only [EncodedFrame.blocks] at hapart
  simp only [EncodedFrame.free, Heap.allocated_free]
  grind

/-- Queueing a frame keeps them in order. -/
theorem MemInv.pushFrame (h : MemInv kept s) {out : List UInt8} {fits : Bool}
    (hpush : s.pushFrame out fits = some s') : MemInv kept s' := by
  have halloc : ∀ p ∈ s.gPvArrAllocMemory,
      ((s.heap.malloc true).2.malloc true).2.Allocated p := by
    intro p hp
    have hissued := h.frames.issued p hp
    rw [Heap.allocated_malloc_iff hissued.malloc, Heap.allocated_malloc_iff hissued]
    exact h.allocated p hp
  unfold MsbcEncoder.pushFrame at hpush
  split at hpush
  · cases hpush
    refine ⟨h.frames.pushFrame out, h.loaded.congr rfl rfl rfl rfl, halloc, ?_⟩
    have huses : MsbcEncoder.UsesAllocated
        { s with heap := ((s.heap.malloc true).2.malloc true).2 } := h.uses
    exact huses.use (halloc _ h.loaded.out)
  · cases hpush

/-- The codec puts out no frame. -/
def MsbcAnswer.NoFrame : MsbcAnswer → Prop
  | .start _ _ => True
  | .encode out _ _ => out = []

instance (a : MsbcAnswer) : Decidable a.NoFrame :=
  match a with
  | .start _ _ => .isTrue trivial
  | .encode out _ _ => inferInstanceAs (Decidable (out = []))

/-- What the interrupt leaves alone, and what it leaves alone when the codec puts out no frame. -/
structure RxFrame (quiet : Prop) (s s' : MsbcEncoder) : Prop where
  ready : s'.ready = s.ready
  returns : s'.returns = s.returns
  uses : s.uses <+: s'.uses
  encoded : quiet → s'.encoded = s.encoded

/-- Staging uses the input buffer or nothing. -/
theorem MsbcEncoder.stage_eq (n : Nat) (s : MsbcEncoder) :
    s.stage n = s ∨ s.stage n = s.use s.pbInpBuf := by
  unfold stage
  split
  · exact Or.inl rfl
  · exact Or.inr rfl

/-- What storing a frame leaves alone. -/
theorem storeFrame_frame {out : List UInt8} {fits : Bool}
    (h : s.storeFrame out fits = some s') : RxFrame (out = []) s s' := by
  have hpush : ∀ {s1 s2 : MsbcEncoder}, s1.pushFrame out fits = some s2 → s2.ready = s1.ready ∧
      s2.returns = s1.returns ∧ s1.uses <+: s2.uses := by
    intro s1 s2 h1
    unfold MsbcEncoder.pushFrame at h1
    split at h1
    · cases h1
      exact ⟨rfl, rfl, List.prefix_append _ _⟩
    · cases h1
  unfold MsbcEncoder.storeFrame at h
  split at h
  · cases h
    exact ⟨rfl, rfl, List.prefix_rfl, fun _ => rfl⟩
  next hout =>
  split at h
  · split at h
    · next s1 hdrop =>
        obtain ⟨hready, hreturns, huses⟩ := hpush h
        unfold MsbcEncoder.dropOldest at hdrop
        split at hdrop
        · cases hdrop
        · cases hdrop
          exact ⟨hready, hreturns, huses, fun hnil => absurd hnil hout⟩
    · cases h
  · obtain ⟨hready, hreturns, huses⟩ := hpush h
    exact ⟨hready, hreturns, huses, fun hnil => absurd hnil hout⟩

/-- What one call of the codec leaves alone. -/
theorem engine_frame {a : MsbcAnswer} (h : s.engine a = some s') : RxFrame a.NoFrame s s' := by
  cases a with
  | start uiInitDone consumed =>
      simp only [MsbcEncoder.engine] at h
      split at h
      · cases h
        exact ⟨rfl, rfl, List.prefix_append _ _, fun _ => rfl⟩
      · cases h
  | encode out fits consumed =>
      simp only [MsbcEncoder.engine] at h
      split at h
      · split at h
        · next s1 hstore =>
            cases h
            obtain ⟨h1, h2, h3, h4⟩ := storeFrame_frame hstore
            exact ⟨h1, h2, (List.prefix_append _ _).trans h3, h4⟩
        · cases h
      · cases h

/-- A call of the codec. -/
theorem MemInv.engine (h : MemInv kept s) {a : MsbcAnswer} (hengine : s.engine a = some s') :
    MemInv kept s' := by
  have huse := h.use h.loaded.mem_handle
  cases a with
  | start uiInitDone consumed =>
      simp only [MsbcEncoder.engine] at hengine
      split at hengine
      · cases hengine
        exact ⟨huse.frames, huse.loaded.congr rfl rfl rfl rfl, huse.allocated, huse.uses⟩
      · cases hengine
  | encode out fits consumed =>
      simp only [MsbcEncoder.engine, MsbcEncoder.storeFrame] at hengine
      split at hengine
      · split at hengine
        · next s1 hstore =>
            have hkeep : MemInv kept s1 := by
              split at hstore
              · cases hstore
                exact huse
              · split at hstore
                · split at hstore
                  · next s2 hdrop => exact (huse.dropOldest hdrop).pushFrame hstore
                  · cases hstore
                · exact huse.pushFrame hstore
            cases hengine
            exact ⟨hkeep.frames, hkeep.loaded.congr rfl rfl rfl rfl, hkeep.allocated, hkeep.uses⟩
        · cases hengine
      · cases hengine

/-- What two parts of the reception leave alone. -/
theorem RxFrame.trans {quiet quiet' : Prop} {s1 s2 : MsbcEncoder} (h : RxFrame quiet s s1)
    (h' : RxFrame quiet' s1 s2) (himp : quiet → quiet') : RxFrame quiet s s2 :=
  ⟨h'.ready.trans h.ready, h'.returns.trans h.returns, h.uses.trans h'.uses,
    fun hq => (h'.encoded (himp hq)).trans (h.encoded hq)⟩

/-- The interrupt leaves alone what is not its own. -/
theorem recvLoop_frame {answers : List MsbcAnswer} {length : Nat}
    (h : s.recvLoop length answers = some s') :
    RxFrame (∀ a ∈ answers, a.NoFrame) s s' := by
  refine MsbcEncoder.recvLoop_inv (P := fun a => (∀ a ∈ answers, a.NoFrame) → a.NoFrame)
    (I := fun s1 => RxFrame (∀ a ∈ answers, a.NoFrame) s s1) ?_ ?_ ?_ ?_
    (fun a ha hall => hall a ha) ⟨rfl, rfl, List.prefix_rfl, fun _ => rfl⟩ h
  · intro s1 n h1
    obtain heq | heq := s1.stage_eq n
    · rwa [heq]
    · rw [heq]
      exact h1.trans ⟨rfl, rfl, List.prefix_append _ _, fun _ => rfl⟩ id
  · exact fun s1 n h1 => ⟨h1.ready, h1.returns, h1.uses, h1.encoded⟩
  · exact fun s1 n h1 => ⟨h1.ready, h1.returns, h1.uses, h1.encoded⟩
  · exact fun s1 a s2 himp h1 hengine => h1.trans (engine_frame hengine) himp

/-- The interrupt while the memory of the codec is there. -/
theorem MemInv.recvLoop (h : MemInv kept s) {answers : List MsbcAnswer} {length : Nat}
    (hloop : s.recvLoop length answers = some s') : MemInv kept s' := by
  refine MsbcEncoder.recvLoop_inv (P := fun _ => True) (I := MemInv kept) ?_ ?_ ?_ ?_
    (fun _ _ => trivial) h hloop
  · intro s n h
    obtain heq | heq := s.stage_eq n
    · rwa [heq]
    · rw [heq]
      exact h.use h.loaded.inp
  · exact fun s n h => ⟨h.frames, h.loaded.congr rfl rfl rfl rfl, h.allocated, h.uses⟩
  · exact fun s n h => ⟨h.frames, h.loaded.congr rfl rfl rfl rfl, h.allocated, h.uses⟩
  · exact fun s a s' _ h hengine => h.engine hengine

/-! ## the interrupt, whatever is there -/

/-- Without a call of the codec the samples go to the staging buffer. -/
theorem inp_used {length : Nat} (hlength : 0 < length) (h : s.recvLoop length [] = some s') :
    length < s.lastSpace ∧ s'.uses = s.uses ++ [(s.pbInpBuf, s.heap)] := by
  have hne : length ≠ 0 := Nat.ne_of_gt hlength
  simp only [MsbcEncoder.recvLoop, hne, if_false] at h
  split at h
  · cases h
  · next hspace =>
      cases h
      simp [MsbcEncoder.stage, hne, MsbcEncoder.use, Nat.not_le.mp hspace]

/-- The codec uses its handle. -/
theorem engine_uses {a : MsbcAnswer} (h : s.engine a = some s') :
    (s.xaProcessHandle, s.heap) ∈ s'.uses := by
  have huse : (s.xaProcessHandle, s.heap) ∈ (s.use s.xaProcessHandle).uses := by
    simp [MsbcEncoder.use]
  cases a with
  | start uiInitDone consumed =>
      simp only [MsbcEncoder.engine] at h
      split at h
      · cases h
        exact huse
      · cases h
  | encode out fits consumed =>
      simp only [MsbcEncoder.engine] at h
      split at h
      · split at h
        · next s1 hstore =>
            cases h
            exact (storeFrame_frame hstore).uses.subset huse
        · cases h
      · cases h

/-- With one the staging buffer fills up, and the API object is used. -/
theorem handle_used {a : MsbcAnswer} {as : List MsbcAnswer} {length : Nat}
    (h : s.recvLoop length (a :: as) = some s') :
    s.lastSpace ≤ length ∧ (s.xaProcessHandle, s.heap) ∈ s'.uses := by
  simp only [MsbcEncoder.recvLoop] at h
  split at h
  · next hspace =>
      split at h
      · next s1 hengine =>
          have huse := engine_uses hengine
          have hsame : (s.stage s.lastSpace).xaProcessHandle = s.xaProcessHandle ∧
              (s.stage s.lastSpace).heap = s.heap := by
            obtain heq | heq := s.stage_eq s.lastSpace <;> rw [heq] <;> exact ⟨rfl, rfl⟩
          rw [hsame.1, hsame.2] at huse
          refine ⟨hspace.2, (recvLoop_frame h).uses.subset ?_⟩
          obtain heq | heq := s1.stage_eq (sub32 s1.iBuffSize s1.iBytesConsumed)
          · simpa [MsbcEncoder.shift, heq] using huse
          · simp [MsbcEncoder.shift, heq, MsbcEncoder.use, huse]
      · cases h
  · cases h

/-- A frame that is put out is in the list afterwards. -/
theorem engine_queued {a : MsbcAnswer} (h : s.engine a = some s')
    (hframe : s.encoded.frameList ≠ [] ∨ ¬ a.NoFrame) : s'.encoded.frameList ≠ [] := by
  have hpush : ∀ {out : List UInt8} {fits : Bool} {s1 s2 : MsbcEncoder},
      s1.pushFrame out fits = some s2 → s2.encoded.frameList ≠ [] := by
    intro out fits s1 s2 h1
    obtain ⟨-, -, frame, -, hencoded⟩ := pushFrame_eq_some h1
    simp [hencoded, frameList_pushBack]
  cases a with
  | start uiInitDone consumed =>
      have hlist := hframe.resolve_right (not_not.mpr trivial)
      simp only [MsbcEncoder.engine] at h
      split at h
      · cases h
        exact hlist
      · cases h
  | encode out fits consumed =>
      simp only [MsbcEncoder.engine, MsbcEncoder.storeFrame] at h
      split at h
      · split at h
        · next s1 hstore =>
            have hlist : s1.encoded.frameList ≠ [] := by
              split at hstore
              · next hnil =>
                  cases hstore
                  exact hframe.resolve_right (not_not.mpr hnil)
              · split at hstore
                · split at hstore
                  · exact hpush hstore
                  · cases hstore
                · exact hpush hstore
            cases h
            exact hlist
        · cases h
      · cases h

/-- Once a frame has come out, a frame is queued. -/
theorem frame_queued {answers : List MsbcAnswer} {length : Nat}
    (h : s.recvLoop length answers = some s')
    (hframe : s.encoded.frameList ≠ [] ∨ ∃ a ∈ answers, ¬ a.NoFrame) :
    s'.encoded.frameList ≠ [] := by
  have hstage : ∀ (n : Nat) (s : MsbcEncoder), (s.stage n).encoded = s.encoded := by
    intro n s
    obtain heq | heq := s.stage_eq n
    · rw [heq]
    · rw [heq]
      rfl
  induction answers generalizing s length with
  | nil =>
      have hlist := hframe.resolve_right (by simp)
      have hsame := (recvLoop_frame h).encoded (by simp)
      rwa [hsame]
  | cons a as ih =>
      simp only [MsbcEncoder.recvLoop] at h
      split at h
      · split at h
        · next s1 hengine =>
            refine ih h ?_
            rw [MsbcEncoder.shift]
            dsimp only
            rw [hstage]
            by_cases hlater : ∃ b ∈ as, ¬ b.NoFrame
            · exact Or.inr hlater
            · refine Or.inl (engine_queued hengine ?_)
              dsimp only
              rw [hstage]
              refine hframe.imp id ?_
              rintro ⟨b, hb, hnot⟩
              obtain rfl | hmem := List.mem_cons.mp hb
              · exact hnot
              · exact absurd ⟨b, hmem, hnot⟩ hlater
        · cases h
      · cases h

/-! ## the invariant -/

/-- The blocks that `msbc_encoder_recv_frame_req` is about to free. -/
def MsbcStmt.held : MsbcStmt → List Nat
  | .copyFrame _ frame | .freeData _ frame => frame.blocks
  | .freeFrame _ frame => [frame.node]
  | _ => []

/-- The encoder in a session, or without one. -/
structure MsbcEncoder.Regular (s : MsbcEncoder) : Prop where
  live : s.ready = true → QueueInv s.encoded ∧ s.Loaded ∧
    ∀ p ∈ s.gPvArrAllocMemory, s.heap.Allocated p
  closed : s.ready = false → s.encoded.frameList = [] ∧ s.gPvArrAllocMemory = []

/-- What holds in front of a statement.  From `freeMem` on, the blocks up to the one at `i`
are freed. -/
def MsbcStmt.MemAt (s : MsbcEncoder) : MsbcStmt → Prop
  | .freeMem i => s.encoded.frameList = [] ∧
      (s.ready = false → s.gPvArrAllocMemory = []) ∧
      (s.ready = true → s.Loaded ∧ (∀ p ∈ s.gPvArrAllocMemory.drop i, s.heap.Allocated p) ∧
        ∀ p ∈ s.gPvArrAllocMemory.take i, ¬ s.heap.Allocated p)
  | .clearCount => s.encoded.frameList = [] ∧
      (s.ready = true → ¬ s.heap.Allocated s.xaProcessHandle ∧ ¬ s.heap.Allocated s.pbInpBuf)
  | .clearReady => s.encoded.frameList = [] ∧ s.gPvArrAllocMemory = [] ∧
      (s.ready = true → ¬ s.heap.Allocated s.xaProcessHandle ∧ ¬ s.heap.Allocated s.pbInpBuf)
  | _ => s.Regular

/-- The code is a statement, and what holds in front of it. -/
def CodeMem (s : MsbcEncoder) : List MsbcStmt → Prop
  | [] => s.Regular
  | [c] => c.MemAt s
  | _ => False

/-- Nothing freed was used, and nothing was left behind. -/
structure TeardownSafe (s : MsbcEncoder) : Prop where
  uses : s.UsesAllocated
  returns : ∀ r ∈ s.returns, r.Clean

structure MsbcInv (code : List MsbcStmt) (s : MsbcEncoder) : Prop where
  frames : FramesInv (code.flatMap MsbcStmt.held) s.gPvArrAllocMemory s.encoded s.heap
  at_code : CodeMem s code
  safe : TeardownSafe s

/-- An interrupt with the answers of the codec, in front of a statement of `msbc_encoder_destroy`
behind its critical section: the samples only fill up the staging buffer, and that is not yet
freed; or nothing is freed and the codec puts out no frame. -/
def MsbcStmt.RxHarmless (s : MsbcEncoder) (answers : List MsbcAnswer) : MsbcStmt → Prop
  | .freeMem i =>
      (msbcIpcRxLength < s.lastSpace ∧ s.pbInpBuf ∈ s.gPvArrAllocMemory.drop i) ∨
        (i = 0 ∧ ∀ a ∈ answers, a.NoFrame)
  | .clearCount | .clearReady => False
  | _ => True

/-- An interrupt in `msbc_encoder_destroy` is harmless. -/
def RxHarmless (t : MsbcTask) : MsbcEvent → Prop
  | .interrupt answers => t.state.ready = true → ∀ c ∈ t.code, c.RxHarmless t.state answers
  | _ => True

instance (s : MsbcEncoder) (answers : List MsbcAnswer) (c : MsbcStmt) :
    Decidable (c.RxHarmless s answers) :=
  match c with
  | .freeMem _ => inferInstanceAs (Decidable (_ ∨ _))
  | .clearCount | .clearReady => .isFalse id
  | .ifReady | .allocChannel | .whileLeft _ | .popFront _ | .copyFrame _ _ | .freeData _ _ |
    .freeFrame _ _ | .finish _ | .clearList => .isTrue trivial

instance (t : MsbcTask) (e : MsbcEvent) : Decidable (RxHarmless t e) :=
  match e with
  | .interrupt _ => inferInstanceAs (Decidable (_ → _))
  | .call _ | .dispatch | .stmt _ => .isTrue trivial

variable {t t' : MsbcTask} {e : MsbcEvent} {code : List MsbcStmt} {answers : List MsbcAnswer}

/-- The blocks of the first `n` frames are freed. -/
theorem clearFrames_eq_some {n : Nat} {frames frames' : List EncodedFrame} {heap' : Heap}
    (h : clearFrames n frames heap = some (frames', heap')) :
    n ≤ frames.length ∧ frames' = frames.drop n ∧ heap'.next = heap.next ∧
      (∀ p, heap'.Allocated p ↔ heap.Allocated p ∧
        ∀ f ∈ frames.take n, p ≠ some f.node ∧ p ≠ some f.data) := by
  induction n generalizing frames heap with
  | zero =>
      cases h
      simp
  | succ n ih =>
      cases frames with
      | nil => cases h
      | cons f rest =>
          obtain ⟨h1, h2, h3, h4⟩ := ih h
          refine ⟨by simpa using h1, by simpa using h2, h3, fun p => ?_⟩
          rw [h4, EncodedFrame.free, Heap.allocated_free, Heap.allocated_free]
          simp only [List.take_succ_cons, List.forall_mem_cons]
          tauto

theorem not_mem_live_iff {b : Nat} : b ∉ heap.live ↔ ¬ heap.Allocated (some b) := by
  simp [Heap.Allocated]

/-- The frames are freed, the memory of the codec is not. -/
theorem FramesInv.clear (h : FramesInv [] arr q heap) {heap' : Heap}
    (hclear : clearFrames q.frameList.length q.frameList heap = some ([], heap')) :
    FramesInv [] arr { q with frameList := [], frameCount := 0, dataLength := 0 } heap' ∧
      ∀ p ∈ arr, heap'.Allocated p ↔ heap.Allocated p := by
  obtain ⟨-, -, hnext, hiff⟩ := clearFrames_eq_some hclear
  rw [List.take_length] at hiff
  obtain ⟨hissued, hqueued, hnumber, hapart, hkept, hfreed⟩ := h
  simp only [EncodedFrame.blocks] at hapart
  refine ⟨⟨fun p hp b hb => ?_, by simp, fun f hf => ?_, hapart, by simp, fun f hf _ b hb => ?_⟩,
    fun p hp => ?_⟩
  · rw [hnext]
    exact hissued p hp b hb
  · rw [hnext]
    exact hnumber f hf
  · rw [not_mem_live_iff, hiff]
    right
    by_cases hmem : f ∈ q.frameList
    · simp only [EncodedFrame.blocks] at hb
      grind
    · have hold := (hfreed f hf hmem b hb).resolve_left (by simp)
      exact fun hboth => not_mem_live_iff.mp hold hboth.1
  · rw [hiff]
    refine and_iff_left fun f hf => ?_
    have := hapart f (hqueued f hf)
    grind

/-- A frame goes from the list to the hands of the task. -/
theorem FramesInv.popFront (h : FramesInv [] arr q heap) (hpop : q.popFront = some (frame, q')) :
    FramesInv frame.blocks arr { q' with ops := q.ops ++ [.take] } heap := by
  obtain ⟨hissued, hqueued, hnumber, hapart, hkept, hfreed⟩ := h
  obtain ⟨hlist, -⟩ := popFront_eq_some hpop
  have heq : EncodedQueue.queued { q' with ops := q.ops ++ [.take] } = q.queued := by
    simp [EncodedQueue.queued, DropQueue.puts]
  rw [hlist] at hqueued hfreed
  constructor
  · exact hissued
  · rw [heq]
    exact fun f hf => hqueued f (List.mem_cons_of_mem frame hf)
  · rwa [heq]
  · rwa [heq]
  · exact hapart frame (hqueued frame List.mem_cons_self)
  · rw [heq]
    intro f hf hnot b hb
    by_cases hsame : f = frame
    · subst hsame
      exact Or.inl hb
    · exact Or.inr ((hfreed f hf (by simp_all) b hb).resolve_left (by simp))

/-- The task frees a block. -/
theorem FramesInv.freeKept {b : Nat} {kept' : List Nat} (h : FramesInv kept arr q heap)
    (hkept' : ∀ b' ∈ kept, b' = b ∨ b' ∈ kept') (hsub : ∀ b' ∈ kept', b' ∈ kept) :
    FramesInv kept' arr q (heap.free (some b)) := by
  obtain ⟨hissued, hqueued, hnumber, hapart, hkept, hfreed⟩ := h
  refine ⟨hissued, hqueued, hnumber, hapart, fun b' hb' => hkept b' (hsub b' hb'),
    fun f hf hnot b' hb' => ?_⟩
  obtain hmem | hlive := hfreed f hf hnot b' hb'
  · obtain rfl | hmem := hkept' b' hmem
    · simp [Heap.free]
    · exact Or.inl hmem
  · exact Or.inr (not_mem_live_free hlive _)

/-- A block of a frame is freed, those of the codec stay. -/
theorem MsbcEncoder.Regular.free (h : s.Regular) {p : Option Nat}
    (hp : p ∉ s.gPvArrAllocMemory) : MsbcEncoder.Regular { s with heap := s.heap.free p } := by
  refine ⟨fun hready => ?_, h.closed⟩
  obtain ⟨hqueue, hloaded, halloc⟩ := h.live hready
  refine ⟨hqueue, hloaded.congr rfl rfl rfl rfl, fun p' hp' => ?_⟩
  exact Heap.allocated_free.mpr ⟨halloc p' hp', fun heq => hp (heq ▸ hp')⟩

/-- The block at `i` is freed. -/
theorem memAt_freeMem {i : Nat} {p : Option Nat} (h : (MsbcStmt.freeMem i).MemAt s)
    (hp : s.gPvArrAllocMemory[i]? = some p) :
    (MsbcStmt.freeMem (i + 1)).MemAt { s with heap := s.heap.free p } := by
  obtain ⟨hlist, hover, hlive⟩ := h
  refine ⟨hlist, hover, fun hready => ?_⟩
  obtain ⟨hloaded, hdrop, htake⟩ := hlive hready
  obtain ⟨hi, rfl⟩ := List.getElem?_eq_some_iff.mp hp
  have hnodup := hloaded.nodup
  rw [← List.take_append_drop i s.gPvArrAllocMemory, List.drop_eq_getElem_cons hi,
    List.nodup_append, List.nodup_cons] at hnodup
  rw [List.drop_eq_getElem_cons hi, List.forall_mem_cons] at hdrop
  refine ⟨hloaded.congr rfl rfl rfl rfl, fun p hp => ?_, fun p hp => ?_⟩
  · refine Heap.allocated_free.mpr ⟨hdrop.2 p hp, fun heq => ?_⟩
    rw [heq] at hp
    exact hnodup.2.1.1 hp
  · dsimp only
    rw [Heap.allocated_free]
    rw [List.take_succ_eq_append_getElem hi, List.mem_append, List.mem_singleton] at hp
    obtain hp | rfl := hp
    · exact fun hboth => htake p hp hboth.1
    · exact fun hboth => hboth.2 rfl

/-- A frame is taken from the list. -/
theorem MsbcInv.popFront {v : FrameReq} (h : MsbcInv [.popFront v] s)
    (hpop : s.encoded.popFront = some (frame, q')) :
    MsbcInv [.copyFrame v frame]
      { s with encoded := { q' with ops := s.encoded.ops ++ [.take] } } := by
  obtain ⟨hframes, hat, ⟨huses, hreturns⟩⟩ := h
  have hat : s.Regular := hat
  refine ⟨hframes.popFront hpop, ⟨fun hready => ?_, fun hready => ?_⟩, ⟨huses, hreturns⟩⟩
  · obtain ⟨hqueue, hloaded, halloc⟩ := hat.live hready
    exact ⟨(hqueue.take hpop).1, hloaded.congr rfl rfl rfl rfl, halloc⟩
  · have hnil := (hat.closed hready).1
    rw [(popFront_eq_some hpop).1] at hnil
    cases hnil

/-- The loop of the critical section frees all frames of the list. -/
theorem MsbcEncoder.Regular.count_of_clear {frames : List EncodedFrame} (h : s.Regular)
    (hclear : clearFrames s.encoded.frameCount.toNat s.encoded.frameList s.heap =
      some (frames, heap')) :
    s.encoded.frameCount.toNat = s.encoded.frameList.length := by
  cases hready : s.ready with
  | true => exact (h.live hready).1.toNat_count
  | false =>
      have hle := (clearFrames_eq_some hclear).1
      rw [(h.closed hready).1] at hle ⊢
      exact Nat.le_zero.mp hle

/-- The critical section of `msbc_encoder_destroy`. -/
theorem MsbcInv.clearList {frames : List EncodedFrame} (h : MsbcInv [.clearList] s)
    (hclear : clearFrames s.encoded.frameCount.toNat s.encoded.frameList s.heap =
      some (frames, heap')) :
    MsbcInv [.freeMem 0] { s with
      encoded := { s.encoded with frameList := frames, frameCount := 0, dataLength := 0 }
      heap := heap' } := by
  obtain ⟨hframes, hat, ⟨huses, hreturns⟩⟩ := h
  have hat : s.Regular := hat
  rw [hat.count_of_clear hclear] at hclear
  obtain rfl : frames = [] := by
    rw [(clearFrames_eq_some hclear).2.1, List.drop_length]
  obtain ⟨hclean, hiff⟩ := FramesInv.clear hframes hclear
  refine ⟨hclean, ⟨rfl, fun hready => (hat.closed hready).2, fun hready => ?_⟩,
    ⟨huses, hreturns⟩⟩
  obtain ⟨-, hloaded, halloc⟩ := hat.live hready
  refine ⟨hloaded.congr rfl rfl rfl rfl, fun p hp => ?_, by simp⟩
  exact (hiff p hp).mpr (halloc p hp)

/-- All blocks of the codec are freed. -/
theorem MsbcInv.freeMem_end {i : Nat} (h : MsbcInv [.freeMem i] s)
    (hend : s.gPvArrAllocMemory[i]? = none) : MsbcInv [.clearCount] s := by
  obtain ⟨hframes, ⟨hlist, -, hlive⟩, ⟨huses, hreturns⟩⟩ := h
  refine ⟨hframes, ⟨hlist, fun hready => ?_⟩, ⟨huses, hreturns⟩⟩
  obtain ⟨hloaded, -, htake⟩ := hlive hready
  rw [List.take_of_length_le (List.getElem?_eq_none_iff.mp hend)] at htake
  exact ⟨htake _ hloaded.mem_handle, htake _ hloaded.inp⟩

theorem MsbcInv.clearCount (h : MsbcInv [.clearCount] s) :
    MsbcInv [.clearReady] { s with gPvArrAllocMemory := [] } := by
  obtain ⟨⟨-, hqueued, hnumber, -, -, hfreed⟩, ⟨hlist, hlive⟩, ⟨huses, hreturns⟩⟩ := h
  exact ⟨⟨by simp, hqueued, hnumber, by simp, nofun, hfreed⟩, ⟨hlist, rfl, hlive⟩,
    ⟨huses, hreturns⟩⟩

/-- `msbc_encoder_destroy` returns. -/
theorem MsbcInv.clearReady (h : MsbcInv [.clearReady] s) :
    MsbcInv [] { s with
      ready := false
      returns := s.returns ++ [⟨s.encoded.frameList, DropQueue.puts s.encoded.ops, s.heap⟩] } := by
  obtain ⟨hframes, ⟨hlist, harr, hlive⟩, ⟨huses, hreturns⟩⟩ := h
  refine ⟨hframes, ⟨nofun, fun _ => ⟨hlist, harr⟩⟩, huses, fun r hr => ?_⟩
  obtain hold | hnew := List.mem_append.mp hr
  · exact hreturns r hold
  · rw [List.mem_singleton.mp hnew]
    refine ⟨hlist, fun f hf b hb => ?_⟩
    exact (hframes.freed f hf (by simp [hlist]) b hb).resolve_left (by simp [MsbcStmt.held])

/-- A statement keeps the invariant. -/
theorem MsbcInv.stmt {c : MsbcStmt} {cs : List MsbcStmt} {channel : UInt8}
    {r : Effect MsbcStmt Empty MsbcEncoder} (h : MsbcInv (c :: cs) s)
    (hexec : c.exec channel s = some r) : MsbcInv (r.code cs) r.state := by
  obtain rfl : cs = [] := by
    cases cs with
    | nil => rfl
    | cons c' cs => exact h.at_code.elim
  have ⟨hframes, hat, ⟨huses, hreturns⟩⟩ := h
  change c.MemAt s at hat
  rw [List.flatMap_singleton] at hframes
  cases c with
  | ifReady | allocChannel | whileLeft v =>
      simp only [MsbcStmt.exec, Option.some.injEq] at hexec
      subst hexec
      split <;> exact ⟨hframes, hat, ⟨huses, hreturns⟩⟩
  | popFront v =>
      simp only [MsbcStmt.exec] at hexec
      split at hexec
      · cases hexec
      · next hpop =>
          cases hexec
          exact h.popFront hpop
  | copyFrame v frame =>
      cases hexec
      exact ⟨hframes, hat, ⟨huses, hreturns⟩⟩
  | freeData v frame =>
      cases hexec
      have hapart := hframes.taken frame.data (by simp [MsbcStmt.held, EncodedFrame.blocks])
      refine ⟨hframes.freeKept ?_ ?_, hat.free hapart, ⟨huses, hreturns⟩⟩
      all_goals simp [MsbcStmt.held, MsbcStmt.after, Effect.code, EncodedFrame.blocks]
  | freeFrame v frame =>
      cases hexec
      have hapart := hframes.taken frame.node (by simp [MsbcStmt.held])
      refine ⟨hframes.freeKept ?_ ?_, hat.free hapart, ⟨huses, hreturns⟩⟩
      all_goals simp [MsbcStmt.held, MsbcStmt.after, Effect.code]
  | finish v =>
      simp only [MsbcStmt.exec, Option.some.injEq] at hexec
      subst hexec
      split
      · refine ⟨hframes, ⟨fun hready => ?_, hat.closed⟩, ⟨huses, hreturns⟩⟩
        obtain ⟨hqueue, hloaded, halloc⟩ := hat.live hready
        exact ⟨hqueue, hloaded.congr rfl rfl rfl rfl, halloc⟩
      · exact ⟨hframes, hat, ⟨huses, hreturns⟩⟩
  | clearList =>
      simp only [MsbcStmt.exec] at hexec
      split at hexec
      · cases hexec
      · next hclear =>
          cases hexec
          exact h.clearList hclear
  | freeMem i =>
      simp only [MsbcStmt.exec, Option.some.injEq] at hexec
      subst hexec
      split
      · next p hp => exact ⟨hframes.free p, memAt_freeMem hat hp, ⟨huses, hreturns⟩⟩
      · next hend => exact h.freeMem_end hend
  | clearCount =>
      cases hexec
      exact h.clearCount
  | clearReady =>
      cases hexec
      exact h.clearReady

/-! ## the interrupt -/

/-- The memory of the codec, as the interrupt finds and leaves it. -/
theorem MsbcInv.memInv (h : MsbcInv code s) (hloaded : s.Loaded)
    (halloc : ∀ p ∈ s.gPvArrAllocMemory, s.heap.Allocated p) :
    MemInv (code.flatMap MsbcStmt.held) s :=
  ⟨h.frames, hloaded, halloc, h.safe.uses⟩

/-- Only the level and the history change when the samples fill up the staging buffer. -/
theorem recvLoop_nil {length : Nat} (h : s.recvLoop length [] = some s') :
    ∃ level uses, s' = { s with bufferLevel := level, uses := uses } := by
  simp only [MsbcEncoder.recvLoop] at h
  split at h
  · cases h
    exact ⟨_, _, rfl⟩
  · split at h
    · cases h
    · cases h
      obtain heq | heq := s.stage_eq length <;> rw [heq] <;> exact ⟨_, _, rfl⟩

/-- In a session outside of `msbc_encoder_destroy`. -/
theorem MsbcEncoder.Regular.rx (h : s.Regular)
    (hframes : FramesInv kept s.gPvArrAllocMemory s.encoded s.heap)
    (hsafe : TeardownSafe s) (hready : s.ready = true)
    (hloop : s.recvLoop msbcIpcRxLength answers = some s') :
    FramesInv kept s'.gPvArrAllocMemory s'.encoded s'.heap ∧ s'.Regular ∧ s'.UsesAllocated := by
  obtain ⟨hqueue, hloaded, halloc⟩ := h.live hready
  have hmem := MemInv.recvLoop ⟨hframes, hloaded, halloc, hsafe.uses⟩ hloop
  have hrx : msbcIpcRx answers s = some s' := by rwa [msbcIpcRx, if_pos hready]
  refine ⟨hmem.frames, ⟨fun _ => ?_, fun hover => ?_⟩, hmem.uses⟩
  · exact ⟨(hqueue.msbcIpcRx hrx).1.inv, hmem.loaded, hmem.allocated⟩
  · rw [(recvLoop_frame hloop).ready, hready] at hover
    cases hover

/-- A harmless interrupt keeps the invariant. -/
theorem MsbcInv.rx (h : MsbcInv code s) (hrx : msbcIpcRx answers s = some s')
    (hC : s.ready = true → ∀ c ∈ code, c.RxHarmless s answers) : MsbcInv code s' := by
  unfold msbcIpcRx at hrx
  split at hrx
  · next hready =>
    have hframe := recvLoop_frame hrx
    have hreturns : ∀ r ∈ s'.returns, r.Clean := by
      rw [hframe.returns]
      exact h.safe.returns
    have hat := h.at_code
    have hregular : s.Regular → (∀ c, code = [c] → s'.Regular → c.MemAt s') → MsbcInv code s' := by
      intro hat' hmemAt
      obtain ⟨hframes, hregular, huses⟩ := hat'.rx h.frames h.safe hready hrx
      refine ⟨hframes, ?_, huses, hreturns⟩
      rcases code with _ | ⟨c, _ | ⟨c', cs⟩⟩
      · exact hregular
      · exact hmemAt c rfl hregular
      · exact hat
    rcases code with _ | ⟨c, _ | ⟨c', cs⟩⟩
    · exact hregular hat nofun
    · have hharmless := hC hready c List.mem_cons_self
      change c.MemAt s at hat
      cases c with
      | freeMem i =>
          obtain ⟨hlist, hover, hlive⟩ := hat
          obtain ⟨hloaded, hdrop, htake⟩ := hlive hready
          obtain ⟨hspace, hinp⟩ | ⟨rfl, hquiet⟩ := hharmless
          · -- the samples only fill up the staging buffer
            cases answers with
            | cons a as => exact absurd (handle_used hrx).1 (Nat.not_le.mpr hspace)
            | nil =>
                have huses := (inp_used (by decide) hrx).2
                obtain ⟨level, uses, rfl⟩ := recvLoop_nil hrx
                obtain rfl : uses = s.uses ++ [(s.pbInpBuf, s.heap)] := huses
                refine ⟨h.frames,
                  ⟨hlist, hover, fun _ => ⟨hloaded.congr rfl rfl rfl rfl, hdrop, htake⟩⟩,
                  h.safe.uses.use (hdrop _ hinp), h.safe.returns⟩
          · -- the codec is called with all its memory
            have hmem := (h.memInv hloaded hdrop).recvLoop hrx
            refine ⟨hmem.frames, ⟨?_, fun hover => ?_, fun _ => ?_⟩, hmem.uses, hreturns⟩
            · rw [hframe.encoded hquiet]
              exact hlist
            · rw [hframe.ready, hready] at hover
              cases hover
            · exact ⟨hmem.loaded, hmem.allocated, by simp⟩
      | clearCount => exact hharmless.elim
      | clearReady => exact hharmless.elim
      | _ => exact hregular hat fun c hc hregular => by cases hc; exact hregular
    · exact hat.elim
  · cases hrx
    exact h

/-- A step that meets the condition keeps the invariant. -/
theorem msbcInv_step (h : MsbcInv t.code t.state) (hC : RxHarmless t e)
    (hstep : msbcStep t e = some t') : MsbcInv t'.code t'.state := by
  obtain ⟨p, rfl, hcode, hcode', hstate⟩ | ⟨c, cs, channel, r, -, hcode, hexec, hcode', hstate⟩ |
    ⟨answers, rfl, hrx, hcode⟩ := msbcStep_cases hstep
  · rw [hcode] at h
    rw [hcode', hstate]
    cases p <;> exact ⟨h.frames, h.at_code, h.safe⟩
  · rw [hcode] at h
    rw [hcode', hstate]
    exact h.stmt hexec
  · rw [hcode]
    exact h.rx hrx hC

/-! ## harm -/

/-- The statements of `msbc_encoder_destroy` behind its critical section. -/
def MsbcStmt.InDestroy : MsbcStmt → Prop
  | .freeMem _ | .clearCount | .clearReady => True
  | _ => False

/-- Something freed was used, something was left behind, or will be: `msbc_encoder_destroy` is
behind its critical section, and a frame is queued. -/
def Harmed (code : List MsbcStmt) (s : MsbcEncoder) : Prop :=
  ¬ TeardownSafe s ∨ ((∃ c, code = [c] ∧ c.InDestroy) ∧ s.encoded.frameList ≠ [])

/-- The history only grows. -/
theorem teardownSafe_of_grow (h : TeardownSafe s') (huses : s.uses <+: s'.uses)
    (hreturns : s.returns <+: s'.returns) : TeardownSafe s :=
  ⟨fun u hu => h.uses u (huses.subset hu), fun r hr => h.returns r (hreturns.subset hr)⟩

/-- A statement of destroy uses nothing, and returns are only added. -/
theorem exec_history {c : MsbcStmt} {channel : UInt8} {r : Effect MsbcStmt Empty MsbcEncoder}
    (hexec : c.exec channel s = some r) :
    s.uses = r.state.uses ∧ s.returns <+: r.state.returns := by
  cases c <;>
    simp only [MsbcStmt.exec, MsbcStmt.after, MsbcEncoder.return] at hexec <;>
    grind

/-- The reception adds to the history. -/
theorem rx_history (hrx : msbcIpcRx answers s = some s') :
    s.uses <+: s'.uses ∧ s.returns <+: s'.returns := by
  unfold msbcIpcRx at hrx
  split at hrx
  · have hframe := recvLoop_frame hrx
    exact ⟨hframe.uses, hframe.returns ▸ List.prefix_rfl⟩
  · cases hrx
    exact ⟨List.prefix_rfl, List.prefix_rfl⟩

/-- So does every step. -/
theorem step_history (hstep : msbcStep t e = some t') :
    t.state.uses <+: t'.state.uses ∧ t.state.returns <+: t'.state.returns := by
  obtain ⟨p, -, -, -, hstate⟩ | ⟨c, cs, channel, r, -, -, hexec, -, hstate⟩ |
    ⟨answers, -, hrx, -⟩ := msbcStep_cases hstep
  · rw [hstate]
    exact ⟨List.prefix_rfl, List.prefix_rfl⟩
  · rw [hstate]
    obtain ⟨huses, hreturns⟩ := exec_history hexec
    exact ⟨huses ▸ List.prefix_rfl, hreturns⟩
  · exact rx_history hrx

/-- A frame that is queued in `msbc_encoder_destroy` is left behind. -/
theorem harmed_stmt {c : MsbcStmt} {channel : UInt8} {r : Effect MsbcStmt Empty MsbcEncoder}
    (hc : c.InDestroy) (hlist : s.encoded.frameList ≠ []) (hexec : c.exec channel s = some r) :
    Harmed (r.code []) r.state := by
  cases c with
  | freeMem i =>
      simp only [MsbcStmt.exec, Option.some.injEq] at hexec
      subst hexec
      split <;> exact Or.inr ⟨⟨_, rfl, trivial⟩, hlist⟩
  | clearCount =>
      cases hexec
      exact Or.inr ⟨⟨_, rfl, trivial⟩, hlist⟩
  | clearReady =>
      cases hexec
      left
      intro hsafe
      exact hlist (hsafe.returns _ (List.mem_append_right _ (List.mem_singleton.mpr rfl))).1
  | _ => exact hc.elim

/-- Harm is not undone. -/
theorem harmed_step (h : Harmed t.code t.state) (hstep : msbcStep t e = some t') :
    Harmed t'.code t'.state := by
  obtain hbad | ⟨⟨c, hcode, hc⟩, hlist⟩ := h
  · obtain ⟨huses, hreturns⟩ := step_history hstep
    exact Or.inl fun hsafe => hbad (teardownSafe_of_grow hsafe huses hreturns)
  · obtain ⟨p, -, hnil, -, -⟩ | ⟨c', cs, channel, r, -, hcode', hexec, hnext, hstate⟩ |
      ⟨answers, -, hrx, hsame⟩ := msbcStep_cases hstep
    · simp [hcode] at hnil
    · rw [hcode] at hcode'
      cases hcode'
      rw [hnext, hstate]
      exact harmed_stmt hc hlist hexec
    · refine Or.inr ⟨⟨c, hsame.trans hcode, hc⟩, ?_⟩
      unfold msbcIpcRx at hrx
      split at hrx
      · exact frame_queued hrx (Or.inl hlist)
      · rw [← Option.some.inj hrx]
        exact hlist

/-- The memory of the codec is used when the API object and the staging buffer are freed. -/
theorem unsafe_of_freed (hloop : s.recvLoop msbcIpcRxLength answers = some s')
    (hhandle : ¬ s.heap.Allocated s.xaProcessHandle)
    (hinp : msbcIpcRxLength < s.lastSpace → ¬ s.heap.Allocated s.pbInpBuf) : ¬ TeardownSafe s' := by
  intro hsafe
  cases answers with
  | nil =>
      obtain ⟨hspace, huses⟩ := inp_used (by decide) hloop
      exact hinp hspace (hsafe.uses (s.pbInpBuf, s.heap) (by simp [huses]))
  | cons a as => exact hhandle (hsafe.uses _ (handle_used hloop).2)

/-- An interrupt that is not harmless does harm. -/
theorem harmed_of_rx (h : MsbcInv t.code t.state) (hC : ¬ RxHarmless t e)
    (hstep : msbcStep t e = some t') : Harmed t'.code t'.state := by
  cases e with
  | interrupt answers =>
      simp only [RxHarmless, not_forall] at hC
      obtain ⟨hready, c, hmem, hharm⟩ := hC
      obtain ⟨p, he, -⟩ | ⟨c', cs, channel, r, he, -⟩ | ⟨answers', he, hrx, hsame⟩ :=
        msbcStep_cases hstep
      · cases he
      · cases he
      cases he
      unfold msbcIpcRx at hrx
      rw [if_pos hready] at hrx
      have hat := h.at_code
      obtain ⟨c', hcode⟩ : ∃ c', t.code = [c'] := by
        rcases hcode : t.code with _ | ⟨c', _ | ⟨c2, cs⟩⟩
        · simp [hcode] at hmem
        · exact ⟨c', rfl⟩
        · rw [hcode] at hat
          exact hat.elim
      rw [hcode] at hat hmem
      obtain rfl := List.mem_singleton.mp hmem
      change c.MemAt t.state at hat
      cases c with
      | freeMem i =>
          obtain ⟨hloaded, hdrop, htake⟩ := hat.2.2 hready
          simp only [MsbcStmt.RxHarmless, not_or, not_and] at hharm
          obtain ⟨hspace, hquiet⟩ := hharm
          by_cases hi : i = 0
          · -- nothing is freed, but a frame is put out
            refine Or.inr ⟨⟨_, hsame.trans hcode, trivial⟩, frame_queued hrx (Or.inr ?_)⟩
            simpa using hquiet hi
          · left
            refine unsafe_of_freed hrx (htake _ ?_) fun hlt => htake _ ?_
            · obtain ⟨p, arr, harr⟩ := List.exists_cons_of_ne_nil (List.ne_nil_of_mem hloaded.inp)
              have hhead := hloaded.handle
              obtain ⟨i, rfl⟩ := Nat.exists_eq_succ_of_ne_zero hi
              rw [harr] at hhead ⊢
              simp_all
            · have hinp := hloaded.inp
              rw [← List.take_append_drop i t.state.gPvArrAllocMemory, List.mem_append] at hinp
              exact hinp.resolve_right (hspace hlt)
      | clearCount => exact Or.inl (unsafe_of_freed hrx (hat.2 hready).1 fun _ => (hat.2 hready).2)
      | clearReady =>
          exact Or.inl (unsafe_of_freed hrx (hat.2.2 hready).1 fun _ => (hat.2.2 hready).2)
      | _ => exact absurd trivial hharm
  | _ => exact absurd trivial hC

/-! ## the start -/

/-- The blocks in the table differ and are allocated. -/
def MsbcEncoder.Loading (s : MsbcEncoder) : Prop :=
  s.gPvArrAllocMemory.Nodup ∧ ∀ p ∈ s.gPvArrAllocMemory, s.heap.Allocated p

/-- One more block of the codec. -/
theorem MsbcEncoder.Loading.allocMem (h : s.Loading) : s.allocMem.2.Loading := by
  obtain ⟨hnodup, halloc⟩ := h
  have hnew : (s.heap.malloc true).1 ∉ s.gPvArrAllocMemory := fun hmem =>
    (halloc _ hmem).issued.ne_malloc rfl rfl
  constructor
  · simp only [MsbcEncoder.allocMem]
    exact List.nodup_append.mpr ⟨hnodup, by simp, by grind⟩
  · simp only [MsbcEncoder.allocMem, List.mem_append, List.mem_singleton]
    rintro p (hp | rfl)
    · exact (Heap.allocated_malloc_iff (halloc p hp).issued).mpr (halloc p hp)
    · exact Heap.allocated_malloc.mpr rfl

/-- The memory tables of the codec are filled in; the last one for the input, and the last one for
the output, is known. -/
theorem foldl_setMem (mems : List XaMem) (h : s.Loading) :
    (mems.foldl MsbcEncoder.setMem s).Loading ∧
      s.gPvArrAllocMemory <+: (mems.foldl MsbcEncoder.setMem s).gPvArrAllocMemory ∧
      (mems.foldl MsbcEncoder.setMem s).xaProcessHandle = s.xaProcessHandle ∧
      ((s.pbInpBuf ∈ s.gPvArrAllocMemory ∨ ∃ m ∈ mems, m.uiType = .input) →
        (mems.foldl MsbcEncoder.setMem s).pbInpBuf ∈
          (mems.foldl MsbcEncoder.setMem s).gPvArrAllocMemory) ∧
      ((s.pbOutBuf ∈ s.gPvArrAllocMemory ∨ ∃ m ∈ mems, m.uiType = .output) →
        (mems.foldl MsbcEncoder.setMem s).pbOutBuf ∈
          (mems.foldl MsbcEncoder.setMem s).gPvArrAllocMemory) := by
  induction mems generalizing s with
  | nil => simp [h]
  | cons m mems ih =>
      obtain ⟨h1, h2, h3, h4, h5⟩ := ih (s := s.setMem m) h.allocMem
      refine ⟨h1, (List.prefix_append _ _).trans h2, h3, fun hinp => h4 ?_, fun hout => h5 ?_⟩
      · by_cases hm : m.uiType = .input
        · left
          simp [MsbcEncoder.setMem, MsbcEncoder.allocMem, hm]
        · simp only [List.exists_mem_cons_iff, hm, false_or] at hinp
          refine hinp.imp_left fun hmem => ?_
          simp [MsbcEncoder.setMem, MsbcEncoder.allocMem, hm, hmem]
      · by_cases hm : m.uiType = .output
        · left
          simp [MsbcEncoder.setMem, MsbcEncoder.allocMem, hm]
        · simp only [List.exists_mem_cons_iff, hm, false_or] at hout
          refine hout.imp_left fun hmem => ?_
          simp [MsbcEncoder.setMem, MsbcEncoder.allocMem, hm, hmem]

/-- Init loads the codec and holds all its blocks. -/
theorem engineInit_loaded {mems : List XaMem} (h : s.gPvArrAllocMemory = [])
    (hinp : ∃ m ∈ mems, m.uiType = .input) (hout : ∃ m ∈ mems, m.uiType = .output) :
    (s.engineInit mems).Loaded ∧
      ∀ p ∈ (s.engineInit mems).gPvArrAllocMemory, (s.engineInit mems).heap.Allocated p := by
  have hempty : s.Loading := by
    simp [MsbcEncoder.Loading, h]
  have hhandle : MsbcEncoder.Loading { s.allocMem.2 with xaProcessHandle := s.allocMem.1 } :=
    hempty.allocMem
  obtain ⟨⟨hnodup, halloc⟩, hhead, hkeep, hinp', hout'⟩ := foldl_setMem mems hhandle.allocMem
  refine ⟨⟨hnodup, ?_, hinp' (Or.inr hinp), hout' (Or.inr hout)⟩, halloc⟩
  obtain ⟨rest, hrest⟩ := hhead
  simp only [MsbcEncoder.engineInit]
  rw [hkeep, ← hrest]
  simp [MsbcEncoder.allocMem, h]

/-- No frame is queued at the start. -/
theorem framesInv_empty (h : ∀ p ∈ arr, heap.Issued p) : FramesInv [] arr .empty heap := by
  constructor <;> simp_all [EncodedQueue.empty, EncodedQueue.queued, DropQueue.puts]

/-- The invariant holds behind init. -/
theorem msbcInv_start {mems : List XaMem} (h : s.gPvArrAllocMemory = [])
    (hinp : ∃ m ∈ mems, m.uiType = .input) (hout : ∃ m ∈ mems, m.uiType = .output) :
    MsbcInv [] (msbcEncoderInit mems s) := by
  obtain ⟨hloaded, halloc⟩ := engineInit_loaded (s := { s with uiInitDone := false }) h hinp hout
  have hregular : (msbcEncoderInit mems s).Regular :=
    ⟨fun _ => ⟨queueInv_empty, hloaded.congr rfl rfl rfl rfl, halloc⟩, nofun⟩
  exact ⟨framesInv_empty fun p hp => (halloc p hp).issued, hregular, nofun, nofun⟩

/-! ## runs -/

/-- For a codec that has memory for its input and its output: in a session without an interrupt
that is not harmless, no freed memory of the codec is used, and each time `msbc_encoder_destroy`
returns no frame is left and all frames ever queued are freed.  That is exact: in a run to a state
where the task is idle, an interrupt that was not harmless has done harm. -/
theorem teardown_safe_iff {mems : List XaMem} {s0 : MsbcEncoder} {es : List MsbcEvent}
    (hnone : s0.gPvArrAllocMemory = []) (hinp : ∃ m ∈ mems, m.uiType = .input)
    (hout : ∃ m ∈ mems, m.uiType = .output) (hrun : run msbcStep (.start mems s0) es = some t) :
    (Along msbcStep RxHarmless (.start mems s0) es → TeardownSafe t.state) ∧
      (t.code = [] → TeardownSafe t.state → Along msbcStep RxHarmless (.start mems s0) es) := by
  have hiff : ¬ Harmed t.code t.state ↔ Along msbcStep RxHarmless (.start mems s0) es := by
    refine run_undamaged_iff_along (I := fun t : MsbcTask => MsbcInv t.code t.state)
      (D := fun t => Harmed t.code t.state) (fun _ _ _ => msbcInv_step)
      (fun _ _ _ => harmed_of_rx) (fun _ _ _ => harmed_step) ?_ (msbcInv_start hnone hinp hout) hrun
    rintro t1 h (hbad | ⟨⟨c, hcode, hc⟩, hlist⟩)
    · exact hbad h.safe
    · have hat := h.at_code
      rw [hcode] at hat
      cases c with
      | freeMem i => exact hlist hat.1
      | clearCount => exact hlist hat.1
      | clearReady => exact hlist hat.1
      | _ => exact hc.elim
  rw [← hiff]
  constructor
  · exact fun hno => not_not.mp fun hbad => hno (Or.inl hbad)
  · rintro hcode hsafe (hbad | ⟨⟨c, hcode', -⟩, -⟩)
    · exact hbad hsafe
    · rw [hcode] at hcode'
      cases hcode'

/-- Two frames are queued, and an interrupt comes in front of the critical section of
`msbc_encoder_destroy`. -/
def twoFramesDestroy : List MsbcEvent :=
  [.interrupt [.start true (consumeUpTo 120)],
    .interrupt [.encode [1, 2, 3] true (consumeUpTo 120)], .call .destroy,
    .interrupt [.encode [4, 5] true (consumeUpTo 120)]] ++ List.replicate 8 (.stmt 0)

theorem teardown_safe_iff_two : ∃ t,
    run msbcStep (.start smallMems .zeroed) twoFramesDestroy = some t ∧ TeardownSafe t.state := by
  have hdone : (run msbcStep (.start smallMems .zeroed) twoFramesDestroy).isSome = true := by
    decide +kernel
  obtain ⟨t, hrun⟩ := Option.isSome_iff_exists.mp hdone
  exact ⟨t, hrun, (teardown_safe_iff rfl (by decide) (by decide) hrun).1 (by decide +kernel)⟩

/-- The interrupt comes when the API object is freed and the encoder still ready. -/
def rxInDestroy : List MsbcEvent :=
  [.interrupt [.start true (consumeUpTo 120)], .call .destroy, .stmt 0, .stmt 0,
    .interrupt [.encode [1] true (consumeUpTo 120)]]

theorem rx_uses_freed : ∃ t, run msbcStep (.start smallMems .zeroed) rxInDestroy = some t ∧
    ∃ u ∈ t.state.uses, ¬ u.2.Allocated u.1 := by
  obtain ⟨t, hrun, hview⟩ := Option.map_eq_some_iff.mp (show
    (run msbcStep (.start smallMems .zeroed) rxInDestroy).map
      (fun t => t.state.uses.any fun u => !decide (u.2.Allocated u.1)) = some true by
    decide +kernel)
  obtain ⟨u, hu, hfreed⟩ := List.any_eq_true.mp hview
  exact ⟨t, hrun, u, hu, by simpa using hfreed⟩

end Fr5080
