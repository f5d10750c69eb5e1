import Fr5080.Decoder.Session

/-!
# Fr5080.Decoder.Teardown

The ring buffer of the MP3 decoder is a block of the heap: `mp3_decoder_init`
allocates it in the task, `mp3_decoder_destroy` frees it in the task, and
`mp3_decoder_recv_frame` copies to it in the interrupt.

Nothing in `mp3_decoder_recv_frame` asks for the session (`sbc_encoder_recv_frame`
asks for its own): a frame that was granted before and arrives behind the
teardown is copied to where the pointer points, which is `NULL`, or the block
freed if the two statements of the teardown are not both done
(`frame_after_free`).

`SessionInv` ties the pointer to the last operation on it; from it
`frames_in_session_iff` for runs.
-/

namespace Fr5080

open Embedded

/-- A frame with data arrives between a successful allocation by `mp3_decoder_init` and the
next operation on the buffer. -/
def FrameInSession (t : SessionSched) : SessionEvent → Prop
  | .interrupt (.rawFrame buffer) =>
      buffer ≠ [] → t.state.bufferOps.getLast? = some .allocated
  | _ => True

instance (t : SessionSched) (e : SessionEvent) : Decidable (FrameInSession t e) :=
  match e with
  | .interrupt (.rawFrame _) => inferInstanceAs (Decidable (_ → _))
  | .interrupt .decoderStart => .isTrue trivial
  | .interrupt .needMoreSbc => .isTrue trivial
  | .interrupt .decoderPrepNext => .isTrue trivial
  | .stmt _ => .isTrue trivial
  | .call p => p.elim
  | .dispatch => .isTrue trivial

/-- The frames were copied to blocks that were allocated at that time. -/
def Mp3Session.CopiesAllocated (s : Mp3Session) : Prop :=
  ∀ copy ∈ s.copies, copy.2.Allocated copy.1

/-- The buffer is allocated exactly when its last operation was an allocation, and it is none
of the blocks of the codec. -/
structure SessionInv (s : Mp3Session) : Prop where
  allocated : s.heap.Allocated s.buffer ↔ s.bufferOps.getLast? = some .allocated
  issued : s.heap.Issued s.buffer
  codecIssued : ∀ p ∈ s.codecBlocks, s.heap.Issued p
  apart : s.buffer ≠ none → ∀ p ∈ s.codecBlocks, s.buffer ≠ p

variable {t t' : SessionSched} {s : Mp3Session}

theorem sessionInv_zeroed : SessionInv .zeroed :=
  ⟨by simp [Mp3Session.zeroed], by simp [Mp3Session.zeroed], by simp [Mp3Session.zeroed],
    by simp [Mp3Session.zeroed]⟩

/-- A step that touches neither the heap nor the pointers. -/
theorem SessionInv.congr {s' : Mp3Session} (h : SessionInv s) (hheap : s'.heap = s.heap)
    (hbuffer : s'.buffer = s.buffer) (hblocks : s'.codecBlocks = s.codecBlocks)
    (hops : s'.bufferOps = s.bufferOps) : SessionInv s' := by
  obtain ⟨hallocated, hissued, hcodec, hapart⟩ := h
  exact ⟨by rw [hheap, hbuffer, hops]; exact hallocated, by rw [hheap, hbuffer]; exact hissued,
    by rw [hheap, hblocks]; exact hcodec, by rw [hbuffer, hblocks]; exact hapart⟩

/-! ## the statements on the heap -/

theorem SessionInv.allocBuffer (h : SessionInv s) (a : SessionAnswer) :
    SessionInv (SessionStmt.allocBuffer.exec a s).state := by
  refine ⟨?_, Heap.issued_malloc, fun p hp => (h.codecIssued p hp).malloc, fun hsome p hp => ?_⟩
  · cases halloc : a.bufferAlloc <;>
      simp [SessionStmt.exec, Effect.goOn, Heap.allocated_malloc, halloc]
  · have hok : a.bufferAlloc = true := by
      cases halloc : a.bufferAlloc with
      | true => rfl
      | false => exact absurd (by simp [SessionStmt.exec, Effect.goOn, Heap.malloc, halloc]) hsome
    exact ((h.codecIssued p hp).ne_malloc hok).symm

theorem SessionInv.engineInit (h : SessionInv s) (a : SessionAnswer) :
    SessionInv (SessionStmt.engineInit.exec a s).state := by
  refine ⟨?_, h.issued.mallocs _, fun p hp => ?_, fun hsome p hp => ?_⟩
  · exact (Heap.allocated_mallocs_iff h.issued _).trans h.allocated
  · cases List.mem_append.mp hp with
    | inl hold => exact (h.codecIssued p hold).mallocs _
    | inr hnew => exact Heap.issued_of_mem_mallocs _ p hnew
  · cases List.mem_append.mp hp with
    | inl hold => exact h.apart hsome p hold
    | inr hnew => exact h.issued.ne_mallocs hsome _ p hnew

/-- A block of the codec is not the buffer. -/
theorem SessionInv.freeCodecBlock (h : SessionInv s) {p : Option Nat} (hp : p ∈ s.codecBlocks) :
    SessionInv { s with heap := s.heap.free p } := by
  refine ⟨?_, h.issued.free, fun q hq => (h.codecIssued q hq).free, h.apart⟩
  rw [Heap.allocated_free, ← h.allocated]
  refine ⟨And.left, fun hbuffer => ⟨hbuffer, h.apart ?_ p hp⟩⟩
  rintro hnone
  rw [hnone] at hbuffer
  exact Heap.not_allocated_none hbuffer

theorem SessionInv.freeBuffer (h : SessionInv s) (a : SessionAnswer) :
    SessionInv (SessionStmt.freeBuffer.exec a s).state := by
  refine ⟨?_, h.issued.free, fun p hp => (h.codecIssued p hp).free, h.apart⟩
  simp [SessionStmt.exec, Effect.goOn, Heap.allocated_free]

theorem SessionInv.clearBuffer (h : SessionInv s) (a : SessionAnswer) :
    SessionInv (SessionStmt.clearBuffer.exec a s).state := by
  refine ⟨?_, Heap.issued_none, h.codecIssued, fun hsome => absurd rfl hsome⟩
  simp [SessionStmt.exec, Effect.goOn]

/-- Every statement keeps the invariant. -/
theorem SessionInv.stmt (h : SessionInv s) (c : SessionStmt) (a : SessionAnswer) :
    SessionInv (c.exec a s).state ∧ (c.exec a s).state.copies = s.copies := by
  cases c with
  | allocBuffer => exact ⟨h.allocBuffer a, rfl⟩
  | engineInit => exact ⟨h.engineInit a, rfl⟩
  | freeBuffer => exact ⟨h.freeBuffer a, rfl⟩
  | clearBuffer => exact ⟨h.clearBuffer a, rfl⟩
  | clearMallocCount =>
      exact ⟨⟨h.allocated, h.issued, by simp [SessionStmt.exec, Effect.goOn],
        by simp [SessionStmt.exec, Effect.goOn]⟩, rfl⟩
  | freeCodecBlock i =>
      simp only [SessionStmt.exec]
      split
      · next p hp => exact ⟨h.freeCodecBlock (List.mem_of_getElem? hp), rfl⟩
      · exact ⟨h, rfl⟩
  | switchState =>
      simp only [SessionStmt.exec]
      split <;> exact ⟨h, rfl⟩
  | ifBuffered =>
      simp only [SessionStmt.exec]
      split <;> exact ⟨h, rfl⟩
  | ifStarted =>
      simp only [SessionStmt.exec]
      split
      · exact ⟨h, rfl⟩
      · split
        · exact ⟨h.congr rfl rfl rfl rfl, rfl⟩
        · exact ⟨h, rfl⟩
  | _ => exact ⟨h.congr rfl rfl rfl rfl, rfl⟩

/-! ## runs -/

/-- A message leaves the session alone; a frame with data is copied to the buffer. -/
theorem SessionInv.interrupt (h : SessionInv s) (i : SessionIpc) :
    SessionInv (ipcRxUserHandler s i).1 := by
  cases i with
  | rawFrame buffer => exact h.congr rfl rfl rfl rfl
  | _ => exact h

/-- Every step keeps the invariant, whether or not a frame arrives in its session. -/
theorem sessionInv_step {e : SessionEvent} (h : SessionInv t.state)
    (hstep : sessionStep t e = some t') : SessionInv t'.state := by
  obtain ⟨code, queue, s⟩ := t
  obtain ⟨m, rest, rfl, rfl, rfl, rfl⟩ | ⟨c, cs, a, rfl, rfl, rfl⟩ | ⟨i, rfl, rfl⟩ :=
    sessionStep_cases hstep
  · exact h
  · exact (h.stmt c a).1
  · exact h.interrupt i

/-- The copies stay within allocated blocks exactly when the step meets the condition. -/
theorem copiesAllocated_step {e : SessionEvent} (h : SessionInv t.state)
    (hstep : sessionStep t e = some t') :
    t'.state.CopiesAllocated ↔ t.state.CopiesAllocated ∧ FrameInSession t e := by
  obtain ⟨code, queue, s⟩ := t
  obtain ⟨m, rest, rfl, rfl, rfl, rfl⟩ | ⟨c, cs, a, rfl, rfl, rfl⟩ | ⟨i, rfl, rfl⟩ :=
    sessionStep_cases hstep
  · simp [FrameInSession]
  · simp [FrameInSession, Mp3Session.CopiesAllocated, (h.stmt c a).2]
  · cases i with
    | rawFrame buffer =>
        simp only [ipcRxUserHandler, Mp3Session.CopiesAllocated, FrameInSession, ← h.allocated]
        by_cases hempty : buffer = []
        · simp [hempty]
        · simp only [hempty, if_false, List.forall_mem_append, List.forall_mem_singleton, ne_eq,
            not_false_eq_true, forall_true_left]
    | _ => simp [FrameInSession, ipcRxUserHandler]

/-- The frames are copied to allocated blocks only, exactly when every frame with data arrives
between a successful allocation of the buffer and the next operation on it. -/
theorem frames_in_session_iff {es : List SessionEvent}
    (hrun : run sessionStep .start es = some t) :
    t.state.CopiesAllocated ↔ Along sessionStep FrameInSession .start es := by
  have hinv : SessionInv t.state :=
    run_inv (I := fun t => SessionInv t.state) (fun _ _ _ => sessionInv_step) sessionInv_zeroed hrun
  have hiff : ¬ (SessionInv t.state ∧ ¬ t.state.CopiesAllocated) ↔
      Along sessionStep FrameInSession .start es :=
    run_undamaged_iff_along (I := fun t => SessionInv t.state ∧ t.state.CopiesAllocated)
      (D := fun t => SessionInv t.state ∧ ¬ t.state.CopiesAllocated) ?_ ?_ ?_ ?_ ?_ hrun
  · grind
  · intro s e s' h hC hstep
    exact ⟨sessionInv_step h.1 hstep, (copiesAllocated_step h.1 hstep).mpr ⟨h.2, hC⟩⟩
  · intro s e s' h hC hstep
    exact ⟨sessionInv_step h.1 hstep, fun hall => hC ((copiesAllocated_step h.1 hstep).mp hall).2⟩
  · intro s e s' h hstep
    exact ⟨sessionInv_step h.1 hstep, fun hall => h.2 ((copiesAllocated_step h.1 hstep).mp hall).1⟩
  · exact fun s h hD => hD.2 h.2
  · exact ⟨sessionInv_zeroed, by simp [SessionSched.start, Mp3Session.zeroed,
      Mp3Session.CopiesAllocated]⟩

/-- The frames of a session that has been started. -/
theorem frames_in_session_iff_first : ∃ t,
    run sessionStep .start (.interrupt .decoderStart :: handling 12 ++ fourFrames) = some t ∧
      t.state.CopiesAllocated := by
  have hdone : (run sessionStep .start
      (.interrupt .decoderStart :: handling 12 ++ fourFrames)).isSome = true := by decide +kernel
  obtain ⟨t, hrun⟩ := Option.isSome_iff_exists.mp hdone
  exact ⟨t, hrun, (frames_in_session_iff hrun).mpr (by decide +kernel)⟩

/-- The session is torn down; one frame arrives before `mp3_decoder_buffer = NULL`, and one
behind the teardown. -/
def lateFrames : List SessionEvent :=
  .interrupt .decoderStart :: handling 12 ++ .interrupt .decoderPrepNext :: handling 3 ++
    .interrupt (.rawFrame [0]) :: List.replicate 7 (.stmt .quiet) ++ [.interrupt (.rawFrame [0])]

/-- The first frame is copied to the block freed, the second one to `NULL`. -/
theorem frame_after_free : ∃ t, run sessionStep .start lateFrames = some t ∧ t.code = [] ∧
    (∃ copy ∈ t.state.copies, copy.1 = some 0 ∧ ¬ copy.2.Allocated (some 0)) ∧
    ∃ copy ∈ t.state.copies, copy.1 = none := by
  have hview : (run sessionStep .start lateFrames).map
      (fun t => (t.code.length, t.state.copies.map fun copy => (copy.1, copy.2.live))) =
        some (0, [(some 0, []), (none, [])]) := by
    decide +kernel
  obtain ⟨t, hrun, ht⟩ := Option.map_eq_some_iff.mp hview
  obtain ⟨hcode, hcopies⟩ := Prod.mk.inj ht
  refine ⟨t, hrun, List.length_eq_zero_iff.mp hcode, ?_⟩
  have hfreed : (some 0, []) ∈ t.state.copies.map fun copy => (copy.1, copy.2.live) := by
    simp [hcopies]
  have hnull : (none, []) ∈ t.state.copies.map fun copy => (copy.1, copy.2.live) := by
    simp [hcopies]
  simp only [List.mem_map, Prod.mk.injEq] at hfreed hnull
  grind [Heap.Allocated]

end Fr5080
