import Fr5080.Encoder.Msbc

/-!
# Fr5080.Encoder.Queue

The queue of encoded frames between the DMA interrupt and
`msbc_encoder_recv_frame_req`.  The loop of the task asks for the count outside
of the critical section in which it takes a frame; the interrupt may come in between.
It drops a frame only where it adds one, so a frame that was counted is there.

The queue is a `DropQueue` for 400 frames: what the task takes is what it
sends, and only the oldest of 400 frames gives way to a new one.
-/

namespace Fr5080

open Embedded

/-! ## the numbers -/

/-- The number of bytes of the frames. -/
def framesLength (frames : List (List UInt8)) : Nat := (frames.map List.length).sum

/-- A frame is not empty and fits in the heap. -/
def FrameFits (bytes : List UInt8) : Prop := 0 < bytes.length ∧ bytes.length ≤ msbcTotalHeapSize

/-- The abstract queue that the operations so far lead to. -/
def EncodedQueue.abstract (q : EncodedQueue) : DropQueue EncodedFrame :=
  DropQueue.replay msbcMaxStoredCount q.ops

@[simp]
theorem framesLength_nil : framesLength [] = 0 := rfl

@[simp]
theorem framesLength_cons (b : List UInt8) (l : List (List UInt8)) :
    framesLength (b :: l) = b.length + framesLength l := by
  simp [framesLength]

@[simp]
theorem framesLength_append (l l' : List (List UInt8)) :
    framesLength (l ++ l') = framesLength l + framesLength l' := by
  simp [framesLength]

theorem framesLength_le {l : List (List UInt8)} (h : ∀ b ∈ l, FrameFits b) :
    framesLength l ≤ l.length * msbcTotalHeapSize := by
  induction l with
  | nil => simp
  | cons b l ih =>
      have hb := (h b List.mem_cons_self).2
      have hl := ih fun b' hb' => h b' (List.mem_cons_of_mem b hb')
      rw [framesLength_cons, List.length_cons, Nat.add_mul]
      omega

/-- The length of at most 400 frames is a `UWORD32`. -/
theorem toNat_framesLength {l : List (List UInt8)} (h : ∀ b ∈ l, FrameFits b)
    (hlen : l.length ≤ 400) : (UInt32.ofNat (framesLength l)).toNat = framesLength l := by
  have hle := framesLength_le h
  have hmul := Nat.mul_le_mul_right msbcTotalHeapSize hlen
  rw [UInt32.toNat_ofNat', Nat.mod_eq_of_lt]
  exact Nat.lt_of_le_of_lt (Nat.le_trans hle hmul) (by decide)

/-! ## the queue -/

/-- The count and the length are those of the list, and the list is what the
operations lead to. -/
structure QueueInv (q : EncodedQueue) : Prop where
  count : q.frameCount = UInt32.ofNat q.frameList.length
  length : q.dataLength = UInt32.ofNat (framesLength (q.frameList.map (·.bytes)))
  fits : ∀ f ∈ q.frameList, FrameFits f.bytes
  stored : q.abstract.stored = q.frameList

variable {q q1 q2 : EncodedQueue} {frame : EncodedFrame} {s s' : MsbcEncoder}

theorem queueInv_empty : QueueInv .empty :=
  ⟨rfl, rfl, by simp [EncodedQueue.empty], rfl⟩

theorem QueueInv.length_le (h : QueueInv q) : q.frameList.length ≤ 400 := by
  rw [← h.stored]
  exact DropQueue.length_stored_le (by decide) q.ops

theorem QueueInv.toNat_count (h : QueueInv q) : q.frameCount.toNat = q.frameList.length := by
  have hle := h.length_le
  rw [h.count, UInt32.toNat_ofNat', Nat.mod_eq_of_lt (by omega)]

theorem QueueInv.toNat_length (h : QueueInv q) :
    q.dataLength.toNat = framesLength (q.frameList.map (·.bytes)) := by
  rw [h.length]
  refine toNat_framesLength ?_ (by simpa using h.length_le)
  simpa using h.fits

/-- What a frame that is popped leaves, `ops` apart. -/
theorem QueueInv.popFront (h : QueueInv q) (hpop : q.popFront = some (frame, q1)) :
    q.frameList = frame :: q1.frameList ∧ FrameFits frame.bytes ∧ q1.ops = q.ops ∧
      q1.frameCount = UInt32.ofNat q1.frameList.length ∧
      q1.dataLength = UInt32.ofNat (framesLength (q1.frameList.map (·.bytes))) := by
  unfold EncodedQueue.popFront at hpop
  split at hpop
  · cases hpop
  · next f rest hlist =>
      cases hpop
      refine ⟨hlist, h.fits frame (by simp [hlist]), rfl, ?_, ?_⟩
      · dsimp only
        rw [h.count, hlist, List.length_cons, UInt32.ofNat_add]
        exact UInt32.add_sub_cancel _ _
      · dsimp only
        rw [h.length, hlist, List.map_cons, framesLength_cons, Nat.add_comm, UInt32.ofNat_add]
        exact UInt32.add_sub_cancel _ _

/-- A frame taken by the task. -/
theorem QueueInv.take (h : QueueInv q) (hpop : q.popFront = some (frame, q1)) :
    QueueInv { q1 with ops := q.ops ++ [.take] } ∧
      EncodedQueue.abstract { q1 with ops := q.ops ++ [.take] } =
        ⟨q1.frameList, q.abstract.left ++ [(frame, .taken)]⟩ := by
  obtain ⟨hlist, hfits, hops, hcount, hlength⟩ := h.popFront hpop
  have habs : EncodedQueue.abstract { q1 with ops := q.ops ++ [.take] } =
      ⟨q1.frameList, q.abstract.left ++ [(frame, .taken)]⟩ := by
    rw [EncodedQueue.abstract, DropQueue.replay_concat]
    exact DropQueue.apply_take (h.stored.trans hlist)
  refine ⟨⟨hcount, hlength, fun f hf => h.fits f ?_, by rw [habs]⟩, habs⟩
  rw [hlist]
  exact List.mem_cons_of_mem frame hf

theorem length_pushBack
    (hlength : q.dataLength = UInt32.ofNat (framesLength (q.frameList.map (·.bytes)))) :
    (q.pushBack frame).dataLength =
      UInt32.ofNat (framesLength ((q.pushBack frame).frameList.map (·.bytes))) := by
  simp [EncodedQueue.pushBack, hlength, EncodedFrame.length, UInt32.ofNat_add]

theorem count_pushBack (hcount : q.frameCount = UInt32.ofNat q.frameList.length) :
    (q.pushBack frame).frameCount = UInt32.ofNat (q.pushBack frame).frameList.length := by
  simp [EncodedQueue.pushBack, hcount, UInt32.ofNat_add]

/-- A frame comes while there is room. -/
theorem QueueInv.pushBack (h : QueueInv q) (hfits : FrameFits frame.bytes)
    (hroom : q.frameList.length < msbcMaxStoredCount) :
    QueueInv (q.pushBack frame) ∧
      (q.pushBack frame).abstract = ⟨q.frameList ++ [frame], q.abstract.left⟩ := by
  have habs : (q.pushBack frame).abstract = ⟨q.frameList ++ [frame], q.abstract.left⟩ := by
    rw [← h.stored] at hroom ⊢
    exact (DropQueue.replay_concat _ _).trans (DropQueue.apply_put_of_lt hroom)
  refine ⟨⟨count_pushBack h.count, length_pushBack h.length, ?_, by rw [habs]; rfl⟩, habs⟩
  have := h.fits
  simp only [EncodedQueue.pushBack]
  grind

/-- A frame comes when the queue is full, and the oldest one has been dropped. -/
theorem QueueInv.dropPush {old : EncodedFrame} (h : QueueInv q)
    (hfull : msbcMaxStoredCount ≤ q.frameList.length) (hpop : q.popFront = some (old, q1))
    (hfits : FrameFits frame.bytes) :
    QueueInv (q1.pushBack frame) ∧ (q1.pushBack frame).abstract =
      ⟨q1.frameList ++ [frame], q.abstract.left ++ [(old, .displaced q.frameList)]⟩ := by
  obtain ⟨hlist, -, hops, hcount, hlength⟩ := h.popFront hpop
  have habs : (q1.pushBack frame).abstract =
      ⟨q1.frameList ++ [frame], q.abstract.left ++ [(old, .displaced q.frameList)]⟩ := by
    rw [EncodedQueue.abstract, EncodedQueue.pushBack, hops, DropQueue.replay_concat, hlist]
    exact DropQueue.apply_put_of_le (h.stored.trans hlist) (by rwa [← h.stored] at hfull)
  refine ⟨⟨count_pushBack hcount, length_pushBack hlength, ?_, by rw [habs]; rfl⟩, habs⟩
  have := h.fits
  rw [hlist] at this
  simp only [EncodedQueue.pushBack]
  grind

/-! ## the interrupt -/

/-- What the interrupt makes of the queue `q0`: nothing is taken from it, and where there was
a frame there is one. -/
structure QueueFrom (q0 q : EncodedQueue) : Prop where
  inv : QueueInv q
  taken : q.abstract.taken = q0.abstract.taken
  ne_nil : q0.frameList ≠ [] → q.frameList ≠ []

theorem QueueInv.from_self (h : QueueInv q) : QueueFrom q q := ⟨h, rfl, id⟩

theorem pushFrame_eq_some {out : List UInt8} {fits : Bool} (h : s.pushFrame out fits = some s') :
    out.length ≤ msbcTotalHeapSize ∧ s'.sent = s.sent ∧
      ∃ frame, frame.bytes = out ∧ s'.encoded = s.encoded.pushBack frame := by
  unfold MsbcEncoder.pushFrame at h
  split at h
  · next hfits =>
      cases h
      exact ⟨by omega, rfl, _, rfl, rfl⟩
  · cases h

/-- What `msbc_encoder_engine_encode` does to the queue is one `put`. -/
theorem QueueFrom.storeFrame (h : QueueFrom q s.encoded) {out : List UInt8} {fits : Bool}
    (hstore : s.storeFrame out fits = some s') : QueueFrom q s'.encoded ∧ s'.sent = s.sent := by
  unfold MsbcEncoder.storeFrame at hstore
  split at hstore
  · cases hstore
    exact ⟨h, rfl⟩
  next hout =>
  have hpos : 0 < out.length := List.length_pos_iff.mpr hout
  rw [h.inv.toNat_count] at hstore
  split at hstore
  · next hfull =>
      unfold MsbcEncoder.dropOldest at hstore
      cases hpop : s.encoded.popFront with
      | none => simp [hpop] at hstore
      | some p =>
          obtain ⟨old, q1⟩ := p
          simp only [hpop] at hstore
          obtain ⟨hle, hsent, frame, rfl, hencoded⟩ := pushFrame_eq_some hstore
          obtain ⟨hinv, habs⟩ := h.inv.dropPush hfull hpop ⟨hpos, hle⟩
          refine ⟨⟨by rwa [hencoded], ?_, by simp [hencoded, EncodedQueue.pushBack]⟩, hsent⟩
          rw [hencoded, habs, ← h.taken]
          simp [DropQueue.taken, DropQueue.takenOf]
  · next hroom =>
      obtain ⟨hle, hsent, frame, rfl, hencoded⟩ := pushFrame_eq_some hstore
      obtain ⟨hinv, habs⟩ := h.inv.pushBack ⟨hpos, hle⟩ (by omega)
      refine ⟨⟨by rwa [hencoded], ?_, by simp [hencoded, EncodedQueue.pushBack]⟩, hsent⟩
      rw [hencoded, habs, ← h.taken]
      rfl

theorem QueueFrom.engine (h : QueueFrom q s.encoded) {a : MsbcAnswer}
    (hengine : s.engine a = some s') : QueueFrom q s'.encoded ∧ s'.sent = s.sent := by
  cases a with
  | start uiInitDone consumed =>
      simp only [MsbcEncoder.engine] at hengine
      split at hengine
      · cases hengine
        exact ⟨h, rfl⟩
      · cases hengine
  | encode out fits consumed =>
      simp only [MsbcEncoder.engine] at hengine
      split at hengine
      · split at hengine
        · next s1 hstore =>
            have hkeep : QueueFrom q s1.encoded ∧ s1.sent = s.sent :=
              QueueFrom.storeFrame (s := s.use s.xaProcessHandle) h hstore
            cases hengine
            exact hkeep
        · cases hengine
      · cases hengine

/-- What the interrupt does to the queue. -/
theorem QueueInv.msbcIpcRx (h : QueueInv s.encoded) {answers : List MsbcAnswer}
    (hrx : msbcIpcRx answers s = some s') : QueueFrom s.encoded s'.encoded ∧ s'.sent = s.sent := by
  unfold Fr5080.msbcIpcRx at hrx
  split at hrx
  · refine MsbcEncoder.recvLoop_inv (P := fun _ => True)
      (I := fun s1 => QueueFrom s.encoded s1.encoded ∧ s1.sent = s.sent)
      ?_ (fun _ _ => id) (fun _ _ => id) ?_ (fun _ _ => trivial) ⟨h.from_self, rfl⟩ hrx
    · intro s1 n h1
      unfold MsbcEncoder.stage
      split <;> exact h1
    · rintro s1 a s2 - ⟨h1, hsent⟩ hengine
      obtain ⟨h2, hsent2⟩ := h1.engine hengine
      exact ⟨h2, hsent2.trans hsent⟩
  · cases hrx
    exact ⟨h.from_self, rfl⟩

/-! ## the frames that are produced -/

/-- The frame that the codec puts out, if any. -/
def MsbcAnswer.frames : MsbcAnswer → List (List UInt8)
  | .start _ _ => []
  | .encode out _ _ => if out = [] then [] else [out]

/-- The frames that the codec puts out in the interrupts. -/
def producedFrames : List MsbcEvent → List (List UInt8)
  | [] => []
  | .interrupt answers :: es => answers.flatMap MsbcAnswer.frames ++ producedFrames es
  | _ :: es => producedFrames es

/-- The frames that came into the queue. -/
def MsbcEncoder.queued (s : MsbcEncoder) : List (List UInt8) :=
  (DropQueue.puts s.encoded.ops).map (·.bytes)

/-- The frames `fs` come into the queue, and the encoder is ready as before. -/
structure Queues (fs : List (List UInt8)) (s s' : MsbcEncoder) : Prop where
  queued : s'.queued = s.queued ++ fs
  ready : s'.ready = s.ready

/-- What does not concern the queue. -/
theorem queues_of_eq (hencoded : s'.encoded = s.encoded) (hready : s'.ready = s.ready) :
    Queues [] s s' :=
  ⟨by rw [MsbcEncoder.queued, hencoded, List.append_nil]; rfl, hready⟩

/-- One part of the handler after another. -/
theorem Queues.trans {s1 : MsbcEncoder} {fs fs' : List (List UInt8)} (h : Queues fs s s1)
    (h' : Queues fs' s1 s') : Queues (fs ++ fs') s s' :=
  ⟨by rw [h'.queued, h.queued, List.append_assoc], h'.ready.trans h.ready⟩

/-- A frame is put into the queue. -/
theorem queues_pushFrame {out : List UInt8} {fits : Bool} (h : s.pushFrame out fits = some s') :
    Queues [out] s s' := by
  unfold MsbcEncoder.pushFrame at h
  split at h
  · cases h
    exact ⟨by simp [MsbcEncoder.queued, MsbcEncoder.use, EncodedQueue.pushBack, DropQueue.puts],
      rfl⟩
  · cases h

/-- The oldest frame that is dropped had been put in. -/
theorem queues_dropOldest (h : s.dropOldest = some s') : Queues [] s s' := by
  unfold MsbcEncoder.dropOldest EncodedQueue.popFront at h
  cases hlist : s.encoded.frameList with
  | nil => simp [hlist] at h
  | cons frame rest =>
      simp only [hlist, Option.some.injEq] at h
      subst h
      exact ⟨by simp [MsbcEncoder.queued], rfl⟩

/-- `if(i_out_bytes)`: the output is queued unless it is empty. -/
theorem queues_storeFrame {out : List UInt8} {fits : Bool}
    (h : s.storeFrame out fits = some s') :
    Queues (if out = [] then [] else [out]) s s' := by
  unfold MsbcEncoder.storeFrame at h
  split at h
  · next hout =>
      cases h
      rw [if_pos hout]
      exact queues_of_eq rfl rfl
  next hout =>
  rw [if_neg hout]
  split at h
  · split at h
    · next s1 hdrop => exact (queues_dropOldest hdrop).trans (queues_pushFrame h)
    · cases h
  · exact queues_pushFrame h

/-- A call of the codec. -/
theorem queues_engine {a : MsbcAnswer} (h : s.engine a = some s') : Queues a.frames s s' := by
  cases a with
  | start uiInitDone consumed =>
      simp only [MsbcEncoder.engine] at h
      split at h
      · cases h
        exact queues_of_eq rfl rfl
      · cases h
  | encode out fits consumed =>
      simp only [MsbcEncoder.engine] at h
      split at h
      · split at h
        · next s1 hstore =>
            have hqueues := queues_storeFrame hstore
            cases h
            exact ⟨hqueues.queued, hqueues.ready⟩
        · cases h
      · cases h

/-- `while(length > 0)`: each call of the codec queues what it puts out. -/
theorem queues_recvLoop {answers : List MsbcAnswer} {length : Nat}
    (h : s.recvLoop length answers = some s') :
    Queues (answers.flatMap MsbcAnswer.frames) s s' := by
  have hstage : ∀ (n : Nat) (s : MsbcEncoder), Queues [] s (s.stage n) := by
    intro n s
    unfold MsbcEncoder.stage
    split <;> exact queues_of_eq rfl rfl
  induction answers generalizing s length with
  | nil =>
      simp only [MsbcEncoder.recvLoop] at h
      split at h
      · cases h
        exact queues_of_eq rfl rfl
      · split at h
        · cases h
        · cases h
          exact ⟨(hstage length s).queued, (hstage length s).ready⟩
  | cons a as ih =>
      simp only [MsbcEncoder.recvLoop] at h
      split at h
      · split at h
        · next s1 hengine =>
            have hcall := queues_engine hengine
            have hstaged := hstage s.lastSpace s
            have hbefore : Queues a.frames s s1 :=
              ⟨hcall.queued.trans (congrArg (· ++ a.frames)
                (hstaged.queued.trans (List.append_nil _))), hcall.ready.trans hstaged.ready⟩
            have hshift : Queues [] s1 s1.shift :=
              ⟨(hstage _ s1).queued, (hstage _ s1).ready⟩
            rw [List.flatMap_cons]
            exact hbefore.trans (hshift.trans (ih h))
        · cases h
      · cases h

/-! ## the task -/

/-- At most `n` frames are copied or still to be sent, and the length counts those copied. -/
structure FrameReq.Copied (n : Nat) (v : FrameReq) : Prop where
  le : v.frames.length + v.leftFrameToSend ≤ n
  length : v.length = UInt32.ofNat (2 + framesLength v.frames)
  fits : ∀ b ∈ v.frames, FrameFits b

/-- What holds in front of a statement of `msbc_encoder_recv_frame_req`. -/
def MsbcStmt.SendAt (q : EncodedQueue) : MsbcStmt → Prop
  | .ifReady | .allocChannel => True
  | .whileLeft v | .finish v => v.Copied 4
  | .popFront v => v.Copied 4 ∧ 0 < v.leftFrameToSend ∧ q.frameList ≠ []
  | .copyFrame v frame => v.Copied 4 ∧ 0 < v.leftFrameToSend ∧ FrameFits frame.bytes
  | .freeData v _ | .freeFrame v _ => v.Copied 5 ∧ 0 < v.leftFrameToSend
  | .clearList | .freeMem _ | .clearCount | .clearReady => False

/-- The frames taken from the queue and not yet in a message. -/
def MsbcStmt.inHand : MsbcStmt → List (List UInt8)
  | .whileLeft v | .popFront v | .freeData v _ | .freeFrame v _ | .finish v => v.frames
  | .copyFrame v frame => v.frames ++ [frame.bytes]
  | .ifReady | .allocChannel | .clearList | .freeMem _ | .clearCount | .clearReady => []

/-- The task is in `msbc_encoder_recv_frame_req` or idle, and what it has taken from the queue
is sent or in its hands. -/
structure SendInv (code : List MsbcStmt) (s : MsbcEncoder) : Prop where
  queue : QueueInv s.encoded
  at_code : code = [] ∨ ∃ c, code = [c] ∧ c.SendAt s.encoded
  taken : s.encoded.abstract.taken.map (·.bytes) =
    s.sent.flatMap (·.frames) ++ code.flatMap MsbcStmt.inHand

variable {code : List MsbcStmt}

theorem sendInv_start (mems : List XaMem) (s : MsbcEncoder) : SendInv [] (msbcEncoderInit mems s) :=
  ⟨queueInv_empty, Or.inl rfl, rfl⟩

/-- The interrupt leaves the task where it is. -/
theorem SendInv.msbcIpcRx (h : SendInv code s) {answers : List MsbcAnswer}
    (hrx : msbcIpcRx answers s = some s') : SendInv code s' := by
  obtain ⟨hfrom, hsent⟩ := h.queue.msbcIpcRx hrx
  refine ⟨hfrom.inv, ?_, by rw [hfrom.taken, hsent, h.taken]⟩
  refine h.at_code.imp id fun ⟨c, hcode, hat⟩ => ⟨c, hcode, ?_⟩
  cases c with
  | popFront v => exact ⟨hat.1, hat.2.1, hfrom.ne_nil hat.2.2⟩
  | _ => exact hat

theorem FrameReq.copied_start (channel : UInt8) : (FrameReq.start channel).Copied 4 :=
  ⟨by simp [FrameReq.start, msbcSubFrameCount], rfl, by simp [FrameReq.start]⟩

/-- One more frame is copied. -/
theorem FrameReq.Copied.copy {v : FrameReq} (h : v.Copied 4) (hfits : FrameFits frame.bytes) :
    (v.copy frame).Copied 5 := by
  obtain ⟨hle, hlength, hall⟩ := h
  constructor
  · simp only [FrameReq.copy, List.length_append, List.length_singleton]
    omega
  · simp only [FrameReq.copy, hlength, EncodedFrame.length, framesLength_append, framesLength_cons,
      framesLength_nil, ← UInt32.ofNat_add]
    congr 1
    omega
  · simp only [FrameReq.copy]
    grind

theorem FrameReq.Copied.toNat_length {v : FrameReq} (h : v.Copied 4) :
    v.length.toNat = 2 + framesLength v.frames := by
  have hle := framesLength_le h.fits
  have hmul := Nat.mul_le_mul_right msbcTotalHeapSize (Nat.le_of_add_right_le h.le)
  rw [h.length, UInt32.toNat_ofNat', Nat.mod_eq_of_lt]
  exact Nat.lt_of_le_of_lt (Nat.add_le_add_left (Nat.le_trans hle hmul) 2) (by decide)

/-- Without a byte there is no frame. -/
theorem frames_eq_nil {l : List (List UInt8)} (h : ∀ b ∈ l, FrameFits b)
    (hlength : framesLength l = 0) : l = [] := by
  cases l with
  | nil => rfl
  | cons b l =>
      have := (h b List.mem_cons_self).1
      rw [framesLength_cons] at hlength
      omega

/-- Nothing is sent only when there is nothing to send. -/
theorem FrameReq.Copied.frames_eq_nil {v : FrameReq} (h : v.Copied 4) (hshort : ¬ 2 < v.length) :
    v.frames = [] := by
  refine Fr5080.frames_eq_nil h.fits ?_
  rw [UInt32.lt_iff_toNat_lt, h.toNat_length] at hshort
  simp only [UInt32.reduceToNat] at hshort
  omega

/-- A statement of `msbc_encoder_recv_frame_req`. -/
theorem SendInv.stmt {c : MsbcStmt} {cs : List MsbcStmt} {channel : UInt8}
    {r : Effect MsbcStmt Empty MsbcEncoder} (h : SendInv (c :: cs) s)
    (hexec : c.exec channel s = some r) : SendInv (r.code cs) r.state := by
  obtain ⟨hqueue, hcode | ⟨c', hcode, hat⟩, htaken⟩ := h
  · cases hcode
  obtain ⟨rfl, rfl⟩ := List.cons.inj hcode
  rw [List.flatMap_singleton] at htaken
  cases c with
  | ifReady =>
      simp only [MsbcStmt.exec, Option.some.injEq] at hexec
      subst hexec
      split
      · exact ⟨hqueue, Or.inr ⟨_, rfl, trivial⟩, htaken⟩
      · exact ⟨hqueue, Or.inl rfl, htaken⟩
  | allocChannel =>
      simp only [MsbcStmt.exec, Option.some.injEq] at hexec
      subst hexec
      split
      · exact ⟨hqueue, Or.inr ⟨_, rfl, FrameReq.copied_start channel⟩, htaken⟩
      · exact ⟨hqueue, Or.inl rfl, htaken⟩
  | whileLeft v =>
      simp only [MsbcStmt.exec, Option.some.injEq] at hexec
      subst hexec
      split
      · next hboth =>
          have hne : s.encoded.frameList ≠ [] := by
            intro hnil
            exact hboth.2 (hqueue.count.trans (by rw [hnil]; rfl))
          exact ⟨hqueue, Or.inr ⟨_, rfl, hat, by omega, hne⟩, by
            simpa [Effect.code, MsbcStmt.after, MsbcStmt.inHand] using htaken⟩
      · exact ⟨hqueue, Or.inr ⟨_, rfl, hat⟩, by
          simpa [Effect.code, MsbcStmt.after, MsbcStmt.inHand] using htaken⟩
  | popFront v =>
      obtain ⟨hcopied, hleft, -⟩ := hat
      simp only [MsbcStmt.exec] at hexec
      split at hexec
      · cases hexec
      · next frame q1 hpop =>
          cases hexec
          obtain ⟨hinv, habs⟩ := hqueue.take hpop
          obtain ⟨-, hfits, -⟩ := hqueue.popFront hpop
          refine ⟨hinv, Or.inr ⟨_, rfl, hcopied, hleft, hfits⟩, ?_⟩
          have hall : (s.encoded.abstract.taken ++ [frame]).map (·.bytes) =
              s.sent.flatMap (·.frames) ++ (v.frames ++ [frame.bytes]) := by
            rw [List.map_append, htaken]
            simp [MsbcStmt.inHand]
          simpa [MsbcStmt.after, habs, DropQueue.taken, DropQueue.takenOf, Effect.code,
            MsbcStmt.inHand] using hall
  | copyFrame v frame =>
      cases hexec
      obtain ⟨hcopied, hleft, hfits⟩ := hat
      exact ⟨hqueue, Or.inr ⟨_, rfl, hcopied.copy hfits, hleft⟩, by
        simpa [Effect.code, MsbcStmt.after, MsbcStmt.inHand, FrameReq.copy] using htaken⟩
  | freeData v frame =>
      cases hexec
      exact ⟨hqueue, Or.inr ⟨_, rfl, hat⟩, by
        simpa [Effect.code, MsbcStmt.after, MsbcStmt.inHand] using htaken⟩
  | freeFrame v frame =>
      cases hexec
      obtain ⟨⟨hle, hlength, hfits⟩, hleft⟩ := hat
      have hcopied : FrameReq.Copied 4 { v with leftFrameToSend := v.leftFrameToSend - 1 } :=
        ⟨by dsimp only; omega, hlength, hfits⟩
      exact ⟨hqueue, Or.inr ⟨_, rfl, hcopied⟩, by
        simpa [Effect.code, MsbcStmt.after, MsbcStmt.inHand] using htaken⟩
  | finish v =>
      simp only [MsbcStmt.exec, Option.some.injEq] at hexec
      subst hexec
      split
      · exact ⟨hqueue, Or.inl rfl, by
          simpa [Effect.code, MsbcEncoder.return, MsbcStmt.inHand] using htaken⟩
      · next hshort =>
          refine ⟨hqueue, Or.inl rfl, ?_⟩
          have hnil := hat.frames_eq_nil hshort
          simpa [Effect.code, MsbcEncoder.return, MsbcStmt.inHand, hnil] using htaken
  | _ => exact hat.elim

variable {t t' : MsbcTask} {e : MsbcEvent}

theorem sendInv_step (h : SendInv t.code t.state) (hcall : e ≠ .call .destroy)
    (hstep : msbcStep t e = some t') : SendInv t'.code t'.state := by
  obtain ⟨p, rfl, hcode, hcode', hstate⟩ | ⟨c, cs, channel, r, -, hcode, hexec, hcode', hstate⟩ |
    ⟨answers, -, hrx, hcode⟩ := msbcStep_cases hstep
  · have htaken := h.taken
    rw [hcode] at htaken
    rw [hcode', hstate]
    cases p with
    | recvFrameReq => exact ⟨h.queue, Or.inr ⟨_, rfl, trivial⟩, htaken⟩
    | destroy => exact absurd rfl hcall
  · rw [hcode] at h
    rw [hcode', hstate]
    exact h.stmt hexec
  · rw [hcode]
    exact h.msbcIpcRx hrx

/-- The task takes frames from the queue and puts none in, and the encoder stays ready. -/
theorem SendInv.queues_stmt {c : MsbcStmt} {cs : List MsbcStmt} {channel : UInt8}
    {r : Effect MsbcStmt Empty MsbcEncoder} (h : SendInv (c :: cs) s)
    (hexec : c.exec channel s = some r) : Queues [] s r.state := by
  obtain hcode | ⟨c', hcode, hat⟩ := h.at_code
  · cases hcode
  obtain ⟨rfl, -⟩ := List.cons.inj hcode
  cases c with
  | ifReady | allocChannel | whileLeft v | finish v =>
      simp only [MsbcStmt.exec, Option.some.injEq] at hexec
      subst hexec
      split <;> exact queues_of_eq rfl rfl
  | popFront v =>
      simp only [MsbcStmt.exec] at hexec
      split at hexec
      · cases hexec
      · cases hexec
        exact ⟨by simp [MsbcEncoder.queued, MsbcStmt.after, DropQueue.puts], rfl⟩
  | copyFrame v frame | freeData v frame | freeFrame v frame =>
      cases hexec
      exact queues_of_eq rfl rfl
  | _ => exact hat.elim

/-! ## runs -/

/-- While the encoder is ready, the frames that come into the queue are those that the codec puts
out. -/
theorem queues_run {es : List MsbcEvent} (h : SendInv t.code t.state)
    (hready : t.state.ready = true) (hcalls : .call .destroy ∉ es)
    (hrun : run msbcStep t es = some t') : Queues (producedFrames es) t.state t'.state := by
  induction es generalizing t with
  | nil =>
      cases hrun
      exact queues_of_eq rfl rfl
  | cons e es ih =>
      obtain ⟨t1, hstep, hrest⟩ := run_cons_eq_some.mp hrun
      obtain ⟨hcall, hlater⟩ := List.ne_and_not_mem_of_not_mem_cons hcalls
      have h1 := sendInv_step h (Ne.symm hcall) hstep
      obtain ⟨p, rfl, -, -, hstate⟩ | ⟨c, cs, channel, r, rfl, hcode, hexec, -, hstate⟩ |
        ⟨answers, rfl, hrx, -⟩ := msbcStep_cases hstep
      · have hqueues := ih h1 (by rw [hstate, hready]) hlater hrest
        rwa [hstate] at hqueues
      · rw [hcode] at h
        have hfirst := h.queues_stmt hexec
        rw [← hstate] at hfirst
        exact hfirst.trans (ih h1 (hfirst.ready.trans hready) hlater hrest)
      · unfold msbcIpcRx at hrx
        rw [if_pos hready] at hrx
        have hfirst := queues_recvLoop hrx
        exact hfirst.trans (ih h1 (hfirst.ready.trans hready) hlater hrest)

/-- In a session in which the MCU asks for frames and the interrupt brings them, in any order of
steps: the count and the length are those of the list, which has at most 400 frames; a frame is
there when the task takes one; the frames that come into the queue are those that the codec puts
out; and the queue is a `DropQueue`, so that the frames
taken, which are those sent and those in the hands of the task, are some of the frames produced in
their order, and a frame is lost only as the oldest of 400. -/
theorem encoded_queue_correct {mems : List XaMem} {s0 : MsbcEncoder} {es : List MsbcEvent}
    (hcalls : .call .destroy ∉ es) (hrun : run msbcStep (.start mems s0) es = some t) :
    t.state.encoded.frameCount.toNat = t.state.encoded.frameList.length ∧
      t.state.encoded.frameList.length ≤ 400 ∧
      t.state.encoded.dataLength.toNat = (t.state.encoded.frameList.map (·.bytes.length)).sum ∧
      (∀ v, .popFront v ∈ t.code → t.state.encoded.popFront ≠ none) ∧
      t.state.encoded.abstract.stored = t.state.encoded.frameList ∧
      t.state.encoded.abstract.taken.map (·.bytes) =
        t.state.sent.flatMap (·.frames) ++ t.code.flatMap MsbcStmt.inHand ∧
      (t.state.sent.flatMap (·.frames)).Sublist
        ((DropQueue.puts t.state.encoded.ops).map (·.bytes)) ∧
      t.state.encoded.abstract.left.map Prod.fst ++ t.state.encoded.frameList =
        DropQueue.puts t.state.encoded.ops ∧
      (DropQueue.puts t.state.encoded.ops).map (·.bytes) = producedFrames es ∧
      ∀ frame stored, (frame, .displaced stored) ∈ t.state.encoded.abstract.left →
        stored.length = 400 ∧ stored.head? = some frame := by
  have h : SendInv t.code t.state :=
    run_inv_of_forall (P := fun e : MsbcEvent => e ≠ .call .destroy)
      (I := fun t : MsbcTask => SendInv t.code t.state) (fun _ _ _ => sendInv_step)
      (sendInv_start mems s0) (fun e he heq => hcalls (heq ▸ he)) hrun
  have hlength := h.queue.toNat_length
  rw [framesLength, List.map_map] at hlength
  have hsent : (t.state.sent.flatMap (·.frames)).Sublist
      ((DropQueue.puts t.state.encoded.ops).map (·.bytes)) := by
    have htaken := (DropQueue.taken_sublist msbcMaxStoredCount t.state.encoded.ops).map (·.bytes)
    exact (List.sublist_append_left _ _).trans (h.taken ▸ htaken)
  have hqueues := queues_run (sendInv_start mems s0) rfl hcalls hrun
  refine ⟨h.queue.toNat_count, h.queue.length_le, hlength, ?_, h.queue.stored, h.taken, hsent, ?_,
    hqueues.queued, fun _ _ => DropQueue.displaced_full (by decide)⟩
  · intro v hv hnone
    obtain hcode | ⟨c, hcode, hat⟩ := h.at_code
    · simp [hcode] at hv
    · obtain rfl : .popFront v = c := by simpa [hcode] using hv
      have hne := hat.2.2
      unfold EncodedQueue.popFront at hnone
      split at hnone
      · next hnil => exact hne hnil
      · cases hnone
  · rw [← h.queue.stored]
    exact DropQueue.left_append_stored _ _

/-- A codec with a staging buffer of one interrupt. -/
def smallMems : List XaMem := [⟨120, .input⟩, ⟨60, .output⟩]

/-- The codec is initialised, and puts out two frames; the MCU asks for them while a third one
comes.  Afterwards the codec puts out nothing once, and then a fourth frame. -/
def threeFrames : List MsbcEvent :=
  [.interrupt [.start true (consumeUpTo 120)],
    .interrupt [.encode [1, 2, 3] true (consumeUpTo 120)],
    .interrupt [.encode [4, 5] true (consumeUpTo 120)], .call .recvFrameReq] ++
    List.replicate 4 (.stmt 1) ++ [.interrupt [.encode [6] true (consumeUpTo 120)]] ++
    List.replicate 15 (.stmt 1) ++
    [.interrupt [.encode [] true (consumeUpTo 120)],
      .interrupt [.encode [7] true (consumeUpTo 120)]]

/-- The three frames have been sent, the fourth one is still stored. -/
theorem encoded_queue_correct_three : ∃ t,
    run msbcStep (.start smallMems .zeroed) threeFrames = some t ∧
      t.state.sent.flatMap (·.frames) = [[1, 2, 3], [4, 5], [6]] ∧
      t.state.encoded.abstract.taken.map (·.bytes) =
        t.state.sent.flatMap (·.frames) ++ t.code.flatMap MsbcStmt.inHand ∧
      (DropQueue.puts t.state.encoded.ops).map (·.bytes) = [[1, 2, 3], [4, 5], [6], [7]] := by
  have hview : (run msbcStep (.start smallMems .zeroed) threeFrames).map
      (fun t => t.state.sent.flatMap (·.frames)) = some [[1, 2, 3], [4, 5], [6]] := by
    decide +kernel
  obtain ⟨t, hrun, hsent⟩ := Option.map_eq_some_iff.mp hview
  obtain ⟨-, -, -, -, -, htaken, -, -, hputs, -⟩ :=
    encoded_queue_correct (by simp [threeFrames]) hrun
  exact ⟨t, hrun, hsent, htaken, hputs⟩

end Fr5080
