import Mathlib.Data.List.SplitLengths
import Fr5080.Decoder.Session
import Fr5080.Embedded.Word
import Fr5080.Encoder.Sbc
import Fr5080.Ipc.Run

/-!
# Fr5080.Encoder.SbcPacket

The output side of the SBC encoder (`sbc_encoder.c` in `fr5080_user_code_xip`):
`sbc_encoder_recv_frame_req` puts up to five frames in a message to the MCU, behind a
16-bit word with the length of a frame.

The channel is allocated for 300 bytes whatever the frames are, and nothing compares what
is copied with the 512 bytes of its buffer.

`stores` is a history variable.
-/

namespace Fr5080.Pcm

open Embedded

/-! ## data -/

/-- The messages that the encoder inserts into the task queue. -/
inductive SbcTask
  | decoderPrepareForNext
  | mp3DecoderDoDecode
deriving DecidableEq, Repr

/-- The variables of `sbc_encoder.c` that the output side uses, the driver and the task queue.
`stores` are the bytes stored into the buffer of a channel, with their addresses. -/
structure SbcSender where
  ready : Bool
  prepForNext : Bool
  queue : SbcQueue
  ipc : Ipc
  tasks : List SbcTask
  stores : List (Nat × List UInt8)

/-- `SBC_A2DP_FRAME_LENGTH`. -/
def sbcA2dpFrameLength : UInt16 := 300

/-- The bytes of a payload buffer of the driver. -/
def ipcBufferSize : Nat := 512

/-! ## the code -/

/-- `co_list_pop_front` and the numbers.  Without a frame there is none, and `frame->length`
faults. -/
def SbcQueue.popFront (q : SbcQueue) : Option (SbcFrame × SbcQueue) :=
  match q.frameList with
  | [] => none
  | frame :: rest => some (frame, {
      frameList := rest
      frameCount := q.frameCount - 1
      dataLength := q.dataLength - frame.length })

/-- Bytes are stored into the exchange memory. -/
def SbcSender.store (address : Nat) (bytes : List UInt8) (s : SbcSender) : SbcSender :=
  { s with
    ipc := { s.ipc with shm := Embedded.store s.ipc.shm address bytes }
    stores := s.stores ++ [(address, bytes)] }

/-- `while((left_frame_to_send) && (sbc_encoder_encoded_frame_count))`; `length` is returned. -/
def sbcFrameLoop (singleFrameLen : Nat) :
    Nat → Nat → UInt32 → SbcSender → Option (UInt32 × SbcSender)
  | 0, _, length, s => some (length, s)
  | leftFrameToSend + 1, buffer, length, s =>
      if s.queue.frameCount = 0 then some (length, s)
      else match s.queue.popFront with
        | none => none
        | some (frame, queue) =>
            sbcFrameLoop singleFrameLen leftFrameToSend (buffer + frame.length.toNat)
              (length + frame.length)
              ((({ s with queue := queue } : SbcSender).store buffer frame.data).store
                singleFrameLen (bytes16 frame.length.toUInt16))

/-- `if(length > 2)`: the message is inserted, or the channel is freed. -/
def SbcSender.finish (channel : Nat) (length : UInt32) (s : SbcSender) : SbcSender :=
  if 2 < length then
    let ipc := s.ipc.submit (ipcInsertSubmission sbcA2dpFrameLength channel
      IpcMsgType.encodedSbcFrame.code length.toUInt16 none s.ipc)
    { s with
      ipc := ipcInsertMsg s.ipc.nextTicket channel IpcMsgType.encodedSbcFrame.code
        length.toUInt16 none ipc }
  else
    let s := { s with ipc := ipcFreeChannel channel s.ipc }
    if s.prepForNext then
      { s with ready := false, tasks := s.tasks ++ [.decoderPrepareForNext] }
    else s

/-- The body of `if(channel != 0xff)`. -/
def SbcSender.sendFrames (channel : Nat) (s : SbcSender) : Option SbcSender :=
  let buffer := ipcGetBufferOffset .dsp2mcu channel
  (sbcFrameLoop buffer sbcA2dpSubFrameCount (buffer + 2) 2 s).map fun (length, s) =>
    s.finish channel length

/-- The end of the function: the decoder is to bring more. -/
def SbcSender.requestMore (s : SbcSender) : SbcSender :=
  if s.ready ∧ s.queue.frameCount.toNat < sbcA2dpSubFrameCount then
    { s with tasks := s.tasks ++ [.mp3DecoderDoDecode] }
  else s

/-- `sbc_encoder_recv_frame_req`. -/
def sbcEncoderRecvFrameReq (s : SbcSender) : Option SbcSender :=
  if s.ready = false then some s
  else
    let (channel, ipc) := ipcAllocChannel sbcA2dpFrameLength s.ipc
    let s := { s with ipc := ipc }
    let sent := if channel ≠ 0xff then s.sendFrames channel else some s
    sent.map SbcSender.requestMore

/-! ## what the message is for -/

/-- The frames that the MCU finds in a message: it splits the bytes behind the header by the value
of the header. -/
def sbcPacketFrames (m : IpcTransmission) : List (List UInt8) :=
  let buffer := ipcGetBufferOffset .dsp2mcu m.chn
  let frameLength := (word16 m.shm buffer).toNat
  let bytes := slice m.shm (buffer + 2) (m.msg.length - 2)
  (List.replicate (bytes.length / frameLength) frameLength).splitLengths bytes

/-- The channel that `ipc_alloc_channel` finds. -/
def SbcSender.channel (s : SbcSender) : Nat := (ipcAllocChannel sbcA2dpFrameLength s.ipc).1

/-- The call builds a message. -/
def SbcSender.Builds (s : SbcSender) : Prop :=
  s.ready = true ∧ s.channel ≠ 0xff ∧ s.queue.frameList ≠ []

/-- The number of frames in the message. -/
def SbcSender.batch (s : SbcSender) : Nat := min sbcA2dpSubFrameCount s.queue.frameList.length

/-- The message of the frames of `L` bytes at the front of the queue is in its buffer, and
gives these frames back. -/
structure SbcPacketSent (L : Nat) (s s' : SbcSender) : Prop where
  inside : ∃ stores, s'.stores = s.stores ++ stores ∧ ∀ w ∈ stores,
    ipcGetBufferOffset .dsp2mcu s.channel ≤ w.1 ∧
      w.1 + w.2.length ≤ ipcGetBufferOffset .dsp2mcu s.channel + ipcBufferSize
  sent : ∃ m, s'.ipc.log.sent = s.ipc.log.sent ++ [m] ∧ m.chn = s.channel ∧
    m.msg.length = 2 + s.batch * L ∧
    sbcPacketFrames m = (s.queue.frameList.take s.batch).map (·.data)
  queue : s'.queue = {
    frameList := s.queue.frameList.drop s.batch
    frameCount := s.queue.frameCount - UInt32.ofNat s.batch
    dataLength := s.queue.dataLength - UInt32.ofNat (s.batch * L) }

/-- The count is that of the list. -/
def SbcQueue.Counted (q : SbcQueue) : Prop := q.frameCount.toNat = q.frameList.length

/-! ## the loop -/

/-- The bytes of frames. -/
def sbcFrameBytes (frames : List SbcFrame) : List UInt8 := frames.flatMap (·.data)

/-- What the loop stores for frames: each behind those before it, and then its length in front. -/
def packetStores (singleFrameLen : Nat) : Nat → List SbcFrame → List (Nat × List UInt8)
  | _, [] => []
  | buffer, frame :: frames =>
      (buffer, frame.data) :: (singleFrameLen, bytes16 frame.length.toUInt16) ::
        packetStores singleFrameLen (buffer + frame.data.length) frames

/-- The memory after stores. -/
def storeAll (m : Nat → UInt8) (stores : List (Nat × List UInt8)) : Nat → UInt8 :=
  stores.foldl (fun m w => Embedded.store m w.1 w.2) m

variable {s s' : SbcSender} {frame : SbcFrame} {frames : List SbcFrame} {q q' : SbcQueue} {L : Nat}

theorem SbcFrame.length_ofNat (frame : SbcFrame) :
    frame.length = UInt32.ofNat frame.data.length := by
  rw [← frame.length_eq, UInt32.ofNat_toNat]

/-- The number of bytes as the code adds it up. -/
theorem SbcFrame.length_sbcFrameBytes (frame : SbcFrame) (frames : List SbcFrame) :
    UInt32.ofNat (sbcFrameBytes (frame :: frames)).length =
      frame.length + UInt32.ofNat (sbcFrameBytes frames).length := by
  rw [sbcFrameBytes, List.flatMap_cons, List.length_append, UInt32.ofNat_add,
    ← frame.length_ofNat, sbcFrameBytes]

theorem SbcQueue.Counted.popFront (h : q.Counted) (hlist : q.frameList = frame :: frames) :
    q.popFront = some (frame, ⟨frames, q.frameCount - 1, q.dataLength - frame.length⟩) ∧
      SbcQueue.Counted ⟨frames, q.frameCount - 1, q.dataLength - frame.length⟩ := by
  constructor
  · rw [SbcQueue.popFront, hlist]
  · rw [Counted, hlist, List.length_cons] at h
    rw [Counted, UInt32.toNat_sub_of_le _ _ (by rw [UInt32.le_iff_toNat_le, h]; simp), h]
    simp

/-- The state when `frames` are copied to `buffer` and `rest` are left. -/
def SbcSender.copied (hdr buffer : Nat) (frames rest : List SbcFrame) (s : SbcSender) :
    SbcSender :=
  { s with
    queue := {
      frameList := rest
      frameCount := s.queue.frameCount - UInt32.ofNat frames.length
      dataLength := s.queue.dataLength - UInt32.ofNat (sbcFrameBytes frames).length }
    ipc := { s.ipc with shm := storeAll s.ipc.shm (packetStores hdr buffer frames) }
    stores := s.stores ++ packetStores hdr buffer frames }

theorem SbcSender.copied_nil (hlist : s.queue.frameList = frames) (hdr buffer : Nat) :
    s.copied hdr buffer [] frames = s := by
  subst hlist
  simp [copied, sbcFrameBytes, packetStores, storeAll]

/-- One frame is copied, and then the others. -/
theorem SbcSender.copied_cons (hdr buffer : Nat) (frame : SbcFrame)
    (list frames rest : List SbcFrame) :
    ((({ s with queue := ⟨list, s.queue.frameCount - 1, s.queue.dataLength - frame.length⟩ } :
        SbcSender).store buffer frame.data).store hdr (bytes16 frame.length.toUInt16)).copied
      hdr (buffer + frame.length.toNat) frames rest =
    s.copied hdr buffer (frame :: frames) rest := by
  have hcount : s.queue.frameCount - 1 - UInt32.ofNat frames.length =
      s.queue.frameCount - UInt32.ofNat (frame :: frames).length := by
    rw [List.length_cons, UInt32.ofNat_add]
    grind
  have hlength : s.queue.dataLength - frame.length - UInt32.ofNat (sbcFrameBytes frames).length =
      s.queue.dataLength - UInt32.ofNat (sbcFrameBytes (frame :: frames)).length := by
    rw [frame.length_sbcFrameBytes]
    grind
  simp only [copied, SbcSender.store, packetStores, storeAll, frame.length_eq, List.foldl_cons,
    List.append_assoc, List.cons_append, List.nil_append, hcount, hlength]

/-- The loop takes the frames at the front of the queue and copies them. -/
theorem sbcFrameLoop_eq (h : s.queue.Counted) (hdr left buffer : Nat) (length : UInt32) :
    sbcFrameLoop hdr left buffer length s = some
      (length + UInt32.ofNat (sbcFrameBytes (s.queue.frameList.take left)).length,
        s.copied hdr buffer (s.queue.frameList.take left) (s.queue.frameList.drop left)) := by
  induction left generalizing s buffer length with
  | zero =>
      rw [List.take_zero, List.drop_zero, SbcSender.copied_nil rfl]
      simp [sbcFrameLoop, sbcFrameBytes]
  | succ left ih =>
      rw [sbcFrameLoop]
      cases hlist : s.queue.frameList with
      | nil =>
          have hzero : s.queue.frameCount = 0 := by
            rw [SbcQueue.Counted, hlist] at h
            exact UInt32.toNat_inj.mp h
          rw [if_pos hzero, List.take_nil, List.drop_nil, SbcSender.copied_nil hlist]
          simp [sbcFrameBytes]
      | cons frame frames =>
          have hne : s.queue.frameCount ≠ 0 := by
            intro hzero
            rw [SbcQueue.Counted, hlist, hzero] at h
            cases h
          obtain ⟨hpop, hcounted⟩ := h.popFront hlist
          rw [if_neg hne, hpop]
          simp only []
          rw [ih hcounted, SbcSender.copied_cons, List.take_succ_cons, List.drop_succ_cons,
            frame.length_sbcFrameBytes, UInt32.add_assoc]
          rfl

/-! ## the stores -/

/-- The bytes of frames of one length. -/
theorem length_sbcFrameBytes (hall : ∀ f ∈ frames, f.data.length = L) :
    (sbcFrameBytes frames).length = frames.length * L := by
  induction frames with
  | nil => simp [sbcFrameBytes]
  | cons frame frames ih =>
      have hrest := ih fun f hf => hall f (List.mem_cons_of_mem frame hf)
      have hframe := hall frame List.mem_cons_self
      rw [sbcFrameBytes] at hrest ⊢
      rw [List.flatMap_cons, List.length_append, hrest, hframe, List.length_cons, Nat.add_mul,
        Nat.one_mul, Nat.add_comm]

/-- A store is one of the length in front, or one of a frame. -/
theorem mem_packetStores {hdr buffer : Nat} {w : Nat × List UInt8}
    (hw : w ∈ packetStores hdr buffer frames) :
    w.1 = hdr ∧ w.2.length = 2 ∨
      buffer ≤ w.1 ∧ w.1 + w.2.length ≤ buffer + (sbcFrameBytes frames).length := by
  induction frames generalizing buffer with
  | nil => cases hw
  | cons frame frames ih =>
      rw [packetStores, List.mem_cons, List.mem_cons] at hw
      rw [sbcFrameBytes, List.flatMap_cons, List.length_append]
      obtain rfl | rfl | hw := hw
      · exact .inr ⟨Nat.le_refl _, by simp only; omega⟩
      · exact .inl ⟨rfl, rfl⟩
      · refine (ih hw).imp_right fun ⟨hle, hend⟩ => ?_
        rw [sbcFrameBytes] at hend
        omega

/-- The last frame ends where all the frames do. -/
theorem exists_packetStores_end (hne : frames ≠ []) (hdr buffer : Nat) :
    ∃ w ∈ packetStores hdr buffer frames,
      w.1 + w.2.length = buffer + (sbcFrameBytes frames).length := by
  induction frames generalizing buffer with
  | nil => exact absurd rfl hne
  | cons frame frames ih =>
      rw [packetStores, sbcFrameBytes, List.flatMap_cons, List.length_append]
      by_cases hlast : frames = []
      · exact ⟨_, List.mem_cons_self, by simp [hlast]⟩
      · obtain ⟨w, hw, hend⟩ := ih hlast (buffer + frame.data.length)
        refine ⟨w, List.mem_cons_of_mem _ (List.mem_cons_of_mem _ hw), ?_⟩
        rw [hend, sbcFrameBytes, Nat.add_assoc]

/-- Behind `done` bytes of frames: those of the others follow, and the length is in front. -/
theorem storeAll_packetStores (hall : ∀ f ∈ frames, f.data.length = L) (m : Nat → UInt8)
    (hdr : Nat) {header : List UInt8} (hheader : header.length = 2) (done : List UInt8) :
    storeAll (store m hdr (header ++ done)) (packetStores hdr (hdr + 2 + done.length) frames) =
      store m hdr ((if frames = [] then header else bytes16 (UInt16.ofNat L)) ++
        (done ++ sbcFrameBytes frames)) := by
  induction frames generalizing header done with
  | nil => simp [packetStores, storeAll, sbcFrameBytes]
  | cons frame frames ih =>
      have hframe : frame.length.toUInt16 = UInt16.ofNat L := by
        rw [frame.length_ofNat, hall frame List.mem_cons_self, UInt32.toUInt16_ofNat']
      have hstart : hdr + 2 + done.length = hdr + (header ++ done).length := by
        rw [List.length_append, hheader, Nat.add_assoc]
      have hnext := ih (fun f hf => hall f (List.mem_cons_of_mem frame hf))
        (length_bytes16 (UInt16.ofNat L)) (done ++ frame.data)
      rw [packetStores, storeAll, List.foldl_cons, List.foldl_cons, hframe, hstart,
        store_store_append, List.append_assoc, store_store_front _ _ (by rw [hheader]; rfl)]
      have hnew : hdr + (header ++ done).length + frame.data.length =
          hdr + 2 + (done ++ frame.data).length := by
        rw [List.length_append, List.length_append]
        omega
      rw [← storeAll, hnew]
      refine hnext.trans ?_
      simp [sbcFrameBytes]

/-- What is behind the length is split into the frames again. -/
theorem splitLengths_sbcFrameBytes (hall : ∀ f ∈ frames, f.data.length = L) :
    (List.replicate frames.length L).splitLengths (sbcFrameBytes frames) =
      frames.map (·.data) := by
  induction frames with
  | nil => rfl
  | cons frame frames ih =>
      have hframe := hall frame List.mem_cons_self
      have hrest := ih fun f hf => hall f (List.mem_cons_of_mem frame hf)
      rw [List.length_cons, List.replicate_succ, List.splitLengths_cons, List.map_cons,
        sbcFrameBytes, List.flatMap_cons, List.take_left' hframe, List.drop_left' hframe,
        ← sbcFrameBytes, hrest]

/-! ## the call -/

theorem SbcSender.take_batch :
    s.queue.frameList.take s.batch = s.queue.frameList.take sbcA2dpSubFrameCount := by
  rw [List.take_eq_take_iff, batch]
  omega

theorem SbcSender.drop_batch :
    s.queue.frameList.drop s.batch = s.queue.frameList.drop sbcA2dpSubFrameCount := by
  rw [List.drop_eq_drop_iff, batch]
  omega

/-- Where the message goes. -/
def SbcSender.packetBuffer (s : SbcSender) : Nat := ipcGetBufferOffset .dsp2mcu s.channel

/-- The frames of the message. -/
def SbcSender.packet (s : SbcSender) : List SbcFrame := s.queue.frameList.take s.batch

theorem SbcSender.length_packet : s.packet.length = s.batch := by
  rw [packet, List.length_take, batch]
  omega

theorem SbcSender.Builds.packet_ne_nil (h : s.Builds) : s.packet ≠ [] := by
  have hpos := List.length_pos_iff.mpr h.2.2
  rw [← List.length_pos_iff, length_packet, batch, sbcA2dpSubFrameCount]
  omega

/-- The state when the frames are copied. -/
def SbcSender.filled (s : SbcSender) : SbcSender :=
  ({ s with ipc := (ipcAllocChannel sbcA2dpFrameLength s.ipc).2 } : SbcSender).copied
    s.packetBuffer (s.packetBuffer + 2) s.packet (s.queue.frameList.drop s.batch)

/-- A call with a channel, whether there are frames or not. -/
theorem sbcEncoderRecvFrameReq_eq (h : s.queue.Counted) (hready : s.ready = true)
    (hchannel : s.channel ≠ 0xff) :
    sbcEncoderRecvFrameReq s = some
      (s.filled.finish s.channel
        (2 + UInt32.ofNat (sbcFrameBytes s.packet).length)).requestMore := by
  have hloop := sbcFrameLoop_eq
    (s := { s with ipc := (ipcAllocChannel sbcA2dpFrameLength s.ipc).2 }) h s.packetBuffer
    sbcA2dpSubFrameCount (s.packetBuffer + 2) 2
  simp only [← SbcSender.take_batch, ← SbcSender.drop_batch] at hloop
  have hsend := congrArg (Option.map fun p => p.2.finish s.channel p.1) hloop
  have hif : (ipcAllocChannel sbcA2dpFrameLength s.ipc).1 ≠ 0xff := hchannel
  rw [sbcEncoderRecvFrameReq, if_neg (by simp [hready])]
  simp only []
  rw [if_pos hif]
  exact congrArg (Option.map SbcSender.requestMore) hsend

/-- The end of the function only changes the task queue. -/
theorem SbcSender.requestMore_eq (s : SbcSender) :
    ∃ tasks, s.requestMore = { s with tasks := tasks } := by
  unfold requestMore
  split
  · exact ⟨_, rfl⟩
  · exact ⟨s.tasks, rfl⟩

/-- Without a message the channel is freed. -/
theorem SbcSender.finish_of_le {length : UInt32} (hshort : ¬ 2 < length) (channel : Nat)
    (s : SbcSender) : ∃ ready tasks, s.finish channel length =
      { s with ready := ready, tasks := tasks, ipc := ipcFreeChannel channel s.ipc } := by
  rw [finish, if_neg hshort]
  simp only []
  split
  · exact ⟨_, _, rfl⟩
  · exact ⟨_, _, rfl⟩

/-- Whether the message is inserted or not, the queue and the stores are those of the loop. -/
theorem SbcSender.finish_frame (channel : Nat) (length : UInt32) (s : SbcSender) :
    (s.finish channel length).requestMore.queue = s.queue ∧
      (s.finish channel length).requestMore.stores = s.stores := by
  obtain ⟨tasks, heq⟩ := (s.finish channel length).requestMore_eq
  by_cases hlong : 2 < length
  · rw [heq, finish, if_pos hlong]
    exact ⟨rfl, rfl⟩
  · obtain ⟨_, _, hfree⟩ := s.finish_of_le hlong channel
    rw [heq, hfree]
    exact ⟨rfl, rfl⟩

/-- The message that is inserted. -/
theorem SbcSender.sent_finish {length : UInt32} (hlong : 2 < length) (channel : Nat)
    (s : SbcSender) : (s.finish channel length).requestMore.ipc.log.sent = s.ipc.log.sent ++
      [⟨s.ipc.nextTicket, channel,
        ipcMsgWord channel IpcMsgType.encodedSbcFrame.code length.toUInt16, s.ipc.shm,
        s.ipc.log.flight channel⟩] := by
  obtain ⟨tasks, heq⟩ := (s.finish channel length).requestMore_eq
  rw [heq, finish, if_pos hlong]
  rfl

theorem ipcAllocChannel_log (length : UInt16) (s : Ipc) :
    (ipcAllocChannel length s).2.log = s.log := by
  obtain ⟨c, _, _, heq⟩ | ⟨_, heq⟩ := ipcAllocChannel_cases length s
  · rw [heq]
  · rw [heq]

theorem SbcSender.sent_filled (s : SbcSender) : s.filled.ipc.log.sent = s.ipc.log.sent :=
  congrArg IpcLog.sent (ipcAllocChannel_log _ _)

/-- Without a message the queue is as it was. -/
theorem sbcEncoderRecvFrameReq_of_not_builds (h : s.queue.Counted) (hnot : ¬ s.Builds) :
    ∃ s', sbcEncoderRecvFrameReq s = some s' ∧ s'.queue = s.queue ∧
      s'.ipc.log.sent = s.ipc.log.sent := by
  by_cases hready : s.ready = true
  · by_cases hchannel : s.channel = 0xff
    · obtain ⟨tasks, heq⟩ := ({ s with ipc := (ipcAllocChannel sbcA2dpFrameLength s.ipc).2 } :
        SbcSender).requestMore_eq
      have hif : ¬ (ipcAllocChannel sbcA2dpFrameLength s.ipc).1 ≠ 0xff := not_not.mpr hchannel
      rw [sbcEncoderRecvFrameReq, if_neg (by simp [hready])]
      simp only []
      rw [if_neg hif, Option.map_some, heq]
      exact ⟨_, rfl, rfl, by simp only [ipcAllocChannel_log]⟩
    · have hnil : s.queue.frameList = [] := by
        by_contra hne
        exact hnot ⟨hready, hchannel, hne⟩
      have hpacket : s.packet = [] := by rw [SbcSender.packet, hnil, List.take_nil]
      refine ⟨_, sbcEncoderRecvFrameReq_eq h hready hchannel, ?_, ?_⟩
      · rw [(SbcSender.finish_frame _ _ _).1, SbcSender.filled, hpacket,
          SbcSender.copied_nil (by rw [hnil, List.drop_nil])]
      · obtain ⟨tasks, heq⟩ := SbcSender.requestMore_eq
          (s.filled.finish s.channel (2 + UInt32.ofNat (sbcFrameBytes s.packet).length))
        have hshort : ¬ 2 < 2 + UInt32.ofNat (sbcFrameBytes s.packet).length := by
          simp [hpacket, sbcFrameBytes]
        obtain ⟨_, _, hfree⟩ := s.filled.finish_of_le hshort s.channel
        rw [heq, hfree]
        exact s.sent_filled
  · refine ⟨s, ?_, rfl, rfl⟩
    rw [sbcEncoderRecvFrameReq, if_pos (by simpa using hready)]

section

variable (hall : ∀ f ∈ s.queue.frameList, f.data.length = L)

include hall

theorem SbcSender.data_length_packet : ∀ f ∈ s.packet, f.data.length = L :=
  fun f hf => hall f (List.mem_of_mem_take hf)

theorem SbcSender.length_bytes_packet : (sbcFrameBytes s.packet).length = s.batch * L := by
  rw [length_sbcFrameBytes (SbcSender.data_length_packet hall), length_packet]

/-- The memory when the frames are copied. -/
theorem SbcSender.Builds.shm_filled (hb : s.Builds) : s.filled.ipc.shm =
    Embedded.store (ipcAllocChannel sbcA2dpFrameLength s.ipc).2.shm s.packetBuffer
      (bytes16 (UInt16.ofNat L) ++ sbcFrameBytes s.packet) := by
  have hstores := storeAll_packetStores (SbcSender.data_length_packet hall)
    (ipcAllocChannel sbcA2dpFrameLength s.ipc).2.shm s.packetBuffer
    (length_slice (ipcAllocChannel sbcA2dpFrameLength s.ipc).2.shm s.packetBuffer 2) []
  rw [List.append_nil, if_neg hb.packet_ne_nil, List.nil_append, ← memcpy, memcpy_self] at hstores
  exact hstores

/-- The frames in a message made of the memory then. -/
theorem SbcSender.Builds.sbcPacketFrames_eq (hb : s.Builds) (hL : 0 < L)
    (hfit : 2 + s.batch * L ≤ ipcBufferSize) {m : IpcTransmission} (hchn : m.chn = s.channel)
    (hshm : m.shm = s.filled.ipc.shm) (hlength : m.msg.length = 2 + s.batch * L) :
    sbcPacketFrames m = s.packet.map (·.data) := by
  have hbatch : 0 < s.batch := by
    rw [← SbcSender.length_packet]
    exact List.length_pos_iff.mpr hb.packet_ne_nil
  have hle : L ≤ s.batch * L := Nat.le_mul_of_pos_left L hbatch
  have hword : (UInt16.ofNat L).toNat = L := by
    rw [UInt16.toNat_ofNat', Nat.mod_eq_of_lt]
    rw [ipcBufferSize] at hfit
    omega
  have hbytes : slice (Embedded.store (ipcAllocChannel sbcA2dpFrameLength s.ipc).2.shm
      s.packetBuffer (bytes16 (UInt16.ofNat L) ++ sbcFrameBytes s.packet)) (s.packetBuffer + 2)
      (s.batch * L) = sbcFrameBytes s.packet := by
    rw [← store_store_append, length_bytes16, ← SbcSender.length_bytes_packet hall,
      slice_store_self]
  have hsplit := splitLengths_sbcFrameBytes (SbcSender.data_length_packet hall)
  rw [SbcSender.length_packet] at hsplit
  simp only [sbcPacketFrames, hchn, hshm, hlength, hb.shm_filled hall]
  rw [← SbcSender.packetBuffer, word16_store_bytes16, hword, Nat.add_sub_cancel_left, hbytes,
    SbcSender.length_bytes_packet hall, Nat.mul_div_cancel _ hL, hsplit]

/-- The frames and the message fit in the buffer. -/
theorem SbcSender.Builds.packetSent (hb : s.Builds) (h : s.queue.Counted) (hL : 0 < L)
    (hfit : 2 + s.batch * L ≤ ipcBufferSize) (hcall : sbcEncoderRecvFrameReq s = some s') :
    SbcPacketSent L s s' := by
  rw [sbcEncoderRecvFrameReq_eq h hb.1 hb.2.1, Option.some.injEq] at hcall
  obtain ⟨hqueue, hstores⟩ := SbcSender.finish_frame s.channel
    (2 + UInt32.ofNat (sbcFrameBytes s.packet).length) s.filled
  rw [hcall] at hqueue hstores
  have hlen := SbcSender.length_bytes_packet hall
  have hfit' := hfit
  rw [ipcBufferSize] at hfit'
  constructor
  · refine ⟨_, hstores, fun w hw => ?_⟩
    have hw := mem_packetStores hw
    rw [hlen] at hw
    rw [← SbcSender.packetBuffer, ipcBufferSize]
    omega
  · have hpos : 0 < s.batch * L := by
      refine Nat.mul_pos ?_ hL
      rw [← SbcSender.length_packet]
      exact List.length_pos_iff.mpr hb.packet_ne_nil
    have hsum : (2 + UInt32.ofNat (s.batch * L)).toNat = 2 + s.batch * L := by
      rw [UInt32.toNat_add, UInt32.toNat_ofNat']
      simp only [UInt32.reduceToNat]
      omega
    have hlong : 2 < 2 + UInt32.ofNat (s.batch * L) := by
      rw [UInt32.lt_iff_toNat_lt, hsum]
      simp only [UInt32.reduceToNat]
      omega
    have hlength : (ipcMsgWord s.channel IpcMsgType.encodedSbcFrame.code
        (2 + UInt32.ofNat (s.batch * L)).toUInt16).length = 2 + s.batch * L := by
      rw [ipcMsgWord]
      simp only [UInt32.toNat_toUInt16, hsum]
      omega
    have hsent := SbcSender.sent_finish hlong s.channel s.filled
    rw [← hlen, hcall, SbcSender.sent_filled] at hsent
    exact ⟨_, hsent, rfl, by rwa [hlen], hb.sbcPacketFrames_eq hall hL hfit rfl rfl (by rwa [hlen])⟩
  · rw [hqueue]
    simp only [SbcSender.filled, SbcSender.copied, SbcSender.length_packet, hlen]

/-- Otherwise the last frame ends behind the buffer. -/
theorem SbcSender.Builds.not_packetSent (hb : s.Builds) (h : s.queue.Counted)
    (hlong : ipcBufferSize < 2 + s.batch * L) (hcall : sbcEncoderRecvFrameReq s = some s') :
    ¬ SbcPacketSent L s s' := by
  rintro ⟨⟨stores, hnew, hinside⟩, -, -⟩
  rw [sbcEncoderRecvFrameReq_eq h hb.1 hb.2.1, Option.some.injEq] at hcall
  rw [← hcall, (SbcSender.finish_frame _ _ _).2] at hnew
  have hstores := List.append_cancel_left hnew
  obtain ⟨w, hw, hend⟩ :=
    exists_packetStores_end hb.packet_ne_nil s.packetBuffer (s.packetBuffer + 2)
  have hle := (hinside w (hstores ▸ hw)).2
  rw [SbcSender.length_bytes_packet hall] at hend
  rw [← SbcSender.packetBuffer] at hle
  omega

end

/-- **SBC packet**: for frames of one length the message is inside its buffer, has the right length
and gives the first frames back, exactly when it has at most 512 bytes.  When no message is
built, no frame is taken. -/
theorem sbc_packet_round_trip_iff (h : s.queue.Counted) (hL : 0 < L)
    (hall : ∀ f ∈ s.queue.frameList, f.data.length = L) :
    ∃ s', sbcEncoderRecvFrameReq s = some s' ∧
      (¬ s.Builds → s'.queue = s.queue ∧ s'.ipc.log.sent = s.ipc.log.sent) ∧
      ((s.Builds → SbcPacketSent L s s') ↔ (s.Builds → 2 + s.batch * L ≤ ipcBufferSize)) := by
  by_cases hb : s.Builds
  · have hcall := sbcEncoderRecvFrameReq_eq h hb.1 hb.2.1
    refine ⟨_, hcall, fun hnot => absurd hb hnot, ?_⟩
    constructor
    · intro hsent _
      by_contra hlong
      exact hb.not_packetSent hall h (Nat.not_le.mp hlong) hcall (hsent hb)
    · intro hfit _
      exact hb.packetSent hall h hL (hfit hb) hcall
  · obtain ⟨s', hcall, hkept⟩ := sbcEncoderRecvFrameReq_of_not_builds h hb
    exact ⟨s', hcall, fun _ => hkept, by simp [hb]⟩

/-- The encoder with `n` equal frames in its queue, and the driver after `ipc_init`. -/
def senderOf (n : Nat) (frame : SbcFrame) : SbcSender where
  ready := true
  prepForNext := false
  queue := (List.replicate n frame).foldl (fun q frame => q.pushBack frame) .empty
  ipc := (ipcStart (fun _ => 0) (fun _ => 0) fun _ => ⟨0, 0, 0, 0⟩).ipc
  tasks := []
  stores := []

/-- A frame of three bytes. -/
def shortFrame : SbcFrame := ⟨[0x9c, 1, 2], 3, rfl⟩

/-- A frame as long as one with 8 subbands, 16 blocks, joint stereo and a bit pool of 53. -/
def longFrame : SbcFrame := ⟨List.replicate 119 0x9c, 119, rfl⟩

/-- Seven short frames: five are sent. -/
theorem sbc_packet_round_trip_iff_short : ∃ s', sbcEncoderRecvFrameReq (senderOf 7 shortFrame) =
    some s' ∧ SbcPacketSent 3 (senderOf 7 shortFrame) s' := by
  obtain ⟨s', hcall, -, hiff⟩ := sbc_packet_round_trip_iff (s := senderOf 7 shortFrame) (L := 3)
    (by unfold SbcQueue.Counted; decide) (by decide) (by decide)
  exact ⟨s', hcall, hiff.mpr (fun _ => by decide) (by unfold SbcSender.Builds; decide)⟩

/-- Five frames of 119 bytes: the last one ends 85 bytes behind the buffer. -/
theorem sbc_packet_overruns : ∃ s', sbcEncoderRecvFrameReq (senderOf 5 longFrame) = some s' ∧
    (senderOf 5 longFrame).Builds ∧ ¬ SbcPacketSent 119 (senderOf 5 longFrame) s' := by
  have hcounted : (senderOf 5 longFrame).queue.Counted := by unfold SbcQueue.Counted; decide
  have hbuilds : (senderOf 5 longFrame).Builds := by unfold SbcSender.Builds; decide
  have hcall := sbcEncoderRecvFrameReq_eq hcounted hbuilds.1 hbuilds.2.1
  exact ⟨_, hcall, hbuilds, hbuilds.not_packetSent (by decide) hcounted (by decide) hcall⟩

/-! ## the encoder of a session -/

/-- The encoder as `Fr5080.Decoder.Session` knows it. -/
def SbcSender.session (s : SbcSender) : Fr5080.SbcEncoder where
  ready := s.ready
  prepForNext := s.prepForNext
  encodedFrames := s.queue.frameList.map (·.data)

/-- A message of the task queue as it is named there. -/
def SbcTask.session : SbcTask → SessionMsg
  | .decoderPrepareForNext => .decoderPrepareForNext
  | .mp3DecoderDoDecode => .mp3DecoderDoDecode

theorem SbcSender.counted_filled (h : s.queue.Counted) : s.filled.queue.Counted := by
  have hle : s.batch ≤ s.queue.frameList.length := Nat.min_le_right _ _
  have hlt := s.queue.frameCount.toNat_lt
  rw [SbcQueue.Counted] at h
  have hbatch : (UInt32.ofNat s.batch).toNat = s.batch := by
    rw [UInt32.toNat_ofNat', Nat.mod_eq_of_lt]
    omega
  simp only [SbcQueue.Counted, filled, copied, length_packet, List.length_drop]
  rw [UInt32.toNat_sub_of_le _ _ (by rw [UInt32.le_iff_toNat_le, hbatch, h]; exact hle), hbatch, h]

/-- What the end of the function posts. -/
theorem SbcSender.session_requestMore (h : s.queue.Counted) :
    s.requestMore.session = s.session ∧ s.requestMore.tasks.map SbcTask.session =
      s.tasks.map SbcTask.session ++
        if s.session.ready ∧ s.session.encodedFrames.length < sbcA2dpSubFrameCount then
          [SessionMsg.mp3DecoderDoDecode]
        else [] := by
  simp only [requestMore, session, List.length_map, ← show _ = _ from h]
  split
  · exact ⟨rfl, by simp [SbcTask.session]⟩
  · exact ⟨rfl, by simp⟩

/-- What the body of `if(channel != 0xff)` does, and posts. -/
theorem SbcSender.session_finish (hbytes : 2 + (sbcFrameBytes s.packet).length < 2 ^ 32) :
    ∃ replies posted, s.session.sendFrames = ((s.filled.finish s.channel
        (2 + UInt32.ofNat (sbcFrameBytes s.packet).length)).session, replies, posted) ∧
      (s.filled.finish s.channel
        (2 + UInt32.ofNat (sbcFrameBytes s.packet).length)).tasks.map SbcTask.session =
          s.tasks.map SbcTask.session ++ posted := by
  have hlength : (s.session.encodedFrames.take sbcA2dpSubFrameCount).flatten.length =
      (sbcFrameBytes s.packet).length := by
    rw [session, ← List.map_take, ← take_batch, sbcFrameBytes, List.flatMap_def]
    rfl
  have hdrop : s.session.encodedFrames.drop sbcA2dpSubFrameCount =
      s.filled.session.encodedFrames := by
    rw [session, ← List.map_drop, ← drop_batch]
    rfl
  have hiff : 2 < 2 + UInt32.ofNat (sbcFrameBytes s.packet).length ↔
      2 + (s.session.encodedFrames.take sbcA2dpSubFrameCount).flatten.length > 2 := by
    rw [hlength, UInt32.lt_iff_toNat_lt, UInt32.toNat_add, UInt32.toNat_ofNat']
    simp only [UInt32.reduceToNat]
    omega
  simp only [Fr5080.SbcEncoder.sendFrames, hdrop, ← hiff, finish]
  split
  · exact ⟨_, _, rfl, by simp [filled, copied]⟩
  · by_cases hprep : s.prepForNext = true
    · exact ⟨[], [.decoderPrepareForNext], by simp [session, filled, copied, hprep],
        by simp [filled, copied, hprep, SbcTask.session]⟩
    · exact ⟨[], [], by simp [session, filled, copied, hprep], by simp [filled, copied, hprep]⟩

/-- The function of `Fr5080.Decoder.Session` in one equation. -/
theorem session_recvFrameReq {e r : Fr5080.SbcEncoder} (hready : e.ready = true) {channel : Bool}
    {replies : List SessionReply} {posted : List SessionMsg}
    (hsend : (if channel then e.sendFrames else (e, [], [])) = (r, replies, posted)) :
    Fr5080.sbcEncoderRecvFrameReq channel e = (r, replies, posted ++
      if r.ready ∧ r.encodedFrames.length < sbcA2dpSubFrameCount then
        [SessionMsg.mp3DecoderDoDecode]
      else []) := by
  rw [Fr5080.sbcEncoderRecvFrameReq, if_neg (by simp [hready]), hsend]
  simp only []
  split
  · rfl
  · rw [List.append_nil]

/-- **Refinement**: when the frames of a message have less than 2^32 bytes together, the call does
to the encoder and to the task queue what the function of `Fr5080.Decoder.Session` does. -/
theorem sbcEncoderRecvFrameReq_refines (h : s.queue.Counted)
    (hbytes : 2 + (sbcFrameBytes s.packet).length < 2 ^ 32) :
    ∃ s' replies posted, sbcEncoderRecvFrameReq s = some s' ∧ s'.queue.Counted ∧
      Fr5080.sbcEncoderRecvFrameReq (s.channel ≠ 0xff) s.session = (s'.session, replies, posted) ∧
      s'.tasks.map SbcTask.session = s.tasks.map SbcTask.session ++ posted := by
  by_cases hready : s.ready = true
  · by_cases hchannel : s.channel = 0xff
    · let s1 : SbcSender := { s with ipc := (ipcAllocChannel sbcA2dpFrameLength s.ipc).2 }
      have hif : ¬ (ipcAllocChannel sbcA2dpFrameLength s.ipc).1 ≠ 0xff := not_not.mpr hchannel
      obtain ⟨hsession, htasks⟩ := SbcSender.session_requestMore (s := s1) h
      obtain ⟨tasks, heq⟩ := s1.requestMore_eq
      refine ⟨s1.requestMore, [], _, ?_, by rw [heq]; exact h, ?_, htasks⟩
      · rw [sbcEncoderRecvFrameReq, if_neg (by simp [hready])]
        simp only []
        rw [if_neg hif]
        rfl
      · have hsend : (if decide (s.channel ≠ 0xff) then s.session.sendFrames
            else (s.session, [], [])) = (s1.session, [], []) := by
          rw [if_neg (by simp [hchannel])]
          rfl
        rw [hsession]
        exact session_recvFrameReq (e := s.session) hready hsend
    · obtain ⟨replies, posted, hsend, hposted⟩ := SbcSender.session_finish hbytes
      have hqueue := (SbcSender.finish_frame s.channel
        (2 + UInt32.ofNat (sbcFrameBytes s.packet).length) s.filled).1
      have hcall := sbcEncoderRecvFrameReq_eq h hready hchannel
      generalize s.filled.finish s.channel
        (2 + UInt32.ofNat (sbcFrameBytes s.packet).length) = s2 at *
      obtain ⟨tasks, heq⟩ := s2.requestMore_eq
      have hcounted : s2.queue.Counted := by
        have hsame : s2.requestMore.queue = s2.queue := by rw [heq]
        rw [← hsame, hqueue]
        exact SbcSender.counted_filled h
      obtain ⟨hsession, htasks⟩ := SbcSender.session_requestMore hcounted
      rw [hposted, List.append_assoc] at htasks
      refine ⟨s2.requestMore, replies, _, hcall, by rw [heq]; exact hcounted, ?_, htasks⟩
      rw [hsession]
      refine session_recvFrameReq (e := s.session) hready ?_
      rwa [if_pos (by simp [hchannel])]
  · have hskip : s.ready = false := by simpa using hready
    refine ⟨s, [], [], ?_, h, ?_, (List.append_nil _).symm⟩
    · rw [sbcEncoderRecvFrameReq, if_pos hskip]
    · exact if_pos hskip

end Fr5080.Pcm
