import Fr5080.Decoder.Credit
import Fr5080.Embedded.Run

/-!
# Fr5080.Decoder.Sbc

The input side of the SBC decoder (`fr5080_user_code_xip`, `sbc_decoder.c`).
It has the ring and the staging buffer of the MP3 decoder, without grants, and
its `sbc_decoder_engine_decode` returns between the shift of the staging buffer
and the update of `i_buff_size` and `i_bytes_consumed` when nothing was read.
The next call shifts the same bytes once more.

`sbc_inOrder_iff`: the bytes reach the codec in order exactly when every decode
call finds an unread byte, or staged bytes that the second shift does not
change.
-/

namespace Fr5080

open Embedded

/-! ## data -/

/-- `sbc_decoder_state_t`. -/
inductive SbcDecoderState
  | idle
  | inited
  | decoding
deriving DecidableEq, Repr

/-- The variables of `sbc_decoder.c`; `received` is a history variable. -/
structure SbcDecoder where
  ring : RingBuffer UInt8
  codec : CodecInput
  state : SbcDecoderState
  tasks : List DecoderTask
  received : List UInt8

/-- The variables as the start-up code leaves them. -/
def SbcDecoder.zeroed : SbcDecoder where
  ring := ⟨fun _ => 0, 0, 0⟩
  codec := .zeroed
  state := .idle
  tasks := []
  received := []

/-- The answers of the codec during one `sbc_decoder_do_decoder_handler`. -/
structure SbcAnswers where
  /-- `ui_init_done` -/
  initDone : Nat
  startConsume : Consumption
  decodeConsume : Consumption

/-- `SBC_DECODER_BUFFER_SIZE`. -/
def sbcDecoderBufferSize : Nat := 2048

/-! ## the functions -/

/-- The ring write of `sbc_decoder_recv_frame`. -/
def sbcRingRecv (r : RingBuffer UInt8) (buffer : List UInt8) : RingBuffer UInt8 :=
  let lastSpace := sbcDecoderBufferSize - r.inp
  if lastSpace ≤ buffer.length then
    let buf := store r.buf r.inp (buffer.take lastSpace)
    let rest := buffer.drop lastSpace
    if rest.length ≠ 0 then { r with buf := store buf 0 rest, inp := rest.length }
    else { r with buf := buf, inp := 0 }
  else
    let inp := r.inp + buffer.length
    { r with
      buf := store r.buf r.inp buffer
      inp := if inp ≥ sbcDecoderBufferSize then 0 else inp }

/-- `sbc_decoder_recv_frame`; the first frame initialises the engine, with a
codec input buffer of `uiSize` bytes. -/
def sbcDecoderRecvFrame (uiSize : Fin (2 ^ 31)) (buffer : List UInt8) (s : SbcDecoder) :
    SbcDecoder :=
  let s := if s.state = .idle then { s with codec := s.codec.alloc uiSize, state := .inited } else s
  { s with
    ring := sbcRingRecv s.ring buffer
    tasks := s.tasks ++ [.doDecode]
    received := s.received ++ buffer }

/-- `sbc_decoder_engine_start`. -/
def sbcDecoderEngineStart (consume : Consumption) (s : SbcDecoder) : SbcDecoder :=
  let lastDataLength := s.codec.leftLength
  let (ring, codec, bytesRead) := s.codec.shift.fill sbcDecoderBufferSize s.ring
  let codec := { codec with buffSize := lastDataLength + bytesRead }
  { s with ring := ring, codec := codec.process consume }

/-- `sbc_decoder_engine_decode`. -/
def sbcDecoderEngineDecode (consume : Consumption) (s : SbcDecoder) : SbcDecoder :=
  let lastDataLength := s.codec.leftLength
  let (ring, codec, bytesRead) := s.codec.shiftIfNeeded.fill sbcDecoderBufferSize s.ring
  if codec.bytesConsumed ≠ 0 ∧ bytesRead = 0 then
    -- `i_buff_size` and `i_bytes_consumed` still describe the buffer before the shift
    { s with ring := ring, codec := codec }
  else
    let codec := { codec with buffSize := bytesRead + lastDataLength }
    let codec := codec.process consume
    { s with
      ring := ring
      codec := codec
      tasks := if codec.bytesConsumed ≠ 0 then s.tasks ++ [.doDecode] else s.tasks }

/-- `sbc_decoder_do_decoder_handler`. -/
def sbcDecoderDoDecoderHandler (a : SbcAnswers) (s : SbcDecoder) : SbcDecoder :=
  if s.state = .inited then
    let s := sbcDecoderEngineStart a.startConsume s
    if a.initDone ≠ 0 then sbcDecoderEngineDecode a.decodeConsume { s with state := .decoding }
    else s
  else sbcDecoderEngineDecode a.decodeConsume s

/-! ## runs -/

/-- The calls from outside: a frame arrives, or the task is scheduled. -/
inductive SbcEvent
  | recvFrame (uiSize : Fin (2 ^ 31)) (buffer : List UInt8)
  | doDecoderHandler (a : SbcAnswers)

/-- One call.  A frame must leave one byte of the ring free.  The handler does not come before
the first frame, which initialises the engine: `p_xa_process_api` would be `NULL`, and the codec
call would jump to it. -/
def sbcStep (s : SbcDecoder) : SbcEvent → Option SbcDecoder
  | .recvFrame uiSize buffer =>
      if s.ring.used sbcDecoderBufferSize + buffer.length ≤ 2047 then
        some (sbcDecoderRecvFrame uiSize buffer s)
      else none
  | .doDecoderHandler a =>
      if s.state = .idle then none else some (sbcDecoderDoDecoderHandler a s)

/-- The unread bytes of the ring. -/
def SbcDecoder.unread (s : SbcDecoder) : List UInt8 := s.ring.contents sbcDecoderBufferSize

/-- The input is passed on in order. -/
structure SbcDecoder.InOrder (s : SbcDecoder) : Prop where
  wf : s.ring.WF sbcDecoderBufferSize
  codec : s.codec.InOrder s.unread s.received
  idle : s.state = .idle → s.received = [] ∧ s.codec.calls = []

/-- A decode call finds an unread byte, or staged bytes that repeat every
`i_bytes_consumed` bytes (as when none was consumed, or none is left). -/
def SbcDecoder.DecodeKeeps (s : SbcDecoder) : Prop :=
  s.ring.out ≠ s.ring.inp ∨ s.codec.staged.drop s.codec.bytesConsumed <+: s.codec.staged

instance : DecidablePred SbcDecoder.DecodeKeeps := fun s =>
  inferInstanceAs (Decidable
    (s.ring.out ≠ s.ring.inp ∨ s.codec.staged.drop s.codec.bytesConsumed <+: s.codec.staged))

/-- The state in which the handler calls `sbc_decoder_engine_decode`, if it does. -/
def SbcDecoder.decodeEntry (a : SbcAnswers) (s : SbcDecoder) : Option SbcDecoder :=
  if s.state = .inited then
    if a.initDone ≠ 0 then
      some { sbcDecoderEngineStart a.startConsume s with state := .decoding }
    else none
  else some s

/-- The condition on a step: its decode call, if any, is one that keeps the order. -/
def DecodesInOrder (s : SbcDecoder) : SbcEvent → Prop
  | .recvFrame _ _ => True
  | .doDecoderHandler a => ∀ s1, s.decodeEntry a = some s1 → s1.DecodeKeeps

instance (s : SbcDecoder) : DecidablePred (DecodesInOrder s) := fun e =>
  match e with
  | .recvFrame _ _ => .isTrue trivial
  | .doDecoderHandler a => inferInstanceAs (Decidable (∀ s1 ∈ s.decodeEntry a, s1.DecodeKeeps))

variable {s s' : SbcDecoder}

/-! ## one call -/

/-- The second test of the end of the buffer never succeeds. -/
theorem sbcRingRecv_eq {r : RingBuffer UInt8} (h : r.WF sbcDecoderBufferSize)
    (buffer : List UInt8) :
    sbcRingRecv r buffer = r.recv sbcDecoderBufferSize buffer := by
  have hinp := h.inp_lt
  simp only [sbcRingRecv, RingBuffer.recv]
  by_cases hwrap : sbcDecoderBufferSize - r.inp ≤ buffer.length
  · rw [if_pos hwrap, if_pos hwrap]
  · rw [if_neg hwrap, if_neg hwrap, if_neg (by omega)]

theorem SbcDecoder.InOrder.recvFrame (h : s.InOrder) (uiSize : Fin (2 ^ 31))
    {buffer : List UInt8}
    (hfits : s.ring.used sbcDecoderBufferSize + buffer.length < sbcDecoderBufferSize) :
    (sbcDecoderRecvFrame uiSize buffer s).InOrder := by
  have hcontents : (s.ring.recv sbcDecoderBufferSize buffer).contents sbcDecoderBufferSize =
      s.unread ++ buffer := RingBuffer.contents_recv h.wf hfits
  have hwf := h.wf.recv hfits
  by_cases hidle : s.state = .idle
  · have heq : sbcDecoderRecvFrame uiSize buffer s = { s with
        ring := s.ring.recv sbcDecoderBufferSize buffer
        codec := s.codec.alloc uiSize
        state := .inited
        tasks := s.tasks ++ [.doDecode]
        received := s.received ++ buffer } := by
      rw [← sbcRingRecv_eq h.wf, sbcDecoderRecvFrame, if_pos hidle]
    obtain ⟨hreceived, hcalls⟩ := h.idle hidle
    have hstream := h.codec.stream
    rw [hreceived, List.append_eq_nil_iff, List.append_eq_nil_iff] at hstream
    obtain ⟨⟨hconsumed, -⟩, hunread⟩ := hstream
    rw [heq]
    refine ⟨hwf, ?_, fun hfalse => by cases hfalse⟩
    show (s.codec.alloc uiSize).InOrder
      ((s.ring.recv sbcDecoderBufferSize buffer).contents sbcDecoderBufferSize)
      (s.received ++ buffer)
    rw [hcontents, hunread, hreceived]
    exact .alloc hconsumed hcalls uiSize
  · have heq : sbcDecoderRecvFrame uiSize buffer s = { s with
        ring := s.ring.recv sbcDecoderBufferSize buffer
        tasks := s.tasks ++ [.doDecode]
        received := s.received ++ buffer } := by
      rw [← sbcRingRecv_eq h.wf, sbcDecoderRecvFrame, if_neg hidle]
    rw [heq]
    refine ⟨hwf, ?_, fun hfalse => absurd hfalse hidle⟩
    have hcodec := h.codec.recv buffer
    rw [← hcontents] at hcodec
    exact hcodec

/-- Starting the engine keeps the order. -/
theorem SbcDecoder.InOrder.engineStart (h : s.InOrder) (hidle : s.state ≠ .idle)
    (consume : Consumption) : (sbcDecoderEngineStart consume s).InOrder := by
  obtain ⟨inpBuf, hfill, horder⟩ := h.codec.refill h.wf
  unfold sbcDecoderEngineStart
  rw [hfill, h.codec.valid.leftLength_eq]
  exact ⟨h.wf.advance (CodecInput.readable_le _ _ _), horder.process rfl consume,
    fun hfalse => absurd hfalse hidle⟩

/-- The early return: the staged bytes are shifted and nothing else happens. -/
theorem sbcDecoderEngineDecode_return (h : s.InOrder) (consume : Consumption)
    (hconsumed : s.codec.bytesConsumed ≠ 0) (hempty : s.ring.used sbcDecoderBufferSize = 0) :
    sbcDecoderEngineDecode consume s =
      { s with ring := s.ring.advance sbcDecoderBufferSize 0, codec := s.codec.shift } := by
  unfold sbcDecoderEngineDecode
  rw [CodecInput.shiftIfNeeded_eq, CodecInput.fill_shift_empty h.codec.valid h.wf hempty]
  exact if_pos ⟨hconsumed, rfl⟩

/-- The early return keeps the order exactly when the shift does not change the
staged bytes. -/
theorem SbcDecoder.InOrder.return_iff (h : s.InOrder) (hidle : s.state ≠ .idle) :
    SbcDecoder.InOrder
        { s with ring := s.ring.advance sbcDecoderBufferSize 0, codec := s.codec.shift } ↔
      s.codec.shift.staged = s.codec.staged := by
  have hunread : (s.ring.advance sbcDecoderBufferSize 0).contents sbcDecoderBufferSize =
      s.unread := by
    rw [RingBuffer.contents_advance h.wf (Nat.zero_le _), List.drop_zero]
    rfl
  constructor
  · intro h'
    have hstream : s.codec.consumed ++ s.codec.shift.staged ++
        (s.ring.advance sbcDecoderBufferSize 0).contents sbcDecoderBufferSize =
        s.codec.consumed ++ s.codec.staged ++ s.unread :=
      h'.codec.stream.trans h.codec.stream.symm
    rwa [hunread, List.append_cancel_right_eq, List.append_cancel_left_eq] at hstream
  · intro hstaged
    refine ⟨h.wf.advance (Nat.zero_le _), ⟨h.codec.valid.shift, ?_, h.codec.calls⟩,
      fun hfalse => absurd hfalse hidle⟩
    show s.codec.consumed ++ s.codec.shift.staged ++
      (s.ring.advance sbcDecoderBufferSize 0).contents sbcDecoderBufferSize = s.received
    rw [hunread, hstaged, h.codec.stream]

/-- A decode call keeps the order exactly when it finds an unread byte, or
staged bytes that the shift does not change. -/
theorem SbcDecoder.InOrder.engineDecode_iff (h : s.InOrder) (hidle : s.state ≠ .idle)
    (consume : Consumption) :
    (sbcDecoderEngineDecode consume s).InOrder ↔ s.DecodeKeeps := by
  have hvalid := h.codec.valid
  have hle := hvalid.consumed_le
  have hle' := hvalid.buff_le
  have hused := h.wf.used_eq_zero_iff
  have hread : s.codec.readable sbcDecoderBufferSize s.ring =
      min (s.codec.inpSize - (s.codec.buffSize - s.codec.bytesConsumed))
        (s.ring.used sbcDecoderBufferSize) := rfl
  by_cases hreturn : s.codec.bytesConsumed ≠ 0 ∧
      s.codec.readable sbcDecoderBufferSize s.ring = 0
  · -- consumed bytes make room, so nothing is read only from an empty ring
    have hempty : s.ring.used sbcDecoderBufferSize = 0 := by omega
    rw [sbcDecoderEngineDecode_return h consume hreturn.1 hempty, h.return_iff hidle,
      CodecInput.staged_shift_iff hvalid, SbcDecoder.DecodeKeeps]
    exact ⟨.inr, fun hkeeps => hkeeps.resolve_left (fun hne => hne (hused.mp hempty))⟩
  · have hkeeps : s.DecodeKeeps := by
      by_cases hzero : s.codec.bytesConsumed = 0
      · exact .inr ⟨[], by rw [hzero, List.drop_zero, List.append_nil]⟩
      · left
        intro heq
        have hempty := hused.mpr heq
        omega
    refine iff_of_true ?_ hkeeps
    obtain ⟨inpBuf, hfill, horder⟩ := h.codec.refill h.wf
    unfold sbcDecoderEngineDecode
    rw [CodecInput.shiftIfNeeded_eq, hfill, hvalid.leftLength_eq]
    dsimp only
    rw [if_neg hreturn, Nat.add_comm]
    exact ⟨h.wf.advance (CodecInput.readable_le _ _ _), horder.process rfl consume,
      fun hfalse => absurd hfalse hidle⟩

/-! ## when the order is kept -/

/-- A step keeps the order exactly when it meets the condition. -/
theorem sbcStep_inOrder_iff {e : SbcEvent} (h : s.InOrder) (hstep : sbcStep s e = some s') :
    s'.InOrder ↔ DecodesInOrder s e := by
  cases e with
  | recvFrame uiSize buffer =>
      simp only [sbcStep] at hstep
      split at hstep
      · next hfits =>
          cases hstep
          exact iff_of_true (h.recvFrame uiSize (Nat.lt_succ_of_le hfits)) trivial
      · cases hstep
  | doDecoderHandler a =>
      simp only [sbcStep] at hstep
      split at hstep
      · cases hstep
      · next hidle =>
          cases hstep
          simp only [DecodesInOrder, SbcDecoder.decodeEntry, sbcDecoderDoDecoderHandler]
          by_cases hinited : s.state = .inited
          · have hstart := h.engineStart hidle a.startConsume
            rw [if_pos hinited, if_pos hinited]
            by_cases hdone : a.initDone ≠ 0
            · have hentry : ({ sbcDecoderEngineStart a.startConsume s with
                  state := .decoding } : SbcDecoder).InOrder :=
                ⟨hstart.wf, hstart.codec, fun hfalse => by cases hfalse⟩
              rw [if_pos hdone, if_pos hdone]
              simp only [Option.some.injEq, forall_eq']
              exact hentry.engineDecode_iff (by simp) a.decodeConsume
            · rw [if_neg hdone, if_neg hdone]
              exact iff_of_true hstart (fun _ hnone => by cases hnone)
          · rw [if_neg hinited, if_neg hinited]
            simp only [Option.some.injEq, forall_eq']
            exact h.engineDecode_iff hidle a.decodeConsume

theorem SbcDecoder.zeroed_inOrder : SbcDecoder.zeroed.InOrder :=
  ⟨⟨by decide, by decide⟩,
    ⟨⟨Nat.le_refl _, Nat.le_refl _, by decide⟩, rfl, fun _ hcall => by cases hcall⟩,
    fun _ => ⟨rfl, rfl⟩⟩

/-- **When the SBC input is a queue**: in every run from the start, consumed,
staged and unread bytes are the received stream and every codec call is given
the part of it that follows what was consumed, in all the states on the way,
exactly when every decode call met the condition. -/
theorem sbc_inOrder_iff (es : List SbcEvent) (s : SbcDecoder)
    (h : run sbcStep .zeroed es = some s) :
    (∀ es1 s1, es1 <+: es → run sbcStep .zeroed es1 = some s1 → s1.InOrder) ↔
      Along sbcStep DecodesInOrder .zeroed es :=
  run_prefixes_iff_along (fun _ _ _ hs hstep => sbcStep_inOrder_iff hs hstep)
    SbcDecoder.zeroed_inOrder h

/-- A run of four calls, in order. -/
theorem sbc_inOrder_iff_short :
    ∃ s, run sbcStep .zeroed
        [.recvFrame 8 [1, 2, 3], .doDecoderHandler ⟨1, consumeUpTo 0, consumeUpTo 2⟩,
          .recvFrame 8 [4], .doDecoderHandler ⟨0, consumeUpTo 0, consumeUpTo 2⟩] = some s ∧
      ∀ es1 s1, es1 <+: [.recvFrame 8 [1, 2, 3],
          .doDecoderHandler ⟨1, consumeUpTo 0, consumeUpTo 2⟩,
          .recvFrame 8 [4], .doDecoderHandler ⟨0, consumeUpTo 0, consumeUpTo 2⟩] →
        run sbcStep .zeroed es1 = some s1 → s1.InOrder :=
  ⟨_, rfl, (sbc_inOrder_iff _ _ rfl).mpr (by decide +kernel)⟩

/-- **The second shift**: three bytes arrive, the codec consumes one of them when
it is started, and the decode call behind it finds nothing to read.  The next
one, with one more byte, presents a byte twice and another one not at all. -/
theorem sbc_decode_shifts_twice :
    ¬ ∀ (es : List SbcEvent) (s : SbcDecoder), run sbcStep .zeroed es = some s →
      ∀ call ∈ s.codec.calls, call.consumed ++ call.input <+: s.received := by
  intro hclaim
  have hcall := hclaim
    [.recvFrame 8 [1, 2, 3], .doDecoderHandler ⟨1, consumeUpTo 1, consumeUpTo 0⟩,
      .recvFrame 8 [4], .doDecoderHandler ⟨0, consumeUpTo 0, consumeUpTo 0⟩] _ rfl
    ⟨[1], [3, 3, 4]⟩ (.tail _ (.head _))
  have hprefix : [1, 3, 3, 4] <+: [1, 2, 3, (4 : UInt8)] := hcall
  simp at hprefix

end Fr5080
