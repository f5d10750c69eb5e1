import Fr5080.Decoder.Mp3

/-!
# Fr5080.Decoder.Mp3Fifo

The MP3 input path as a FIFO queue: a session is a run of calls of
`mp3_decoder_recv_frame` and of the engine functions, in any order, and
what the codec consumed, what is staged for it and what is unread in the ring
are the received frames, end to end (`mp3_input_fifo`).
-/

namespace Fr5080

open Embedded

/-- The calls of a session after `mp3_decoder_init`, with the answers of the codec. -/
inductive Mp3Call
  | recvFrame (buffer : List UInt8)
  | engineInit (uiSize : Fin (2 ^ 31))
  | engineStart (initDone : Option Nat) (consume : Consumption)
  | engineDecode (consume : Consumption)

/-- One call.  A frame must leave one byte of the ring free; the engine is
initialised once, before it is started. -/
def mp3CallStep (d : Mp3Decoder) : Mp3Call → Option Mp3Decoder
  | .recvFrame buffer =>
      if d.unread.length + buffer.length ≤ 4095 then some (mp3DecoderRecvFrame buffer d) else none
  | .engineInit uiSize => if d.engineReady then none else some (mp3DecoderEngineInit uiSize d)
  | .engineStart initDone consume =>
      if d.engineReady then some (mp3DecoderEngineStart initDone consume d) else none
  | .engineDecode consume =>
      if d.engineReady then some (mp3DecoderEngineDecode consume d) else none

/-- The bytes received by a call. -/
def Mp3Call.frame : Mp3Call → List UInt8
  | .recvFrame buffer => buffer
  | _ => []

variable {d d' : Mp3Decoder}

/-- One call keeps the order of the bytes, and appends what it receives. -/
theorem mp3CallStep_inOrder {call : Mp3Call} (h : mp3CallStep d call = some d')
    (hd : d.InOrder) : d'.InOrder ∧ d'.received = d.received ++ call.frame := by
  cases call with
  | recvFrame buffer =>
      simp only [mp3CallStep] at h
      split at h
      · next hfits =>
          cases h
          rw [Mp3Decoder.unread, RingBuffer.length_contents] at hfits
          exact ⟨hd.recvFrame (Nat.lt_succ_of_le hfits), rfl⟩
      · cases h
  | engineInit uiSize =>
      simp only [mp3CallStep] at h
      split at h
      · cases h
      · next hready =>
          cases h
          exact ⟨hd.engineInit (Bool.not_eq_true _ ▸ hready) uiSize, (List.append_nil _).symm⟩
  | engineStart initDone consume =>
      simp only [mp3CallStep] at h
      split at h
      · next hready =>
          cases h
          obtain ⟨horder, hreceived⟩ := hd.engineStart hready initDone consume
          exact ⟨horder, hreceived.trans (List.append_nil _).symm⟩
      · cases h
  | engineDecode consume =>
      simp only [mp3CallStep] at h
      split at h
      · next hready =>
          cases h
          obtain ⟨horder, hreceived⟩ := hd.engineDecode hready consume
          exact ⟨horder, hreceived.trans (List.append_nil _).symm⟩
      · cases h

/-- A session keeps the order of the bytes, and receives its frames one after another. -/
theorem mp3Call_run {calls : List Mp3Call} (h : run mp3CallStep d calls = some d')
    (hd : d.InOrder) : d'.InOrder ∧ d'.received = d.received ++ calls.flatMap Mp3Call.frame := by
  induction calls generalizing d with
  | nil =>
      cases h
      exact ⟨hd, (List.append_nil _).symm⟩
  | cons call calls ih =>
      obtain ⟨d1, h1, h2⟩ := run_cons_eq_some.mp h
      obtain ⟨horder, hreceived⟩ := mp3CallStep_inOrder h1 hd
      obtain ⟨horder', hreceived'⟩ := ih h2 horder
      refine ⟨horder', ?_⟩
      rw [hreceived', hreceived, List.flatMap_cons, List.append_assoc]

/-- **A lossless queue**: in every session the bytes the codec has consumed, the
bytes staged for it and the unread bytes of the ring are the frames received, end
to end.  `xa_mp3_dec_get_data` gets what there is, up to the size asked for, and
the early return of `engine_decode` loses nothing. -/
theorem mp3_input_fifo (d0 d : Mp3Decoder) (calls : List Mp3Call)
    (h : run mp3CallStep (mp3DecoderInit d0) calls = some d) :
    d.codec.consumed ++ d.staged ++ d.unread = calls.flatMap Mp3Call.frame ∧
    (∀ buffer off size,
      (xaMp3DecGetData d.ring buffer off size).2.2 = min size d.unread.length) ∧
    (∀ consume, d.engineReady = true → d.codec.bytesConsumed = 0 → d.readable = 0 →
      (mp3DecoderEngineDecode consume d).codec.consumed = d.codec.consumed ∧
      (mp3DecoderEngineDecode consume d).codec.calls = d.codec.calls ∧
      (mp3DecoderEngineDecode consume d).staged = d.staged ∧
      (mp3DecoderEngineDecode consume d).unread = d.unread) := by
  obtain ⟨horder, hreceived⟩ := mp3Call_run h (mp3DecoderInit_inOrder d0)
  refine ⟨?_, fun buffer off size => ?_, fun consume hready hconsumed hread => ?_⟩
  · rw [horder.stream, hreceived]
    rfl
  · rw [xaMp3DecGetData, RingBuffer.getData_eq horder.wf 0, Mp3Decoder.unread,
      RingBuffer.length_contents]
  · exact mp3DecoderEngineDecode_none horder hready hconsumed hread consume

/-- A session of four calls; the codec input buffer holds four bytes. -/
theorem mp3_input_fifo_short :
    ∃ d, run mp3CallStep (mp3DecoderInit .zeroed)
        [.recvFrame [1, 2, 3, 4, 5], .engineInit 4, .engineStart (some 1) (consumeUpTo 1),
          .engineDecode (consumeUpTo 2)] = some d ∧
      d.codec.consumed ++ d.staged ++ d.unread = [1, 2, 3, 4, 5] := by
  refine ⟨_, rfl, ?_⟩
  exact (mp3_input_fifo .zeroed _
    [.recvFrame [1, 2, 3, 4, 5], .engineInit 4, .engineStart (some 1) (consumeUpTo 1),
      .engineDecode (consumeUpTo 2)] rfl).1

end Fr5080
