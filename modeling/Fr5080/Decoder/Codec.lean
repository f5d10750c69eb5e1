import Fr5080.Embedded.RingBuffer

/-!
# Fr5080.Decoder.Codec

The staging buffer between a decoder's ring and its codec, common to the
decoders of the examples (`pb_inp_buf`, `ui_inp_size`, `i_buff_size`,
`i_bytes_consumed`).

Before a codec call the unconsumed bytes are moved to the front of the buffer
(`CodecInput.shift`) and the rest of it is filled from the ring
(`CodecInput.fill`); the codec then tells how many of the bytes it has consumed
(`CodecInput.process`).

`CodecInput.InOrder` is what this is for: the bytes consumed, the bytes staged
and the bytes unread are the received stream, and every call was given the
next part of it.
-/

namespace Fr5080

open Embedded

/-! ## data -/

/-- Subtraction of two `UWORD32`. -/
def sub32 (a b : Nat) : Nat := if b ≤ a then a - b else a + 2 ^ 32 - b

/-- A difference is a word. -/
theorem sub32_lt {a : Nat} (ha : a < 2 ^ 32) (b : Nat) : sub32 a b < 2 ^ 32 := by
  unfold sub32
  split <;> omega

theorem sub32_of_le {a b : Nat} (h : b ≤ a) : sub32 a b = a - b := if_pos h

/-- How many of the bytes it is given the codec consumes: its answer to
`XA_API_CMD_GET_CURIDX_INPUT_BUF`, never more than `i_buff_size`. -/
abbrev Consumption := (buffSize : Nat) → Fin (buffSize + 1)

/-- A call of the codec: the bytes it had consumed before, and the bytes it is given. -/
structure CodecCall where
  consumed : List UInt8
  input : List UInt8
deriving DecidableEq, Repr

/-- The staging buffer and its variables.  `consumed` and `calls` are history
variables. -/
structure CodecInput where
  inpBuf : Nat → UInt8
  inpSize : Nat
  buffSize : Nat
  bytesConsumed : Nat
  consumed : List UInt8
  calls : List CodecCall

/-- A codec that consumes up to `n` bytes of every call. -/
def consumeUpTo (n : Nat) : Consumption := fun buffSize =>
  ⟨min n buffSize, Nat.lt_succ_of_le (Nat.min_le_right n buffSize)⟩

namespace CodecInput

/-- The variables as the start-up code leaves them. -/
def zeroed : CodecInput where
  inpBuf := fun _ => 0
  inpSize := 0
  buffSize := 0
  bytesConsumed := 0
  consumed := []
  calls := []

/-! ## the operations -/

/-- The end of the engine init functions: an input buffer of `ui_size` bytes,
all of them consumed. -/
def alloc (uiSize : Fin (2 ^ 31)) (c : CodecInput) : CodecInput :=
  { c with inpSize := uiSize, buffSize := uiSize, bytesConsumed := uiSize }

/-- `left_data_length`, `last_data_length`. -/
def leftLength (c : CodecInput) : Nat := sub32 c.buffSize c.bytesConsumed

/-- `memcpy(pb_inp_buf, &pb_inp_buf[i_bytes_consumed], left_data_length)`. -/
def shift (c : CodecInput) : CodecInput :=
  { c with inpBuf := memcpy c.inpBuf 0 c.inpBuf c.bytesConsumed c.leftLength }

/-- The same, skipped when there is nothing to move. -/
def shiftIfNeeded (c : CodecInput) : CodecInput :=
  if c.leftLength ≠ 0 ∧ c.bytesConsumed ≠ 0 then c.shift else c

/-- `i_bytes_read = …_get_data(pb_inp_buf + left_data_length, ui_inp_size - left_data_length)`,
from a ring of `cap` bytes. -/
def fill (cap : Nat) (ring : RingBuffer UInt8) (c : CodecInput) :
    RingBuffer UInt8 × CodecInput × Nat :=
  let (ring, inpBuf, bytesRead) :=
    ring.getData cap 2 c.inpBuf c.leftLength (sub32 c.inpSize c.leftLength)
  (ring, { c with inpBuf := inpBuf }, bytesRead)

/-- The codec call: `i_buff_size` bytes are given, `i_bytes_consumed` is the answer. -/
def process (consume : Consumption) (c : CodecInput) : CodecInput :=
  { c with
    bytesConsumed := consume c.buffSize
    consumed := c.consumed ++ slice c.inpBuf 0 (consume c.buffSize)
    calls := c.calls ++ [⟨c.consumed, slice c.inpBuf 0 c.buffSize⟩] }

/-! ## what it is for -/

/-- The bytes staged and not consumed yet. -/
def staged (c : CodecInput) : List UInt8 :=
  slice c.inpBuf c.bytesConsumed (c.buffSize - c.bytesConsumed)

/-- The variables fit each other. -/
structure Valid (c : CodecInput) : Prop where
  consumed_le : c.bytesConsumed ≤ c.buffSize
  buff_le : c.buffSize ≤ c.inpSize
  size_lt : c.inpSize < 2 ^ 31

/-- The received stream is consumed, staged and unread bytes in this order, and
every call of the codec was given the part of it that follows what was consumed. -/
structure InOrder (unread received : List UInt8) (c : CodecInput) : Prop where
  valid : c.Valid
  stream : c.consumed ++ c.staged ++ unread = received
  calls : ∀ call ∈ c.calls, call.consumed ++ call.input <+: received

/-! ## lemmas -/

variable {c : CodecInput} {ring : RingBuffer UInt8} {unread received : List UInt8} {cap : Nat}

@[simp] theorem length_staged (c : CodecInput) :
    c.staged.length = c.buffSize - c.bytesConsumed := by
  simp [staged]

/-- What is left does not wrap. -/
theorem Valid.leftLength_eq (h : c.Valid) : c.leftLength = c.buffSize - c.bytesConsumed :=
  sub32_of_le h.consumed_le

/-- The size that `get_data` is called with. -/
theorem Valid.fillSize_eq (h : c.Valid) :
    sub32 c.inpSize c.leftLength = c.inpSize - (c.buffSize - c.bytesConsumed) := by
  rw [h.leftLength_eq]
  exact sub32_of_le ((Nat.sub_le _ _).trans h.buff_le)

/-- Skipping the move makes no difference. -/
theorem shiftIfNeeded_eq (c : CodecInput) : c.shiftIfNeeded = c.shift := by
  unfold shiftIfNeeded
  split
  · rfl
  · next h =>
      rw [Classical.not_and_iff_not_or_not, not_ne_iff, not_ne_iff] at h
      obtain hleft | hconsumed := h
      · rw [shift, hleft, memcpy_zero]
      · have hself : memcpy c.inpBuf 0 c.inpBuf c.bytesConsumed c.leftLength = c.inpBuf := by
          rw [hconsumed, memcpy_self]
        rw [shift, hself]

/-- The number of bytes that `fill` reads. -/
def readable (cap : Nat) (ring : RingBuffer UInt8) (c : CodecInput) : Nat :=
  min (c.inpSize - (c.buffSize - c.bytesConsumed)) (ring.used cap)

/-- No more is read than the ring has. -/
theorem readable_le (cap : Nat) (ring : RingBuffer UInt8) (c : CodecInput) :
    c.readable cap ring ≤ ring.used cap := Nat.min_le_right _ _

/-- The shift moves what is left to the front. -/
theorem Valid.shift_eq (h : c.Valid) : c.shift = { c with
    inpBuf := memcpy c.inpBuf 0 c.inpBuf c.bytesConsumed (c.buffSize - c.bytesConsumed) } := by
  rw [CodecInput.shift, h.leftLength_eq]

/-- It keeps the counters in order. -/
theorem Valid.shift (h : c.Valid) : c.shift.Valid := by
  rw [h.shift_eq]
  exact ⟨h.consumed_le, h.buff_le, h.size_lt⟩

/-- What is read is stored behind what is left. -/
theorem fill_eq (hc : c.Valid) (h : ring.WF cap) :
    c.fill cap ring =
      (ring.advance cap (c.readable cap ring),
        { c with
          inpBuf := store c.inpBuf (c.buffSize - c.bytesConsumed)
            ((ring.contents cap).take (c.inpSize - (c.buffSize - c.bytesConsumed))) },
        c.readable cap ring) := by
  unfold fill
  rw [hc.fillSize_eq, hc.leftLength_eq, RingBuffer.getData_eq h 0]
  rfl

/-- Shifting and filling: the ring advances by what is read, the buffer holds
the staged bytes and behind them the bytes read. -/
theorem fill_shift (hc : c.Valid) (h : ring.WF cap) :
    ∃ inpBuf, c.shift.fill cap ring =
        (ring.advance cap (c.readable cap ring), { c with inpBuf := inpBuf },
          c.readable cap ring) ∧
      slice inpBuf 0 (c.buffSize - c.bytesConsumed + c.readable cap ring) ++
          (ring.advance cap (c.readable cap ring)).contents cap =
        c.staged ++ ring.contents cap := by
  have hshift := hc.shift_eq
  have hvalid := hc.shift
  have hrefill := RingBuffer.slice_getData_refill h c.inpBuf c.bytesConsumed
    (c.buffSize - c.bytesConsumed) (c.inpSize - (c.buffSize - c.bytesConsumed))
  rw [RingBuffer.getData_eq h 0] at hrefill
  rw [hshift] at hvalid ⊢
  rw [RingBuffer.contents_advance h (c.readable_le cap ring)]
  exact ⟨_, fill_eq hvalid h, hrefill⟩

/-- The input of the next call: the staged bytes, and what is read behind them. -/
theorem slice_fill_shift (hc : c.Valid) (h : ring.WF cap) :
    ∃ inpBuf, c.shift.fill cap ring =
        (ring.advance cap (c.readable cap ring), { c with inpBuf := inpBuf },
          c.readable cap ring) ∧
      slice inpBuf 0 (c.buffSize - c.bytesConsumed + c.readable cap ring) =
        c.staged ++ (ring.contents cap).take (c.readable cap ring) := by
  obtain ⟨inpBuf, hfill, hslice⟩ := fill_shift hc h
  refine ⟨inpBuf, hfill, ?_⟩
  have hle := c.readable_le cap ring
  rw [RingBuffer.contents_advance h hle] at hslice
  have hsplit : c.staged ++ ring.contents cap =
      (c.staged ++ (ring.contents cap).take (c.readable cap ring)) ++
        (ring.contents cap).drop (c.readable cap ring) := by
    rw [List.append_assoc, List.take_append_drop]
  refine (List.append_inj (hslice.trans hsplit) ?_).1
  simp [hle]

/-! ## a shift that is not followed up -/

/-- When nothing can be read, all that happens is the shift. -/
theorem fill_shift_empty (hc : c.Valid) (h : ring.WF cap) (hempty : ring.used cap = 0) :
    c.shift.fill cap ring = (ring.advance cap 0, c.shift, 0) := by
  have hnil : ring.contents cap = [] := by
    apply List.eq_nil_of_length_eq_zero
    rw [RingBuffer.length_contents, hempty]
  have hzero : c.shift.readable cap ring = 0 := by
    rw [readable, hempty, Nat.min_zero]
  rw [fill_eq hc.shift h, hzero, hnil, List.take_nil, store_nil]

/-- With `i_buff_size` and `i_bytes_consumed` as they were, the shift leaves the
staged bytes as they were exactly when these repeat every `i_bytes_consumed` bytes. -/
theorem staged_shift_iff (hc : c.Valid) :
    c.shift.staged = c.staged ↔ c.staged.drop c.bytesConsumed <+: c.staged := by
  have hstaged : c.staged = slice c.inpBuf c.bytesConsumed (c.buffSize - c.bytesConsumed) := rfl
  have hcells : c.shift.staged = c.staged ↔
      ∀ i, c.bytesConsumed + i < c.buffSize - c.bytesConsumed →
        c.inpBuf (c.bytesConsumed + c.bytesConsumed + i) = c.inpBuf (c.bytesConsumed + i) := by
    rw [hc.shift_eq, staged, staged, slice_eq_slice_iff]
    refine forall_congr' fun i => ?_
    dsimp only
    rw [memcpy_zero_apply]
    by_cases hlt : c.bytesConsumed + i < c.buffSize - c.bytesConsumed
    · rw [if_pos hlt, Nat.add_assoc]
      exact ⟨fun h _ => h (by omega), fun h _ => h hlt⟩
    · rw [if_neg hlt]
      exact ⟨fun _ h => absurd h hlt, fun _ _ => rfl⟩
  rw [hcells, List.prefix_iff_eq_take, List.length_drop, length_staged]
  by_cases hle : c.bytesConsumed ≤ c.buffSize - c.bytesConsumed
  · rw [hstaged, drop_slice _ _ _ _ hle, take_slice _ _ _ _ (Nat.sub_le _ _),
      slice_eq_slice_iff]
    exact forall_congr' fun i => ⟨fun h hi => h (by omega), fun h hi => h (by omega)⟩
  · have hnil : c.staged.drop c.bytesConsumed = [] :=
      List.drop_eq_nil_of_le (by rw [length_staged]; omega)
    have hzero : c.buffSize - c.bytesConsumed - c.bytesConsumed = 0 := by omega
    rw [hnil, hzero, List.take_zero]
    exact iff_of_true (fun i hi => absurd hi (by omega)) rfl

/-! ## the order is kept -/

/-- Received bytes are appended to the unread ones. -/
theorem InOrder.recv (h : c.InOrder unread received) (buffer : List UInt8) :
    c.InOrder (unread ++ buffer) (received ++ buffer) := by
  refine ⟨h.valid, ?_, fun call hcall => ?_⟩
  · rw [← List.append_assoc, h.stream]
  · exact (h.calls call hcall).trans (List.prefix_append received buffer)

/-- A new input buffer stages nothing. -/
theorem InOrder.alloc (hconsumed : c.consumed = []) (hcalls : c.calls = [])
    (uiSize : Fin (2 ^ 31)) : (c.alloc uiSize).InOrder received received := by
  refine ⟨⟨Nat.le_refl _, Nat.le_refl _, uiSize.isLt⟩, ?_, fun call hcall => ?_⟩
  · have hstaged : (c.alloc uiSize).staged = [] := by
      apply List.eq_nil_of_length_eq_zero
      simp [CodecInput.alloc]
    rw [hstaged, show (c.alloc uiSize).consumed = [] from hconsumed]
    rfl
  · rw [show (c.alloc uiSize).calls = [] from hcalls] at hcall
    cases hcall

/-- The codec consumes a part of what it is given. -/
theorem InOrder.process (h : c.InOrder unread received) (hzero : c.bytesConsumed = 0)
    (consume : Consumption) : (c.process consume).InOrder unread received := by
  have hle : (consume c.buffSize).val ≤ c.buffSize := Nat.lt_succ_iff.mp (consume c.buffSize).isLt
  have hstaged : c.staged = slice c.inpBuf 0 c.buffSize := by
    simp [staged, hzero]
  have hsplit : slice c.inpBuf 0 (consume c.buffSize) ++ (c.process consume).staged =
      c.staged := by
    rw [hstaged]
    have hadd := slice_add c.inpBuf 0 (consume c.buffSize) (c.buffSize - consume c.buffSize)
    rw [Nat.zero_add, Nat.add_sub_cancel' hle] at hadd
    exact hadd.symm
  refine ⟨⟨hle, h.valid.buff_le, h.valid.size_lt⟩, ?_, fun call hcall => ?_⟩
  · rw [← h.stream, ← hsplit]
    simp [CodecInput.process]
  · rw [show (c.process consume).calls = c.calls ++ [⟨c.consumed, slice c.inpBuf 0 c.buffSize⟩]
      from rfl, List.mem_append, List.mem_singleton] at hcall
    obtain hold | rfl := hcall
    · exact h.calls call hold
    · rw [← h.stream, hstaged]
      exact List.prefix_append _ _

/-- The input of the next call: the staged bytes moved to the front, what the
ring has behind them, and nothing of it consumed. -/
theorem InOrder.refill (h : c.InOrder (ring.contents cap) received) (hr : ring.WF cap) :
    ∃ inpBuf, c.shift.fill cap ring =
        (ring.advance cap (c.readable cap ring), { c with inpBuf := inpBuf },
          c.readable cap ring) ∧
      ({ c with
        inpBuf := inpBuf
        buffSize := c.buffSize - c.bytesConsumed + c.readable cap ring
        bytesConsumed := 0 } : CodecInput).InOrder
          ((ring.advance cap (c.readable cap ring)).contents cap) received := by
  obtain ⟨inpBuf, hfill, hslice⟩ := fill_shift h.valid hr
  refine ⟨inpBuf, hfill, ⟨Nat.zero_le _, ?_, h.valid.size_lt⟩, ?_, h.calls⟩
  · have hmin : c.readable cap ring ≤ c.inpSize - (c.buffSize - c.bytesConsumed) :=
      Nat.min_le_left _ _
    have h1 := h.valid.buff_le
    show c.buffSize - c.bytesConsumed + c.readable cap ring ≤ c.inpSize
    omega
  · rw [← h.stream, List.append_assoc, List.append_assoc, ← hslice]
    rfl

end CodecInput
end Fr5080
