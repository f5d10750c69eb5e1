import Mathlib.Algebra.Ring.Nat
import Mathlib.Data.List.Basic

/-!
# Embedded.ChunkQueue

A stream of elements that arrives in chunks and is consumed from the front in
pieces of other sizes.  A chunk keeps an `offset`, the number of its elements
already consumed, and a `tag` for its owner; the queue of chunks stands for
the one `stream` of what is still to come.

* `advance q n` — the queue after `n` more elements have been consumed;
* `passed q n` — the tags of the chunks consumed to their last element by then;
* `advance_advance`, `passed_add` — pieces add up, whatever their sizes;
* `advance_append`, `passed_append` — a chunk that arrives later is no matter.
-/

namespace Embedded

/-- A chunk of a stream, the first `offset` elements of which are consumed. -/
structure Chunk (ι α : Type*) where
  tag : ι
  data : List α
  offset : Nat
  offset_le : offset ≤ data.length

namespace Chunk

variable {ι α : Type*}

/-- A chunk of which nothing is consumed yet. -/
def fresh (tag : ι) (data : List α) : Chunk ι α := ⟨tag, data, 0, Nat.zero_le _⟩

/-- The number of elements still to come. -/
def left (c : Chunk ι α) : Nat := c.data.length - c.offset

/-- The elements still to come. -/
def rest (c : Chunk ι α) : List α := c.data.drop c.offset

/-- The chunk after `n` more of its elements have been consumed. -/
def skip (c : Chunk ι α) (n : Nat) (h : n ≤ c.left) : Chunk ι α :=
  ⟨c.tag, c.data, c.offset + n, by
    have := c.offset_le
    unfold left at h
    omega⟩

@[simp] theorem length_rest (c : Chunk ι α) : c.rest.length = c.left := by
  simp [rest, left]

@[simp] theorem left_fresh (tag : ι) (data : List α) :
    (fresh tag data).left = data.length := by
  simp [fresh, left]

@[simp] theorem rest_fresh (tag : ι) (data : List α) : (fresh tag data).rest = data := by
  simp [fresh, rest]

@[simp] theorem left_skip (c : Chunk ι α) (n : Nat) (h : n ≤ c.left) :
    (c.skip n h).left = c.left - n := by
  simp only [skip, left]
  omega

@[simp] theorem rest_skip (c : Chunk ι α) (n : Nat) (h : n ≤ c.left) :
    (c.skip n h).rest = c.rest.drop n := by
  simp [skip, rest, Nat.add_comm]

theorem skip_skip (c : Chunk ι α) (m n : Nat) (hm : m ≤ c.left) (hn : n ≤ (c.skip m hm).left)
    (h : m + n ≤ c.left) : (c.skip m hm).skip n hn = c.skip (m + n) h := by
  simp [skip, Nat.add_assoc]

end Chunk

variable {ι α : Type*}

/-! ## the stream of a queue -/

/-- What is still to come from a queue of chunks. -/
def stream (q : List (Chunk ι α)) : List α := (q.map Chunk.rest).flatten

@[simp] theorem stream_nil : stream ([] : List (Chunk ι α)) = [] := rfl

@[simp] theorem stream_cons (c : Chunk ι α) (q : List (Chunk ι α)) :
    stream (c :: q) = c.rest ++ stream q := rfl

@[simp] theorem stream_append (q r : List (Chunk ι α)) :
    stream (q ++ r) = stream q ++ stream r := by
  simp [stream]

/-- The next elements all come from the first chunk. -/
theorem take_stream_of_lt {c : Chunk ι α} {n : Nat} (q : List (Chunk ι α)) (h : n < c.left) :
    (stream (c :: q)).take n = c.rest.take n := by
  rw [stream_cons, List.take_append_of_le_length (by simp; omega)]

/-- The first chunk to its end, and what follows. -/
theorem take_stream_of_le {c : Chunk ι α} {n : Nat} (q : List (Chunk ι α)) (h : c.left ≤ n) :
    (stream (c :: q)).take n = c.rest ++ (stream q).take (n - c.left) := by
  rw [stream_cons, List.take_append, List.take_of_length_le (by simpa using h), Chunk.length_rest]

/-- The stream is as long as the chunks say. -/
theorem length_stream (q : List (Chunk ι α)) :
    (stream q).length = (q.map Chunk.left).sum := by
  induction q with
  | nil => rfl
  | cons c q ih => simp [ih]

/-! ## consuming -/

/-- The queue after `n` more elements have been consumed; a chunk leaves it
with its last element. -/
def advance : List (Chunk ι α) → Nat → List (Chunk ι α)
  | [], _ => []
  | c :: q, n =>
      if h : n < c.left then c.skip n (Nat.le_of_lt h) :: q else advance q (n - c.left)

/-- The tags of the chunks whose last element is among the next `n`. -/
def passed : List (Chunk ι α) → Nat → List ι
  | [], _ => []
  | c :: q, n => if n < c.left then [] else c.tag :: passed q (n - c.left)

/-- Less than the first chunk. -/
theorem advance_cons_of_lt {c : Chunk ι α} {n : Nat} (q : List (Chunk ι α)) (h : n < c.left) :
    advance (c :: q) n = c.skip n (Nat.le_of_lt h) :: q := by
  simp [advance, h]

/-- The first chunk, and what is behind it. -/
theorem advance_cons_of_le {c : Chunk ι α} {n : Nat} (q : List (Chunk ι α)) (h : c.left ≤ n) :
    advance (c :: q) n = advance q (n - c.left) := by
  simp [advance, Nat.not_lt.mpr h]

/-- The first chunk is not passed. -/
theorem passed_cons_of_lt {c : Chunk ι α} {n : Nat} (q : List (Chunk ι α)) (h : n < c.left) :
    passed (c :: q) n = [] := by
  simp [passed, h]

/-- The first chunk is passed. -/
theorem passed_cons_of_le {c : Chunk ι α} {n : Nat} (q : List (Chunk ι α)) (h : c.left ≤ n) :
    passed (c :: q) n = c.tag :: passed q (n - c.left) := by
  simp [passed, Nat.not_lt.mpr h]

/-- Consuming drops from the stream. -/
@[simp] theorem stream_advance (q : List (Chunk ι α)) (n : Nat) :
    stream (advance q n) = (stream q).drop n := by
  induction q generalizing n with
  | nil => simp [advance]
  | cons c q ih =>
      by_cases h : n < c.left
      · have hle : n ≤ c.rest.length := by simp; omega
        rw [advance_cons_of_lt q h, stream_cons, stream_cons, Chunk.rest_skip,
          List.drop_append_of_le_length hle]
      · have hge : c.left ≤ n := Nat.not_lt.mp h
        have hnil : c.rest.drop n = [] := List.drop_eq_nil_of_le (by simpa using hge)
        rw [advance_cons_of_le q hge, ih, stream_cons, List.drop_append, hnil,
          Chunk.length_rest, List.nil_append]

/-- Two pieces are one piece of the sum of their sizes. -/
theorem advance_advance (q : List (Chunk ι α)) (m n : Nat) :
    advance (advance q m) n = advance q (m + n) := by
  induction q generalizing m with
  | nil => rfl
  | cons c q ih =>
      by_cases hm : m < c.left
      · rw [advance_cons_of_lt q hm]
        by_cases hn : m + n < c.left
        · have hn' : n < (c.skip m (Nat.le_of_lt hm)).left := by simp; omega
          rw [advance_cons_of_lt q hn', advance_cons_of_lt q hn, Chunk.skip_skip]
        · have hn' : (c.skip m (Nat.le_of_lt hm)).left ≤ n := by simp; omega
          have hsub : n - (c.left - m) = m + n - c.left := by omega
          rw [advance_cons_of_le q hn', advance_cons_of_le q (Nat.not_lt.mp hn),
            Chunk.left_skip, hsub]
      · have hm' : c.left ≤ m := Nat.not_lt.mp hm
        have hsub : m - c.left + n = m + n - c.left := by omega
        rw [advance_cons_of_le q hm', ih, advance_cons_of_le q (by omega), hsub]

/-- Consumed in two pieces, the chunks pass in the same order. -/
theorem passed_add (q : List (Chunk ι α)) (m n : Nat) :
    passed q (m + n) = passed q m ++ passed (advance q m) n := by
  induction q generalizing m with
  | nil => rfl
  | cons c q ih =>
      by_cases hm : m < c.left
      · rw [advance_cons_of_lt q hm, passed_cons_of_lt q hm, List.nil_append]
        by_cases hn : m + n < c.left
        · have hn' : n < (c.skip m (Nat.le_of_lt hm)).left := by simp; omega
          rw [passed_cons_of_lt q hn', passed_cons_of_lt q hn]
        · have hn' : (c.skip m (Nat.le_of_lt hm)).left ≤ n := by simp; omega
          have hsub : n - (c.left - m) = m + n - c.left := by omega
          rw [passed_cons_of_le q hn', passed_cons_of_le q (Nat.not_lt.mp hn),
            Chunk.left_skip, hsub]
          rfl
      · have hm' : c.left ≤ m := Nat.not_lt.mp hm
        have hsub : m - c.left + n = m + n - c.left := by omega
        rw [advance_cons_of_le q hm', passed_cons_of_le q hm', passed_cons_of_le q (by omega),
          List.cons_append, ← ih, hsub]

/-! ## arriving chunks -/

/-- Chunks with something to come are not touched by consuming nothing. -/
theorem advance_zero {q : List (Chunk ι α)} (h : ∀ c ∈ q, 0 < c.left) : advance q 0 = q := by
  cases q with
  | nil => rfl
  | cons c q =>
      rw [advance_cons_of_lt q (h c List.mem_cons_self)]
      rfl

theorem passed_zero {q : List (Chunk ι α)} (h : ∀ c ∈ q, 0 < c.left) : passed q 0 = [] := by
  cases q with
  | nil => rfl
  | cons c q => exact passed_cons_of_lt q (h c List.mem_cons_self)

/-- There is no more to consume than the stream. -/
theorem advance_min_length {q : List (Chunk ι α)} (h : ∀ c ∈ q, 0 < c.left) (n : Nat) :
    advance q n = advance q (min n (stream q).length) := by
  induction q generalizing n with
  | nil => rfl
  | cons c q ih =>
      have hc := h c List.mem_cons_self
      by_cases hn : n < c.left
      · have hmin : min n (stream (c :: q)).length = n := by simp; omega
        rw [hmin]
      · have hle : c.left ≤ n := Nat.not_lt.mp hn
        have hmin : min n (stream (c :: q)).length =
            c.left + min (n - c.left) (stream q).length := by simp; omega
        rw [hmin, advance_cons_of_le q hle, advance_cons_of_le q (by omega),
          ih (fun c' hc' => h c' (List.mem_cons_of_mem c hc')), Nat.add_sub_cancel_left]

/-- More than there is passes no more chunks. -/
theorem passed_min_length {q : List (Chunk ι α)} (h : ∀ c ∈ q, 0 < c.left) (n : Nat) :
    passed q n = passed q (min n (stream q).length) := by
  induction q generalizing n with
  | nil => rfl
  | cons c q ih =>
      have hc := h c List.mem_cons_self
      by_cases hn : n < c.left
      · have hmin : min n (stream (c :: q)).length = n := by simp; omega
        rw [hmin]
      · have hle : c.left ≤ n := Nat.not_lt.mp hn
        have hmin : min n (stream (c :: q)).length =
            c.left + min (n - c.left) (stream q).length := by simp; omega
        rw [hmin, passed_cons_of_le q hle, passed_cons_of_le q (by omega),
          ih (fun c' hc' => h c' (List.mem_cons_of_mem c hc')), Nat.add_sub_cancel_left]

/-- Chunks that arrive behind what is consumed stay as they are. -/
theorem advance_append {q r : List (Chunk ι α)} {n : Nat} (hr : ∀ c ∈ r, 0 < c.left)
    (h : n ≤ (stream q).length) : advance (q ++ r) n = advance q n ++ r := by
  induction q generalizing n with
  | nil =>
      have hn : n = 0 := by simpa using h
      rw [hn, List.nil_append, advance_zero hr]
      rfl
  | cons c q ih =>
      by_cases hn : n < c.left
      · rw [List.cons_append, advance_cons_of_lt _ hn, advance_cons_of_lt _ hn, List.cons_append]
      · have hn' : c.left ≤ n := Nat.not_lt.mp hn
        have hle : n - c.left ≤ (stream q).length := by
          simp only [stream_cons, List.length_append, Chunk.length_rest] at h
          omega
        rw [List.cons_append, advance_cons_of_le _ hn', advance_cons_of_le _ hn', ih hle]

/-- Chunks behind those that are read are not passed. -/
theorem passed_append {q r : List (Chunk ι α)} {n : Nat} (hr : ∀ c ∈ r, 0 < c.left)
    (h : n ≤ (stream q).length) : passed (q ++ r) n = passed q n := by
  induction q generalizing n with
  | nil =>
      have hn : n = 0 := by simpa using h
      rw [hn, List.nil_append, passed_zero hr]
      rfl
  | cons c q ih =>
      by_cases hn : n < c.left
      · rw [List.cons_append, passed_cons_of_lt _ hn, passed_cons_of_lt _ hn]
      · have hn' : c.left ≤ n := Nat.not_lt.mp hn
        have hle : n - c.left ≤ (stream q).length := by
          simp only [stream_cons, List.length_append, Chunk.length_rest] at h
          omega
        rw [List.cons_append, passed_cons_of_le _ hn', passed_cons_of_le _ hn', ih hle]

/-- The tags of the chunks consumed come first. -/
theorem passed_prefix (q : List (Chunk ι α)) (n : Nat) : passed q n <+: q.map Chunk.tag := by
  induction q generalizing n with
  | nil => simp [passed]
  | cons c q ih =>
      by_cases h : n < c.left
      · simp [passed_cons_of_lt q h]
      · rw [passed_cons_of_le q (Nat.not_lt.mp h), List.map_cons]
        exact List.cons_prefix_cons.mpr ⟨rfl, ih _⟩

/-- Consuming makes no chunk longer. -/
theorem sum_length_advance_le (q : List (Chunk ι α)) (n : Nat) :
    ((advance q n).map fun c => c.data.length).sum ≤ (q.map fun c => c.data.length).sum := by
  induction q generalizing n with
  | nil => simp [advance]
  | cons c q ih =>
      by_cases h : n < c.left
      · simp [advance_cons_of_lt q h, Chunk.skip]
      · rw [advance_cons_of_le q (Nat.not_lt.mp h), List.map_cons, List.sum_cons]
        have := ih (n - c.left)
        omega

/-- What is still to come is no more than all the data. -/
theorem length_stream_le (q : List (Chunk ι α)) :
    (stream q).length ≤ (q.map fun c => c.data.length).sum := by
  induction q with
  | nil => simp
  | cons c q ih =>
      have hleft : c.left ≤ c.data.length := Nat.sub_le _ _
      simp only [stream_cons, List.length_append, Chunk.length_rest, List.map_cons, List.sum_cons]
      omega

/-- Chunks in the queue have something to come, if they had so at first. -/
theorem left_pos_of_mem_advance {q : List (Chunk ι α)} {n : Nat} (h : ∀ c ∈ q, 0 < c.left) :
    ∀ c ∈ advance q n, 0 < c.left := by
  induction q generalizing n with
  | nil => exact h
  | cons c q ih =>
      have hq : ∀ c ∈ q, 0 < c.left := fun c' hc' => h c' (List.mem_cons_of_mem c hc')
      by_cases hn : n < c.left
      · rw [advance_cons_of_lt q hn]
        intro c' hc'
        cases hc' with
        | head => simp; omega
        | tail _ hmem => exact hq c' hmem
      · rw [advance_cons_of_le q (Nat.not_lt.mp hn)]
        exact ih hq

end Embedded
