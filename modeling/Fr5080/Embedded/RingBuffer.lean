import Fr5080.Embedded.Mem

/-!
# Embedded.RingBuffer

The two-index ring buffer of small embedded decoders: a block of `cap`
cells, a write index `inp` and a read index `out`, no counter.  Equal
indexes mean *empty*, so at most `cap - 1` cells are ever unread.

* `RingBuffer.recv` appends a block with at most two copies, splitting at the end
  of the buffer;
* `RingBuffer.getData` copies up to `size` unread cells into a destination buffer,
  calling itself once more after the read index wrapped.

`RingBuffer.contents` is the abstract FIFO queue: `contents_recv` says that `recv`
appends to it, `getData_eq` that `getData` takes from its front.
-/

namespace Embedded

variable {α : Type*}

/-- A ring buffer: the block of cells, the write and the read index. -/
structure RingBuffer (α : Type*) where
  buf : Nat → α
  inp : Nat
  out : Nat

namespace RingBuffer

/-! ## the operations -/

/-- Append `xs` at the write index, going on at cell 0 when the end of the
buffer is reached. -/
def recv (cap : Nat) (r : RingBuffer α) (xs : List α) : RingBuffer α :=
  let leftSpace := cap - r.inp
  if leftSpace ≤ xs.length then
    let buf := store r.buf r.inp (xs.take leftSpace)
    let rest := xs.drop leftSpace
    if rest.length ≠ 0 then { r with buf := store buf 0 rest, inp := rest.length }
    else { r with buf := buf, inp := 0 }
  else { r with buf := store r.buf r.inp xs, inp := r.inp + xs.length }

/-- Copy up to `size` unread cells to `dst + off`; the last component is the
number of cells dealt with.  `fuel` bounds the recursion: two levels are
always enough (`getData_eq`). -/
def getData (cap : Nat) :
    Nat → RingBuffer α → (Nat → α) → Nat → Nat → RingBuffer α × (Nat → α) × Nat
  | 0, r, dst, _, _ => (r, dst, 0)
  | fuel + 1, r, dst, off, size =>
      if r.out < r.inp then
        let length := r.inp - r.out
        let size := if length < size then length else size
        ({ r with out := r.out + size }, memcpy dst off r.buf r.out size, size)
      else if r.out = r.inp then (r, dst, 0)
      else
        let length := cap - r.out
        let length := if length ≥ size then size else length
        let dst := memcpy dst off r.buf r.out length
        let out := r.out + length
        let r := { r with out := if out = cap then 0 else out }
        if length ≠ size then
          let (r, dst, dealt) := getData cap fuel r dst (off + length) (size - length)
          (r, dst, length + dealt)
        else (r, dst, length)

/-! ## the abstract queue -/

/-- Both indexes point into the buffer. -/
structure WF (cap : Nat) (r : RingBuffer α) : Prop where
  inp_lt : r.inp < cap
  out_lt : r.out < cap

/-- Number of unread cells. -/
def used (cap : Nat) (r : RingBuffer α) : Nat :=
  if r.out > r.inp then r.inp + cap - r.out else r.inp - r.out

/-- Position of the cell `i` places after the start, at most one lap on. -/
def wrap (cap i : Nat) : Nat := if i < cap then i else i - cap

/-- The unread cells, oldest first. -/
def contents (cap : Nat) (r : RingBuffer α) : List α :=
  (List.range (r.used cap)).map fun i => r.buf (wrap cap (r.out + i))

/-- The ring after `n` cells have been read. -/
def advance (cap : Nat) (r : RingBuffer α) (n : Nat) : RingBuffer α :=
  { r with out := wrap cap (r.out + n) }

@[simp] theorem length_contents (cap : Nat) (r : RingBuffer α) :
    (r.contents cap).length = r.used cap := by
  simp [contents]

/-- The two shapes of `used`, to be split on instead of unfolding it. -/
theorem used_cases (cap : Nat) (r : RingBuffer α) :
    (r.out ≤ r.inp ∧ r.used cap = r.inp - r.out) ∨
      (r.inp < r.out ∧ r.used cap = r.inp + cap - r.out) := by
  unfold used
  split <;> omega

/-- The two shapes of `wrap`. -/
theorem wrap_cases (cap i : Nat) :
    (i < cap ∧ wrap cap i = i) ∨ (cap ≤ i ∧ wrap cap i = i - cap) := by
  unfold wrap
  split <;> omega

/-- Two moves of an index. -/
theorem wrap_wrap_add {cap out a b : Nat} (hout : out < cap) (hab : a + b ≤ cap) :
    wrap cap (wrap cap (out + a) + b) = wrap cap (out + (a + b)) := by
  obtain hw | hw := wrap_cases cap (out + a) <;>
    obtain hw' | hw' := wrap_cases cap (wrap cap (out + a) + b) <;>
    obtain hw'' | hw'' := wrap_cases cap (out + (a + b)) <;> omega

/-- One cell always stays free. -/
theorem WF.used_lt {cap : Nat} {r : RingBuffer α} (h : r.WF cap) : r.used cap < cap := by
  have h1 := h.inp_lt
  have h2 := h.out_lt
  obtain hu | hu := used_cases cap r <;> omega

/-- The indexes coincide exactly when nothing is unread. -/
theorem WF.used_eq_zero_iff {cap : Nat} {r : RingBuffer α} (h : r.WF cap) :
    r.used cap = 0 ↔ r.out = r.inp := by
  have h1 := h.inp_lt
  have h2 := h.out_lt
  obtain hu | hu := used_cases cap r <;> omega

theorem getElem_contents {cap : Nat} {r : RingBuffer α} (i : Nat)
    (hi : i < (r.contents cap).length) :
    (r.contents cap)[i] = r.buf (wrap cap (r.out + i)) := by
  simp [contents]

/-- The first unread cells are a slice as long as the end of the buffer is
not passed. -/
theorem take_contents {cap : Nat} {r : RingBuffer α} {n : Nat} (hn : n ≤ r.used cap)
    (hcap : r.out + n ≤ cap) : (r.contents cap).take n = slice r.buf r.out n := by
  apply List.ext_getElem
  · simp [hn]
  · intro i hi _
    have hlt : i < n := by simp at hi; omega
    rw [List.getElem_take, getElem_contents, getElem_slice, wrap, if_pos (by omega)]

/-! ## reading -/

theorem WF.advance {cap : Nat} {r : RingBuffer α} (h : r.WF cap) {n : Nat} (hn : n ≤ r.used cap) :
    (r.advance cap n).WF cap := by
  have h1 := h.used_lt
  have h2 := h.out_lt
  refine ⟨h.inp_lt, ?_⟩
  show wrap cap (r.out + n) < cap
  obtain hw | hw := wrap_cases cap (r.out + n) <;> omega

theorem used_advance {cap : Nat} {r : RingBuffer α} (h : r.WF cap) {n : Nat} (hn : n ≤ r.used cap) :
    (r.advance cap n).used cap = r.used cap - n := by
  have h1 := h.inp_lt
  have h2 := h.out_lt
  have hout : (r.advance cap n).out = wrap cap (r.out + n) := rfl
  have hinp : (r.advance cap n).inp = r.inp := rfl
  obtain hu | hu := used_cases cap r <;>
    obtain hu' | hu' := used_cases cap (r.advance cap n) <;>
    obtain hw | hw := wrap_cases cap (r.out + n) <;> omega

/-- Reading `n` cells drops them from the queue. -/
theorem contents_advance {cap : Nat} {r : RingBuffer α} (h : r.WF cap) {n : Nat}
    (hn : n ≤ r.used cap) : (r.advance cap n).contents cap = (r.contents cap).drop n := by
  apply List.ext_getElem
  · simp [used_advance h hn]
  · intro i hi hi'
    have hu := h.used_lt
    have h2 := h.out_lt
    have hlt : i < r.used cap - n := by simpa using hi'
    rw [List.getElem_drop, getElem_contents, getElem_contents]
    show r.buf (wrap cap (wrap cap (r.out + n) + i)) = r.buf (wrap cap (r.out + (n + i)))
    rw [wrap_wrap_add h.out_lt (by omega)]

/-- Reading in two steps. -/
theorem advance_advance {cap : Nat} {r : RingBuffer α} (h : r.WF cap) {a b : Nat}
    (hab : a + b ≤ cap) : (r.advance cap a).advance cap b = r.advance cap (a + b) := by
  simp only [RingBuffer.advance, wrap_wrap_add h.out_lt hab]

/-- Reading up to the end of the buffer. -/
theorem WF.advance_end {cap : Nat} {r : RingBuffer α} (h : r.WF cap) :
    r.advance cap (cap - r.out) = { r with out := 0 } := by
  have h2 := h.out_lt
  have hend : r.out + (cap - r.out) = cap := by omega
  simp only [RingBuffer.advance, hend, wrap]
  rw [if_neg (Nat.lt_irrefl cap), Nat.sub_self]

/-- `getData` on a ring whose unread cells do not pass the end of the buffer. -/
theorem getData_straight {cap : Nat} {r : RingBuffer α} (h : r.WF cap) (hle : r.out ≤ r.inp)
    (fuel : Nat) (dst : Nat → α) (off size : Nat) :
    getData cap (fuel + 1) r dst off size =
      (r.advance cap (min size (r.used cap)),
        store dst off ((r.contents cap).take size), min size (r.used cap)) := by
  have h1 := h.inp_lt
  have hused : r.used cap = r.inp - r.out := by
    obtain hu | hu := used_cases cap r <;> omega
  have htake : (r.contents cap).take size =
      slice r.buf r.out (min size (r.used cap)) := by
    rw [← take_contents (Nat.min_le_right _ _) (by omega),
      List.take_eq_take_iff, length_contents]
    omega
  rw [htake]
  unfold getData
  split
  · next hlt =>
      have hmin : (if r.inp - r.out < size then r.inp - r.out else size) =
          min size (r.used cap) := by
        rw [hused]; split <;> omega
      simp only [hmin, RingBuffer.advance, memcpy, wrap]
      rw [if_pos (by omega)]
  · next hlt =>
      have heq : r.out = r.inp := by omega
      have hzero : min size (r.used cap) = 0 := by omega
      rw [if_pos heq, hzero]
      simp [RingBuffer.advance, wrap, h.out_lt]

/-- **Reading**: `getData` moves the first `min size unread` cells of the
queue to the destination, and nothing else, whatever the indexes are. -/
theorem getData_eq {cap : Nat} {r : RingBuffer α} (h : r.WF cap) (fuel : Nat) (dst : Nat → α)
    (off size : Nat) :
    getData cap (fuel + 2) r dst off size =
      (r.advance cap (min size (r.used cap)),
        store dst off ((r.contents cap).take size), min size (r.used cap)) := by
  by_cases hle : r.out ≤ r.inp
  · exact getData_straight h hle (fuel + 1) dst off size
  · have h1 := h.inp_lt
    have h2 := h.out_lt
    have hused : r.used cap = r.inp + cap - r.out := by
      obtain hu | hu := used_cases cap r <;> omega
    unfold getData
    rw [if_neg (by omega), if_neg (by omega)]
    by_cases hsize : size ≤ cap - r.out
    · -- the request ends before the end of the buffer: no second level
      have hmin : min size (r.used cap) = size := by omega
      have hlen : (if cap - r.out ≥ size then size else cap - r.out) = size := if_pos hsize
      have hout : (if r.out + size = cap then 0 else r.out + size) = wrap cap (r.out + size) := by
        unfold wrap; split <;> split <;> omega
      rw [hmin, take_contents (by omega) (by omega)]
      simp only [hlen, hout, ne_eq, not_true_eq_false, if_false, RingBuffer.advance, memcpy]
    · -- the read index wraps to 0 and the second level reads from the start
      have hlen : (if cap - r.out ≥ size then size else cap - r.out) = cap - r.out :=
        if_neg (by omega)
      have hadv : ({ r with out := if r.out + (cap - r.out) = cap then 0
          else r.out + (cap - r.out) } : RingBuffer α) = r.advance cap (cap - r.out) := by
        rw [if_pos (by omega), h.advance_end]
      have hn : cap - r.out ≤ r.used cap := by omega
      have hwf := h.advance hn
      have hout : (r.advance cap (cap - r.out)).out ≤ (r.advance cap (cap - r.out)).inp := by
        rw [h.advance_end]
        exact Nat.zero_le r.inp
      simp only [hlen, hadv]
      rw [if_pos (by omega), getData_straight hwf hout fuel, used_advance h hn,
        contents_advance h hn]
      have hfst : slice r.buf r.out (cap - r.out) = (r.contents cap).take (cap - r.out) :=
        (take_contents hn (by omega)).symm
      have hsplit : (r.contents cap).take size =
          (r.contents cap).take (cap - r.out) ++
            ((r.contents cap).drop (cap - r.out)).take (size - (cap - r.out)) := by
        rw [← List.take_add]
        congr 1
        omega
      have hoff : off + (cap - r.out) =
          off + ((r.contents cap).take (cap - r.out)).length := by
        rw [List.length_take, length_contents, Nat.min_eq_left hn]
      simp only [memcpy, hfst]
      rw [hoff, store_store_append, ← hsplit]
      have hdealt : cap - r.out + min (size - (cap - r.out)) (r.used cap - (cap - r.out)) =
          min size (r.used cap) := by omega
      refine Prod.ext ?_ (Prod.ext rfl hdealt)
      show (r.advance cap (cap - r.out)).advance cap _ = _
      rw [advance_advance h (by omega), hdealt]

/-- **Refilling**: `left` cells moved to the front of a staging buffer and the
next unread cells put behind them; together with what stays unread they are
the same sequence as before. -/
theorem slice_getData_refill {cap : Nat} {r : RingBuffer α} (h : r.WF cap) (inp : Nat → α)
    (start left size : Nat) :
    slice (getData cap 2 r (memcpy inp 0 inp start left) left size).2.1 0
        (left + min size (r.used cap)) ++ (r.contents cap).drop (min size (r.used cap)) =
      slice inp start left ++ r.contents cap := by
  rw [getData_eq h 0]
  have hstore : store (memcpy inp 0 inp start left) left ((r.contents cap).take size) =
      store inp 0 (slice inp start left ++ (r.contents cap).take size) := by
    have happend := store_store_append inp 0 (slice inp start left) ((r.contents cap).take size)
    rwa [length_slice, Nat.zero_add] at happend
  have hself := slice_store_self inp 0 (slice inp start left ++ (r.contents cap).take size)
  rw [List.length_append, length_slice, List.length_take, length_contents] at hself
  have htake : (r.contents cap).take size = (r.contents cap).take (min size (r.used cap)) := by
    rw [List.take_eq_take_iff, length_contents]
    omega
  simp only [hstore, hself]
  rw [htake, List.append_assoc, List.take_append_drop]

/-! ## writing -/

/- Whether or not the block passes the end of the buffer, `recv` is the same
two stores: with no wrap the second one is empty. -/

theorem buf_recv (cap : Nat) (r : RingBuffer α) (xs : List α) :
    (r.recv cap xs).buf =
      store (store r.buf r.inp (xs.take (cap - r.inp))) 0 (xs.drop (cap - r.inp)) := by
  simp only [RingBuffer.recv]
  by_cases hwrap : cap - r.inp ≤ xs.length
  · rw [if_pos hwrap]
    by_cases hrest : (xs.drop (cap - r.inp)).length ≠ 0
    · rw [if_pos hrest]
    · have hnil : xs.drop (cap - r.inp) = [] := List.eq_nil_of_length_eq_zero (by omega)
      rw [if_neg hrest, hnil, store_nil]
  · rw [if_neg hwrap, List.take_of_length_le (by omega), List.drop_of_length_le (by omega),
      store_nil]

theorem inp_recv {cap : Nat} {r : RingBuffer α} (h : r.WF cap) (xs : List α) :
    (r.recv cap xs).inp = wrap cap (r.inp + xs.length) := by
  have h1 := h.inp_lt
  simp only [RingBuffer.recv, wrap]
  by_cases hwrap : cap - r.inp ≤ xs.length
  · have hge : ¬ r.inp + xs.length < cap := by omega
    rw [if_pos hwrap, if_neg hge]
    split
    · simp only [List.length_drop]
      omega
    · next hrest =>
        rw [List.length_drop] at hrest
        show 0 = r.inp + xs.length - cap
        omega
  · have hlt : r.inp + xs.length < cap := by omega
    rw [if_neg hwrap, if_pos hlt]

/-- `recv` never moves the read index. -/
@[simp] theorem out_recv (cap : Nat) (r : RingBuffer α) (xs : List α) :
    (r.recv cap xs).out = r.out := by
  simp only [RingBuffer.recv]
  split
  · split <;> rfl
  · rfl

/-- The indexes stay in range even when unread cells are overwritten. -/
theorem WF.recv_of_lt {cap : Nat} {r : RingBuffer α} (h : r.WF cap) {xs : List α}
    (hx : xs.length < cap) : (r.recv cap xs).WF cap := by
  have h1 := h.inp_lt
  refine ⟨?_, by rw [out_recv]; exact h.out_lt⟩
  rw [inp_recv h]
  obtain hw | hw := wrap_cases cap (r.inp + xs.length) <;> omega

theorem WF.recv {cap : Nat} {r : RingBuffer α} (h : r.WF cap) {xs : List α}
    (hx : r.used cap + xs.length < cap) : (r.recv cap xs).WF cap :=
  h.recv_of_lt (by omega)

theorem used_recv {cap : Nat} {r : RingBuffer α} (h : r.WF cap) {xs : List α}
    (hx : r.used cap + xs.length < cap) :
    (r.recv cap xs).used cap = r.used cap + xs.length := by
  have h1 := h.inp_lt
  have h2 := h.out_lt
  have hinp := inp_recv h xs
  have hout := out_recv cap r xs
  obtain hu | hu := used_cases cap r <;>
    obtain hu' | hu' := used_cases cap (r.recv cap xs) <;>
    obtain hw | hw := wrap_cases cap (r.inp + xs.length) <;> omega

/-- The cell of the ring that holds the `i`-th received element. -/
theorem buf_recv_new {cap : Nat} {r : RingBuffer α} (h : r.WF cap) {xs : List α}
    (hx : xs.length < cap) (i : Nat) (hi : i < xs.length) :
    (r.recv cap xs).buf (wrap cap (r.inp + i)) = xs[i] := by
  have h1 := h.inp_lt
  rw [buf_recv, wrap]
  by_cases hlt : r.inp + i < cap
  · rw [if_pos hlt, store_of_not_mem _ _ _ _ (by rw [List.length_drop]; omega),
      store_add _ _ _ _ (by rw [List.length_take]; omega), List.getElem_take]
  · have hpos : r.inp + i - cap = 0 + (i - (cap - r.inp)) := by omega
    rw [if_neg hlt, hpos, store_add _ _ _ _ (by rw [List.length_drop]; omega),
      List.getElem_drop]
    congr 1
    omega

/-- Cells that `recv` does not reach keep their values. -/
theorem buf_recv_old {cap : Nat} {r : RingBuffer α} (h : r.WF cap) {xs : List α}
    (hx : r.used cap + xs.length < cap) (i : Nat) (hi : i < r.used cap) :
    (r.recv cap xs).buf (wrap cap (r.out + i)) = r.buf (wrap cap (r.out + i)) := by
  have h1 := h.inp_lt
  have h2 := h.out_lt
  have hpos : (wrap cap (r.out + i) < r.inp ∨ r.inp + xs.length ≤ wrap cap (r.out + i)) ∧
      (xs.length - (cap - r.inp) ≤ wrap cap (r.out + i)) := by
    obtain hu | hu := used_cases cap r <;>
      obtain hw | hw := wrap_cases cap (r.out + i) <;> omega
  rw [buf_recv, store_of_not_mem _ _ _ _ (by rw [List.length_drop]; omega),
    store_of_not_mem _ _ _ _ (by rw [List.length_take]; omega)]

/-- The write index is where the queue ends. -/
theorem wrap_out_add_used {cap : Nat} {r : RingBuffer α} (h : r.WF cap) (i : Nat)
    (hi : r.used cap + i < cap) :
    wrap cap (r.out + (r.used cap + i)) = wrap cap (r.inp + i) := by
  have h1 := h.inp_lt
  have h2 := h.out_lt
  obtain hu | hu := used_cases cap r <;>
    obtain hw | hw := wrap_cases cap (r.out + (r.used cap + i)) <;>
    obtain hw' | hw' := wrap_cases cap (r.inp + i) <;> omega

/-- **Writing**: as long as one cell stays free, `recv` appends to the queue. -/
theorem contents_recv {cap : Nat} {r : RingBuffer α} (h : r.WF cap) {xs : List α}
    (hx : r.used cap + xs.length < cap) :
    (r.recv cap xs).contents cap = r.contents cap ++ xs := by
  apply List.ext_getElem
  · simp [used_recv h hx]
  · intro i hi hi'
    rw [getElem_contents, out_recv]
    by_cases hlt : i < r.used cap
    · rw [List.getElem_append_left (by simpa using hlt), getElem_contents,
        buf_recv_old h hx i hlt]
    · have hi2 : i < r.used cap + xs.length := by simpa [used_recv h hx] using hi
      obtain ⟨k, rfl⟩ := Nat.exists_eq_add_of_le (Nat.le_of_not_lt hlt)
      rw [List.getElem_append_right (by simp), wrap_out_add_used h k (by omega),
        buf_recv_new h (by omega) k (by omega)]
      congr 1
      simp

/-! ## a full ring -/

/-- A block that does not fit makes the ring forget the unread cells and the
part of the block that fills it up. -/
theorem contents_recv_full {cap : Nat} {r : RingBuffer α} (h : r.WF cap) {xs : List α}
    (hx : xs.length < cap) (hfull : cap ≤ r.used cap + xs.length) :
    (r.recv cap xs).contents cap = xs.drop (cap - r.used cap) := by
  have h1 := h.inp_lt
  have h2 := h.out_lt
  have h3 := h.used_lt
  have hused : (r.recv cap xs).used cap = r.used cap + xs.length - cap := by
    have hinp := inp_recv h xs
    have hout := out_recv cap r xs
    obtain hu | hu := used_cases cap r <;>
      obtain hu' | hu' := used_cases cap (r.recv cap xs) <;>
      obtain hw | hw := wrap_cases cap (r.inp + xs.length) <;> omega
  apply List.ext_getElem
  · rw [length_contents, hused, List.length_drop]
    omega
  · intro i hi hi'
    rw [List.length_drop] at hi'
    rw [getElem_contents, out_recv, List.getElem_drop]
    have hcell : wrap cap (r.out + i) = wrap cap (r.inp + (cap - r.used cap + i)) := by
      obtain hu | hu := used_cases cap r <;>
        obtain hw | hw := wrap_cases cap (r.out + i) <;>
        obtain hw' | hw' := wrap_cases cap (r.inp + (cap - r.used cap + i)) <;> omega
    rw [hcell, buf_recv_new h hx _ (by omega)]

/-- What is unread after `recv` depends on what was unread before, and on nothing else. -/
theorem contents_recv_congr {cap : Nat} {r r' : RingBuffer α} (h : r.WF cap) (h' : r'.WF cap)
    (hsame : r.contents cap = r'.contents cap) {xs : List α} (hx : xs.length < cap) :
    (r.recv cap xs).contents cap = (r'.recv cap xs).contents cap := by
  have hused : r.used cap = r'.used cap := by
    rw [← length_contents, ← length_contents, hsame]
  by_cases hfits : r.used cap + xs.length < cap
  · rw [contents_recv h hfits, contents_recv h' (hused ▸ hfits), hsame]
  · rw [contents_recv_full h hx (by omega), contents_recv_full h' hx (by omega), hused]

end RingBuffer
end Embedded
