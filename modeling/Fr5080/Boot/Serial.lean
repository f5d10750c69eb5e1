import Mathlib.Algebra.Order.Group.Nat
import Mathlib.Data.List.Basic

/-!
# Fr5080.Boot.Serial

`app_boot_serial_gets` of the UART boot loader (`uart_boot.c`; the two
projects have the same text): it polls the receiver for at most `ms` rounds
and is to collect `buf_size` bytes.

Each round may take `buf_size` bytes, whatever is there already, and the end
of the loop is an equality test.  So a round that gets more than what is
missing writes beyond the buffer and is not seen as the end:
`serial_gets_respects_buffer_iff` says for which arrivals this does not
happen.
-/

namespace Fr5080

/-! ## the receiver -/

/-- `uart_get_data_nodelay_noint(buf, size)` on the bytes in the receiver: the
stores it makes, as offset and byte, and the bytes left.  Its result is the
number of stores. -/
def uartGetDataNodelayNoint : Nat → Nat → List UInt8 → List (Nat × UInt8) × List UInt8
  | _, _, [] => ([], [])
  | _, 0, fifo => ([], fifo)
  | buf, size + 1, data :: fifo =>
      let rest := uartGetDataNodelayNoint (buf + 1) size fifo
      ((buf, data) :: rest.1, rest.2)

/-- As many bytes as there are, at most `size`. -/
@[simp] theorem length_uartGetDataNodelayNoint (buf size : Nat) (fifo : List UInt8) :
    (uartGetDataNodelayNoint buf size fifo).1.length = min size fifo.length := by
  induction fifo generalizing buf size with
  | nil => simp [uartGetDataNodelayNoint]
  | cons data fifo ih => cases size <;> grind [uartGetDataNodelayNoint]

/-- What is not taken stays. -/
@[simp] theorem uartGetDataNodelayNoint_snd (buf size : Nat) (fifo : List UInt8) :
    (uartGetDataNodelayNoint buf size fifo).2 = fifo.drop size := by
  induction fifo generalizing buf size with
  | nil => simp [uartGetDataNodelayNoint]
  | cons data fifo ih => cases size <;> simp [uartGetDataNodelayNoint, ih]

/-- The stores go to the offsets from `buf` on. -/
theorem lt_of_mem_uartGetDataNodelayNoint {buf size : Nat} {fifo : List UInt8}
    {w : Nat × UInt8} (h : w ∈ (uartGetDataNodelayNoint buf size fifo).1) :
    w.1 < buf + min size fifo.length := by
  induction fifo generalizing buf size with
  | nil => simp [uartGetDataNodelayNoint] at h
  | cons data fifo ih => cases size <;> grind [uartGetDataNodelayNoint]

/-! ## the loop -/

/-- What a call of `app_boot_serial_gets` did. -/
structure SerialGets where
  /-- Its result. -/
  ret : UInt32
  /-- The rounds it waited. -/
  rounds : Nat
  /-- Its stores: offset from `data_buf`, and byte. -/
  writes : List (Nat × UInt8)
deriving Repr, DecidableEq

section

variable (bufSize : UInt32) (arrivals : Nat → List UInt8)

/-- The loop of `app_boot_serial_gets` from round `i` on, with `left` rounds to go.
`arrivals i` arrives up to the poll of round `i`; `fifo` is in the receiver since earlier. -/
def appBootSerialGetsLoop :
    Nat → Nat → UInt32 → List (Nat × UInt8) → List UInt8 → SerialGets
  | 0, i, _, writes, _ => ⟨-1, i, writes⟩
  | left + 1, i, n, writes, fifo =>
      let got := uartGetDataNodelayNoint n.toNat bufSize.toNat (fifo ++ arrivals i)
      let n' := n + UInt32.ofNat got.1.length
      if n' = bufSize then ⟨n', i + 1, writes ++ got.1⟩
      else appBootSerialGetsLoop left (i + 1) n' (writes ++ got.1) got.2

/-- `app_boot_serial_gets(ms, data_buf, buf_size)`. -/
def appBootSerialGets (ms : UInt8) : SerialGets :=
  appBootSerialGetsLoop bufSize arrivals ms.toNat 0 0 [] []

end

/-! ## what has arrived -/

/-- The number of bytes that arrive in the first `k` rounds. -/
def received (arrivals : Nat → List UInt8) : Nat → Nat
  | 0 => 0
  | k + 1 => received arrivals k + (arrivals k).length

/-- Round `k` is the first by whose poll `buf_size` bytes have arrived. -/
structure Completes (bufSize : UInt32) (arrivals : Nat → List UInt8) (k : Nat) : Prop where
  enough : bufSize.toNat ≤ received arrivals (k + 1)
  first : ∀ j < k, received arrivals (j + 1) < bufSize.toNat

/-- There is one such round at most. -/
theorem Completes.unique {bufSize : UInt32} {arrivals : Nat → List UInt8} {k k' : Nat}
    (h : Completes bufSize arrivals k) (h' : Completes bufSize arrivals k') : k = k' := by
  rcases Nat.lt_trichotomy k k' with hlt | heq | hlt
  · have := h'.first k hlt
    have := h.enough
    omega
  · exact heq
  · have := h.first k' hlt
    have := h'.enough
    omega

/-- Round `k` is the first with any byte, or brings exactly what is missing. -/
def FillsExactly (bufSize : UInt32) (arrivals : Nat → List UInt8) (k : Nat) : Prop :=
  received arrivals k = 0 ∨ received arrivals (k + 1) = bufSize.toNat

/-- `app_boot_serial_gets` does what its caller relies on: no store outside the
`buf_size` bytes, the result `buf_size` in the round by which so many bytes have
arrived, and otherwise `-1`. -/
structure RespectsBuffer (ms : UInt8) (bufSize : UInt32) (arrivals : Nat → List UInt8)
    (g : SerialGets) : Prop where
  inside : ∀ w ∈ g.writes, w.1 < bufSize.toNat
  atMost : g.writes.length ≤ bufSize.toNat
  complete : ∀ k < ms.toNat, Completes bufSize arrivals k → g.ret = bufSize ∧ g.rounds = k + 1
  timeout : (∀ k < ms.toNat, ¬ Completes bufSize arrivals k) → g.ret = -1

/-! ## the loop on arrivals -/

/-- Before the round that completes: all that arrived is stored, at the front. -/
structure Collected (bufSize : UInt32) (arrivals : Nat → List UInt8) (i : Nat) (n : UInt32)
    (writes : List (Nat × UInt8)) : Prop where
  count : n.toNat = received arrivals i
  stored : writes.length = received arrivals i
  offsets : ∀ w ∈ writes, w.1 < received arrivals i
  missing : ∀ j < i, received arrivals (j + 1) < bufSize.toNat

namespace Collected

variable {bufSize : UInt32} {arrivals : Nat → List UInt8} {i : Nat} {n : UInt32}
  {writes : List (Nat × UInt8)}

/-- Nothing is stored yet, or something is missing. -/
theorem eq_zero_or_lt (h : Collected bufSize arrivals i n writes) :
    received arrivals i = 0 ∨ received arrivals i < bufSize.toNat := by
  cases i with
  | zero => exact Or.inl rfl
  | succ i => exact Or.inr (h.missing i (Nat.lt_succ_self i))

/-- The count after a poll. -/
theorem toNat_count (h : Collected bufSize arrivals i n writes) :
    (n + UInt32.ofNat (min bufSize.toNat (arrivals i).length)).toNat =
      (received arrivals i + min bufSize.toNat (arrivals i).length) % 2 ^ 32 := by
  simp [UInt32.toNat_add, h.count]

/-- The stores of a poll follow those before it. -/
theorem lt_of_mem (h : Collected bufSize arrivals i n writes) {w : Nat × UInt8}
    (hw : w ∈ writes ++ (uartGetDataNodelayNoint n.toNat bufSize.toNat (arrivals i)).1) :
    w.1 < received arrivals i + min bufSize.toNat (arrivals i).length := by
  rcases List.mem_append.mp hw with hw | hw
  · exact Nat.lt_add_right _ (h.offsets w hw)
  · have := lt_of_mem_uartGetDataNodelayNoint hw
    rwa [h.count] at this

/-- A round that does not complete takes everything. -/
theorem step (h : Collected bufSize arrivals i n writes)
    (hlt : received arrivals (i + 1) < bufSize.toNat) :
    Collected bufSize arrivals (i + 1) (n + UInt32.ofNat (min bufSize.toNat (arrivals i).length))
      (writes ++ (uartGetDataNodelayNoint n.toNat bufSize.toNat (arrivals i)).1) := by
  have hsize : bufSize.toNat < 2 ^ 32 := bufSize.toNat_lt
  have hmin : min bufSize.toNat (arrivals i).length = (arrivals i).length := by
    simp only [received] at hlt
    omega
  constructor
  · rw [h.toNat_count, hmin, Nat.mod_eq_of_lt]
    · rfl
    · simp only [received] at hlt
      omega
  · simp [h.stored, hmin, received]
  · intro w hw
    have := h.lt_of_mem hw
    rwa [hmin] at this
  · intro j hj
    rcases Nat.lt_succ_iff_lt_or_eq.mp hj with hj | rfl
    · exact h.missing j hj
    · exact hlt

/-- The round that completes ends the loop exactly when it fills the buffer exactly. -/
theorem count_eq_iff (h : Collected bufSize arrivals i n writes)
    (hge : bufSize.toNat ≤ received arrivals (i + 1)) :
    n + UInt32.ofNat (min bufSize.toNat (arrivals i).length) = bufSize ↔
      received arrivals i + min bufSize.toNat (arrivals i).length = bufSize.toNat := by
  rw [← UInt32.toNat_inj, h.toNat_count]
  have hsize : bufSize.toNat < 2 ^ 32 := bufSize.toNat_lt
  have hlt := h.eq_zero_or_lt
  simp only [received] at hge
  omega

/-- In numbers. -/
theorem fillsExactly_iff (h : Collected bufSize arrivals i n writes)
    (hge : bufSize.toNat ≤ received arrivals (i + 1)) :
    received arrivals i + min bufSize.toNat (arrivals i).length = bufSize.toNat ↔
      FillsExactly bufSize arrivals i := by
  have hlt := h.eq_zero_or_lt
  simp only [FillsExactly, received] at hge ⊢
  omega

end Collected

/-- The loop only adds stores. -/
theorem length_le_appBootSerialGetsLoop (bufSize : UInt32) (arrivals : Nat → List UInt8)
    (left i : Nat) (n : UInt32) (writes : List (Nat × UInt8)) (fifo : List UInt8) :
    writes.length ≤
      (appBootSerialGetsLoop bufSize arrivals left i n writes fifo).writes.length := by
  induction left generalizing i n writes fifo with
  | zero => simp [appBootSerialGetsLoop]
  | succ left ih =>
      rw [appBootSerialGetsLoop]
      split
      · simp
      · refine Nat.le_trans ?_ (ih _ _ _ _)
        simp

/-- The three ends of the loop: the buffer filled exactly, overrun, or not filled. -/
inductive GetsOutcome (bufSize : UInt32) (arrivals : Nat → List UInt8) (stop : Nat)
    (g : SerialGets) : Prop
  | filled (k : Nat) (hlt : k < stop) (complete : Completes bufSize arrivals k)
      (exact : FillsExactly bufSize arrivals k) (ret : g.ret = bufSize) (rounds : g.rounds = k + 1)
      (stored : g.writes.length = bufSize.toNat) (inside : ∀ w ∈ g.writes, w.1 < bufSize.toNat)
  | overrun (k : Nat) (hlt : k < stop) (complete : Completes bufSize arrivals k)
      (exact : ¬ FillsExactly bufSize arrivals k) (stored : bufSize.toNat < g.writes.length)
  | timeout (missing : ∀ k < stop, ¬ Completes bufSize arrivals k) (ret : g.ret = -1)
      (stored : g.writes.length ≤ bufSize.toNat) (inside : ∀ w ∈ g.writes, w.1 < bufSize.toNat)

/-- The round that completes the bytes is the last one if it fills the buffer exactly, and
overruns it otherwise. -/
theorem Collected.outcome_completes {bufSize : UInt32} {arrivals : Nat → List UInt8}
    {left i stop : Nat} {n : UInt32} {writes : List (Nat × UInt8)}
    (h : Collected bufSize arrivals i n writes) (hi : i < stop)
    (hge : bufSize.toNat ≤ received arrivals (i + 1)) :
    GetsOutcome bufSize arrivals stop
      (appBootSerialGetsLoop bufSize arrivals (left + 1) i n writes []) := by
  have hcomplete : Completes bufSize arrivals i := ⟨hge, h.missing⟩
  have hround := (h.count_eq_iff hge).trans (h.fillsExactly_iff hge)
  rw [appBootSerialGetsLoop]
  simp only [List.nil_append, length_uartGetDataNodelayNoint, uartGetDataNodelayNoint_snd]
  by_cases hfill : FillsExactly bufSize arrivals i
  · have hsum := (h.fillsExactly_iff hge).mpr hfill
    have hcount := hround.mpr hfill
    rw [if_pos hcount]
    refine .filled i hi hcomplete hfill hcount rfl ?_ fun w hw => ?_
    · simp [h.stored, hsum]
    · rw [← hsum]
      exact h.lt_of_mem hw
  · rw [if_neg (mt hround.mp hfill)]
    refine .overrun i hi hcomplete hfill
      (Nat.lt_of_lt_of_le ?_ (length_le_appBootSerialGetsLoop _ _ _ _ _ _ _))
    have hsum := mt (h.fillsExactly_iff hge).mp hfill
    have := h.eq_zero_or_lt
    simp only [List.length_append, h.stored, length_uartGetDataNodelayNoint, received] at hge ⊢
    omega

/-- The loop from a state that has collected all so far. -/
theorem Collected.outcome {bufSize : UInt32} {arrivals : Nat → List UInt8} {left i : Nat}
    {n : UInt32} {writes : List (Nat × UInt8)} (h : Collected bufSize arrivals i n writes) :
    GetsOutcome bufSize arrivals (i + left)
      (appBootSerialGetsLoop bufSize arrivals left i n writes []) := by
  induction left generalizing i n writes with
  | zero =>
      have hlt := h.eq_zero_or_lt
      refine .timeout (fun k hk hc => ?_) rfl ?_ fun w hw => ?_
      · have := h.missing k hk
        have := hc.enough
        omega
      · simp only [appBootSerialGetsLoop, h.stored]
        omega
      · have := h.offsets w hw
        omega
  | succ left ih =>
      by_cases hlt : received arrivals (i + 1) < bufSize.toNat
      · -- a round that leaves something missing
        have hdrop : (arrivals i).drop bufSize.toNat = [] := by
          simp only [received] at hlt
          exact List.drop_eq_nil_of_le (by omega)
        have hnext := h.step hlt
        have hne : n + UInt32.ofNat (min bufSize.toNat (arrivals i).length) ≠ bufSize := by
          intro heq
          rw [← heq, hnext.count] at hlt
          omega
        rw [appBootSerialGetsLoop]
        simp only [List.nil_append, length_uartGetDataNodelayNoint, uartGetDataNodelayNoint_snd]
        rw [if_neg hne, hdrop, Nat.add_succ, ← Nat.succ_add]
        exact ih hnext
      · exact h.outcome_completes (by omega) (Nat.not_lt.mp hlt)

/-- A call collects from nothing. -/
theorem appBootSerialGets_outcome (ms : UInt8) (bufSize : UInt32) (arrivals : Nat → List UInt8) :
    GetsOutcome bufSize arrivals ms.toNat (appBootSerialGets bufSize arrivals ms) := by
  have hstart : Collected bufSize arrivals 0 0 [] := by
    constructor <;> simp [received]
  have hend : GetsOutcome bufSize arrivals (0 + ms.toNat)
      (appBootSerialGets bufSize arrivals ms) := hstart.outcome
  rwa [Nat.zero_add] at hend

/-! ## the result -/

/-- `app_boot_serial_gets` respects its buffer exactly for the arrivals where the round that
completes the `buf_size` bytes finds nothing stored, or brings exactly what is missing. -/
theorem serial_gets_respects_buffer_iff (ms : UInt8) (bufSize : UInt32)
    (arrivals : Nat → List UInt8) :
    RespectsBuffer ms bufSize arrivals (appBootSerialGets bufSize arrivals ms) ↔
      ∀ k < ms.toNat, Completes bufSize arrivals k → FillsExactly bufSize arrivals k := by
  have hend := appBootSerialGets_outcome ms bufSize arrivals
  constructor
  · intro hrespects k hk hc
    cases hend with
    | filled k' _ hc' hfill => rwa [hc.unique hc']
    | overrun _ _ _ _ hstored => exact absurd hrespects.atMost (Nat.not_le.mpr hstored)
    | timeout hmissing => exact absurd hc (hmissing k hk)
  · intro hall
    cases hend with
    | filled k hk hc hfill hret hrounds hstored hinside =>
        refine ⟨hinside, Nat.le_of_eq hstored, fun k' _ hc' => ?_, fun hmissing => ?_⟩
        · rw [hc'.unique hc]
          exact ⟨hret, hrounds⟩
        · exact absurd hc (hmissing k hk)
    | overrun k hk hc hfill => exact absurd (hall k hk hc) hfill
    | timeout hmissing hret hstored hinside =>
        exact ⟨hinside, hstored, fun k hk hc => absurd hc (hmissing k hk), fun _ => hret⟩

/-- Four bytes in the first round, eight in the second. -/
def lateBytes : Nat → List UInt8
  | 0 => [0x46, 0x52, 0x38, 0x30]
  | 1 => [0x31, 0x48, 0x4F, 0x4B, 0, 0, 0, 0]
  | _ => []

/-- The handshake buffer of eight bytes gets twelve, and the call waits for all its rounds. -/
theorem serial_gets_overruns : ¬ RespectsBuffer 50 8 lateBytes (appBootSerialGets 8 lateBytes 50) ∧
    (appBootSerialGets 8 lateBytes 50).writes.length = 12 ∧
    (appBootSerialGets 8 lateBytes 50).ret = -1 := by
  have hlen : (appBootSerialGets 8 lateBytes 50).writes.length = 12 := by decide +kernel
  refine ⟨fun h => ?_, hlen, by decide +kernel⟩
  have hle := h.atMost
  rw [hlen] at hle
  exact absurd hle (by decide)

end Fr5080
