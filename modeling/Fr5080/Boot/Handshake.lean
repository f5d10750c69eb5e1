import Fr5080.Boot.Serial
import Fr5080.Embedded.Mem

/-!
# Fr5080.Boot.Handshake

`app_boot_host_comm` of `fr5080_basic`: it sends `freqchip` up to three times
and waits for `FR801HOK` each time.

An attempt is `app_boot_serial_gets` on what arrives during it, and on what the
attempts before it left in the receiver.  An attempt that gets more than is
missing writes beyond `buffer`, which is on the stack; what happens then is not
defined (`none`).

The flag `do_handshake` is cleared by the first attempt that fails and never
set again, so an acknowledgement counts only in the first attempt:
`boot_handshake_iff`.
-/

namespace Fr5080

open Embedded

/-- `app_boot_conn_req`. -/
def appBootConnReq : List UInt8 := [0x66, 0x72, 0x65, 0x71, 0x63, 0x68, 0x69, 0x70]

/-- `app_boot_conn_ack`. -/
def appBootConnAck : List UInt8 := [0x46, 0x52, 0x38, 0x30, 0x31, 0x48, 0x4F, 0x4B]

/-- `app_boot_conn_success`. -/
def appBootConnSuccess : List UInt8 := [0x6F, 0x6B]

/-! ## the attempts -/

/-- What is there at each poll: the bytes in the receiver are there at the first. -/
def withFifo (fifo : List UInt8) (arrivals : Nat → List UInt8) : Nat → List UInt8
  | 0 => fifo ++ arrivals 0
  | i + 1 => arrivals (i + 1)

/-- What has arrived by the end of `n` rounds. -/
def arrived (fifo : List UInt8) (arrivals : Nat → List UInt8) (n : Nat) : List UInt8 :=
  fifo ++ (List.range n).flatMap arrivals

/-- What `app_boot_serial_gets` leaves in the receiver. -/
def SerialGets.leftover (g : SerialGets) (fifo : List UInt8) (arrivals : Nat → List UInt8) :
    List UInt8 :=
  (arrived fifo arrivals g.rounds).drop g.writes.length

/-- The stores of `app_boot_serial_gets` into a buffer. -/
def applyStores (buffer : Nat → UInt8) (writes : List (Nat × UInt8)) : Nat → UInt8 :=
  writes.foldl (fun m w => Function.update m w.1 w.2) buffer

/-- The variables of `app_boot_host_comm`, the bytes in the receiver, the blocks sent, and
whether `app_boot_host_comm_loop` has been called. -/
structure Handshake where
  fifo : List UInt8
  buffer : Nat → UInt8
  doHandshake : Bool
  sent : List (List UInt8)
  looped : Bool

section

variable (waitToMs : UInt8)

/-- `app_boot_serial_gets(wait_to_ms, buffer, sizeof(app_boot_conn_ack))`. -/
def ackGets (fifo : List UInt8) (arrivals : Nat → List UInt8) : SerialGets :=
  appBootSerialGets 8 (withFifo fifo arrivals) waitToMs

/-- The body of the loop, and whether it ends with `break`. -/
def handshakeAttempt (arrivals : Nat → List UInt8) (s : Handshake) : Option (Handshake × Bool) :=
  let g := ackGets waitToMs s.fifo arrivals
  if ∀ w ∈ g.writes, w.1 < appBootConnAck.length then
    let s := { s with
      sent := s.sent ++ [appBootConnReq]
      buffer := applyStores s.buffer g.writes
      fifo := g.leftover s.fifo arrivals }
    if g.ret = 8 then
      if slice s.buffer 0 appBootConnAck.length ≠ appBootConnAck then
        some ({ s with doHandshake := false }, false)
      else some (s, true)
    else some ({ s with doHandshake := false }, false)
  else none

/-- `while(retry_count)`; `answers k` is what arrives during attempt `k`. -/
def handshakeLoop : Nat → (Nat → Nat → List UInt8) → Handshake → Option Handshake
  | 0, _, s => some s
  | retryCount + 1, answers, s =>
      (handshakeAttempt waitToMs (answers 0) s).bind fun (s, stop) =>
        if stop then some s else handshakeLoop retryCount (fun k => answers (k + 1)) s

/-- `if(do_handshake)`. -/
def Handshake.finish (s : Handshake) : Handshake :=
  if s.doHandshake then { s with sent := s.sent ++ [appBootConnSuccess], looped := true } else s

/-- `app_boot_host_comm`. -/
def appBootHostComm (answers : Nat → Nat → List UInt8) (fifo : List UInt8)
    (buffer : Nat → UInt8) : Option Handshake :=
  (handshakeLoop waitToMs 3 answers ⟨fifo, buffer, true, [], false⟩).map Handshake.finish

/-! ## what the host answers -/

/-- The round by which eight bytes have arrived fills the buffer exactly, and they are the
acknowledgement. -/
def Acknowledged (fifo : List UInt8) (arrivals : Nat → List UInt8) : Prop :=
  ∃ k < waitToMs.toNat, Completes 8 (withFifo fifo arrivals) k ∧
    FillsExactly 8 (withFifo fifo arrivals) k ∧
      (arrived fifo arrivals (k + 1)).take appBootConnAck.length = appBootConnAck

/-- The round by which eight bytes have arrived brings more than is missing. -/
def Overruns (fifo : List UInt8) (arrivals : Nat → List UInt8) : Prop :=
  ∃ k < waitToMs.toNat, Completes 8 (withFifo fifo arrivals) k ∧
    ¬ FillsExactly 8 (withFifo fifo arrivals) k

/-- The bytes in the receiver before attempt `k`. -/
def fifoAt : (Nat → Nat → List UInt8) → List UInt8 → Nat → List UInt8
  | _, fifo, 0 => fifo
  | answers, fifo, k + 1 =>
      fifoAt (fun k => answers (k + 1))
        ((ackGets waitToMs fifo (answers 0)).leftover fifo (answers 0)) k

/-- Attempt `k` is answered with the acknowledgement. -/
def AckAt (answers : Nat → Nat → List UInt8) (fifo : List UInt8) (k : Nat) : Prop :=
  Acknowledged waitToMs (fifoAt waitToMs answers fifo k) (answers k)

/-- Attempt `k` gets something else, or nothing, and stays inside `buffer`. -/
def WrongAt (answers : Nat → Nat → List UInt8) (fifo : List UInt8) (k : Nat) : Prop :=
  ¬ Acknowledged waitToMs (fifoAt waitToMs answers fifo k) (answers k) ∧
    ¬ Overruns waitToMs (fifoAt waitToMs answers fifo k) (answers k)

end

/-! ## what is stored -/

/-- Bytes and the offsets where they are stored. -/
def placedFrom : Nat → List UInt8 → List (Nat × UInt8)
  | _, [] => []
  | off, b :: bs => (off, b) :: placedFrom (off + 1) bs

@[simp] theorem length_placedFrom (off : Nat) (bs : List UInt8) :
    (placedFrom off bs).length = bs.length := by
  induction bs generalizing off with
  | nil => rfl
  | cons b bs ih => simp [placedFrom, ih]

theorem placedFrom_append (off : Nat) (bs cs : List UInt8) :
    placedFrom off (bs ++ cs) = placedFrom off bs ++ placedFrom (off + bs.length) cs := by
  induction bs generalizing off with
  | nil => rfl
  | cons b bs ih => simp [placedFrom, ih, Nat.add_assoc, Nat.add_comm 1]

theorem mem_placedFrom {off i : Nat} {bs : List UInt8} (h : i < bs.length) :
    (off + i, bs[i]) ∈ placedFrom off bs := by
  induction bs generalizing off i with
  | nil => exact absurd h (Nat.not_lt_zero i)
  | cons b bs ih =>
      cases i with
      | zero => exact List.mem_cons_self
      | succ i =>
          have hmem := @ih (off + 1) i (Nat.lt_of_succ_lt_succ h)
          rw [Nat.add_assoc, Nat.add_comm 1 i] at hmem
          exact List.mem_cons_of_mem _ hmem

/-- Stores that follow each other are one store. -/
theorem applyStores_placedFrom (m : Nat → UInt8) (off : Nat) (bs : List UInt8) :
    applyStores m (placedFrom off bs) = store m off bs := by
  induction bs generalizing m off with
  | nil => simp [placedFrom, applyStores]
  | cons b bs ih =>
      have hone : Function.update m off b = store m off [b] := by
        funext a
        by_cases ha : a = off
        · subst ha
          simp [store]
        · rw [Function.update_of_ne ha]
          exact (store_of_not_mem m off [b] a (by simp; omega)).symm
      have hrest := ih (Function.update m off b) (off + 1)
      rw [hone] at hrest
      exact (congrArg (fun m => applyStores m _) hone).trans
        (hrest.trans (store_store_append m off [b] bs))

/-- A poll stores from `buf` on. -/
theorem uartGetDataNodelayNoint_fst (buf size : Nat) (fifo : List UInt8) :
    (uartGetDataNodelayNoint buf size fifo).1 = placedFrom buf (fifo.take size) := by
  induction fifo generalizing buf size with
  | nil => simp [uartGetDataNodelayNoint, placedFrom]
  | cons b fifo ih => cases size <;> simp [uartGetDataNodelayNoint, placedFrom, ih]

/-- The loop stores the bytes as they come, one behind the other. -/
theorem appBootSerialGetsLoop_stream {bufSize : UInt32} {arrivals : Nat → List UInt8}
    {left i : Nat} {n : UInt32} {writes : List (Nat × UInt8)} {fifo : List UInt8}
    (hn : n.toNat = writes.length) (hbound : n.toNat + left * bufSize.toNat < 2 ^ 32) :
    ∃ got rest count,
      (appBootSerialGetsLoop bufSize arrivals left i n writes fifo).writes =
        writes ++ placedFrom writes.length got ∧
      (appBootSerialGetsLoop bufSize arrivals left i n writes fifo).rounds = i + count ∧
      got ++ rest = fifo ++ (List.range' i count).flatMap arrivals := by
  induction left generalizing i n writes fifo with
  | zero => exact ⟨[], fifo, 0, by simp [appBootSerialGetsLoop, placedFrom]⟩
  | succ left ih =>
      rw [Nat.succ_mul] at hbound
      have htake : ((fifo ++ arrivals i).take bufSize.toNat).length ≤ bufSize.toNat :=
        List.length_take_le _ _
      rw [appBootSerialGetsLoop]
      simp only [uartGetDataNodelayNoint_fst, uartGetDataNodelayNoint_snd, length_placedFrom, hn]
      generalize htaken : (fifo ++ arrivals i).take bufSize.toNat = taken at htake
      generalize hdropped : (fifo ++ arrivals i).drop bufSize.toNat = dropped
      have hsplit : taken ++ dropped = fifo ++ arrivals i := by
        rw [← htaken, ← hdropped, List.take_append_drop]
      split
      · exact ⟨taken, dropped, 1, rfl, rfl, by simpa using hsplit⟩
      · have hsize : UInt32.size = 2 ^ 32 := rfl
        have hcount : (n + UInt32.ofNat taken.length).toNat =
            (writes ++ placedFrom writes.length taken).length := by
          rw [UInt32.toNat_add, UInt32.toNat_ofNat_of_lt' (by omega), List.length_append,
            length_placedFrom, hn, Nat.mod_eq_of_lt (by omega)]
        obtain ⟨got, rest, count, hwrites, hrounds, hstream⟩ :=
          @ih (i + 1) _ _ dropped hcount (by rw [hcount]; simp; omega)
        refine ⟨taken ++ got, rest, count + 1, ?_, ?_, ?_⟩
        · rw [hwrites, placedFrom_append, List.length_append, length_placedFrom,
            List.append_assoc]
        · rw [hrounds]
          omega
        · rw [List.append_assoc, hstream, ← List.append_assoc, hsplit, List.range'_succ]
          simp

/-! ## one attempt -/

section

variable {waitToMs : UInt8} {fifo : List UInt8} {arrivals : Nat → List UInt8}

theorem flatMap_withFifo (n : Nat) :
    (List.range' 0 (n + 1)).flatMap (withFifo fifo arrivals) = arrived fifo arrivals (n + 1) := by
  have htail : ∀ k, (List.range' 1 k).flatMap (withFifo fifo arrivals) =
      (List.range' 1 k).flatMap arrivals := by
    intro k
    refine List.flatMap_congr fun i hi => ?_
    obtain ⟨j, rfl⟩ := Nat.exists_eq_add_of_le (List.mem_range'_1.mp hi).1
    rw [Nat.add_comm]
    rfl
  rw [arrived, List.range_eq_range', List.range'_succ, List.flatMap_cons, List.flatMap_cons,
    htail, ← List.append_assoc]
  rfl

/-- What an attempt stores is the front of what arrives. -/
theorem ackGets_stream (waitToMs : UInt8) (fifo : List UInt8) (arrivals : Nat → List UInt8) :
    ∃ got, (ackGets waitToMs fifo arrivals).writes = placedFrom 0 got ∧
      ∀ k, (ackGets waitToMs fifo arrivals).rounds = k + 1 →
        got <+: arrived fifo arrivals (k + 1) := by
  have hms : waitToMs.toNat < 2 ^ 8 := waitToMs.toNat_lt
  obtain ⟨got, rest, count, hwrites, hrounds, hstream⟩ :=
    @appBootSerialGetsLoop_stream 8 (withFifo fifo arrivals) waitToMs.toNat 0 0 [] [] rfl
      (by show 0 + waitToMs.toNat * 8 < 2 ^ 32; omega)
  refine ⟨got, hwrites, fun k hk => ⟨rest, ?_⟩⟩
  obtain rfl : count = k + 1 := by
    rw [← hk]
    exact (hrounds.trans (Nat.zero_add count)).symm
  rw [hstream, List.nil_append, flatMap_withFifo]

/-- The three ends of an attempt. -/
inductive AttemptOutcome (waitToMs : UInt8) (arrivals : Nat → List UInt8) (s : Handshake) :
    Option (Handshake × Bool) → Prop
  | acked (s' : Handshake) (ack : Acknowledged waitToMs s.fifo arrivals)
      (inside : ¬ Overruns waitToMs s.fifo arrivals) (flag : s'.doHandshake = s.doHandshake)
      (sent : s'.sent = s.sent ++ [appBootConnReq]) (looped : s'.looped = s.looped) :
      AttemptOutcome waitToMs arrivals s (some (s', true))
  | wrong (s' : Handshake) (noAck : ¬ Acknowledged waitToMs s.fifo arrivals)
      (inside : ¬ Overruns waitToMs s.fifo arrivals) (flag : s'.doHandshake = false)
      (sent : s'.sent = s.sent ++ [appBootConnReq]) (looped : s'.looped = s.looped)
      (fifo : s'.fifo = (ackGets waitToMs s.fifo arrivals).leftover s.fifo arrivals) :
      AttemptOutcome waitToMs arrivals s (some (s', false))
  | overrun (noAck : ¬ Acknowledged waitToMs s.fifo arrivals)
      (overruns : Overruns waitToMs s.fifo arrivals) : AttemptOutcome waitToMs arrivals s none

/-- An attempt ends in one of them. -/
theorem handshakeAttempt_outcome (waitToMs : UInt8) (arrivals : Nat → List UInt8)
    (s : Handshake) :
    AttemptOutcome waitToMs arrivals s (handshakeAttempt waitToMs arrivals s) := by
  have hsize : (8 : UInt32).toNat = appBootConnAck.length := rfl
  obtain ⟨got, hwrites, hfront⟩ := ackGets_stream waitToMs s.fifo arrivals
  have hend : GetsOutcome 8 (withFifo s.fifo arrivals) waitToMs.toNat
      (ackGets waitToMs s.fifo arrivals) := appBootSerialGets_outcome _ _ _
  simp only [handshakeAttempt]
  cases hend with
  | filled k hk hc hfill hret hrounds hstored hinside =>
      have hlen : got.length = appBootConnAck.length := by
        rw [← hsize, ← hstored, hwrites, length_placedFrom]
      have hgot : got = (arrived s.fifo arrivals (k + 1)).take appBootConnAck.length := by
        rw [← hlen]
        exact List.prefix_iff_eq_take.mp (hfront k hrounds)
      have hbuffer : slice (applyStores s.buffer (ackGets waitToMs s.fifo arrivals).writes) 0
          appBootConnAck.length = got := by
        rw [hwrites, applyStores_placedFrom, ← hlen, slice_store_self]
      have hno : ¬ Overruns waitToMs s.fifo arrivals := by
        rintro ⟨k', _, hc', hfill'⟩
        rw [hc'.unique hc] at hfill'
        exact hfill' hfill
      rw [if_pos (hsize ▸ hinside), if_pos hret, hbuffer]
      by_cases hack : got = appBootConnAck
      · rw [if_neg (not_not.mpr hack)]
        exact .acked _ ⟨k, hk, hc, hfill, hgot ▸ hack⟩ hno rfl rfl rfl
      · rw [if_pos hack]
        refine .wrong _ ?_ hno rfl rfl rfl rfl
        rintro ⟨k', _, hc', _, hack'⟩
        rw [hc'.unique hc, ← hgot] at hack'
        exact hack hack'
  | overrun k hk hc hfill hstored =>
      have hno : ¬ Acknowledged waitToMs s.fifo arrivals := by
        rintro ⟨k', _, hc', hfill', _⟩
        rw [hc'.unique hc] at hfill'
        exact hfill hfill'
      have houtside : ¬ ∀ w ∈ (ackGets waitToMs s.fifo arrivals).writes,
          w.1 < appBootConnAck.length := by
        intro hall
        rw [hwrites, length_placedFrom, hsize] at hstored
        have hlt := hall _ (hwrites ▸ mem_placedFrom hstored)
        exact absurd hlt (by simp)
      rw [if_neg houtside]
      exact .overrun hno ⟨k, hk, hc, hfill⟩
  | timeout hmissing hret hstored hinside =>
      rw [if_pos (hsize ▸ hinside), hret, if_neg (by decide)]
      refine .wrong _ ?_ ?_ rfl rfl rfl rfl
      · rintro ⟨k, hk, hc, _⟩
        exact hmissing k hk hc
      · rintro ⟨k, hk, hc, _⟩
        exact hmissing k hk hc

end

/-! ## all attempts -/

section

variable (waitToMs : UInt8) (answers : Nat → Nat → List UInt8)

/-- The three ends of `n` attempts that start with `s`: none is acknowledged, attempt `k` is
the first that is, or attempt `k` overruns the buffer before one is. -/
inductive HandshakeOutcome (n : Nat) (s : Handshake) : Option Handshake → Prop
  | refused (s' : Handshake) (wrong : ∀ k < n, WrongAt waitToMs answers s.fifo k)
      (flag : s'.doHandshake = (s.doHandshake && n = 0))
      (sent : s'.sent = s.sent ++ List.replicate n appBootConnReq)
      (looped : s'.looped = s.looped) : HandshakeOutcome n s (some s')
  | acked (s' : Handshake) (k : Nat) (hlt : k < n) (ack : AckAt waitToMs answers s.fifo k)
      (inside : ¬ Overruns waitToMs (fifoAt waitToMs answers s.fifo k) (answers k))
      (wrong : ∀ j < k, WrongAt waitToMs answers s.fifo j)
      (flag : s'.doHandshake = (s.doHandshake && k = 0))
      (sent : s'.sent = s.sent ++ List.replicate (k + 1) appBootConnReq)
      (looped : s'.looped = s.looped) : HandshakeOutcome n s (some s')
  | overrun (k : Nat) (hlt : k < n) (noAck : ¬ AckAt waitToMs answers s.fifo k)
      (overruns : Overruns waitToMs (fifoAt waitToMs answers s.fifo k) (answers k))
      (wrong : ∀ j < k, WrongAt waitToMs answers s.fifo j) : HandshakeOutcome n s none

variable {waitToMs answers}

/-- What holds of the first attempt and of those behind it holds of all. -/
theorem wrongAt_succ {n : Nat} {fifo : List UInt8} (hzero : WrongAt waitToMs answers fifo 0)
    (h : ∀ k < n, WrongAt waitToMs (fun k => answers (k + 1))
      ((ackGets waitToMs fifo (answers 0)).leftover fifo (answers 0)) k) :
    ∀ k < n + 1, WrongAt waitToMs answers fifo k := by
  intro k hk
  cases k with
  | zero => exact hzero
  | succ k => exact h k (Nat.lt_of_succ_lt_succ hk)

/-- One attempt that fails, and the attempts behind it. -/
theorem HandshakeOutcome.cons {n : Nat} {s s' : Handshake} {out : Option Handshake}
    (hwrong : WrongAt waitToMs answers s.fifo 0) (hflag : s'.doHandshake = false)
    (hsent : s'.sent = s.sent ++ [appBootConnReq]) (hlooped : s'.looped = s.looped)
    (hfifo : s'.fifo = (ackGets waitToMs s.fifo (answers 0)).leftover s.fifo (answers 0))
    (h : HandshakeOutcome waitToMs (fun k => answers (k + 1)) n s' out) :
    HandshakeOutcome waitToMs answers (n + 1) s out := by
  have hblocks : ∀ k, s'.sent ++ List.replicate k appBootConnReq =
      s.sent ++ List.replicate (k + 1) appBootConnReq := by
    intro k
    rw [hsent, List.append_assoc, List.replicate_succ]
    rfl
  cases h with
  | refused t wrong flag sent looped =>
      rw [hfifo] at wrong
      refine .refused t (wrongAt_succ hwrong wrong) ?_ (sent.trans (hblocks n))
        (looped.trans hlooped)
      simp [flag, hflag]
  | acked t k hlt ack inside wrong flag sent looped =>
      rw [hfifo] at ack inside wrong
      refine .acked t (k + 1) (Nat.succ_lt_succ hlt) ack inside (wrongAt_succ hwrong wrong) ?_
        (sent.trans (hblocks (k + 1))) (looped.trans hlooped)
      simp [flag, hflag]
  | overrun k hlt noAck overruns wrong =>
      rw [hfifo] at noAck overruns wrong
      exact .overrun (k + 1) (Nat.succ_lt_succ hlt) noAck overruns (wrongAt_succ hwrong wrong)

/-- The loop ends in one of them. -/
theorem handshakeLoop_outcome (n : Nat) (answers : Nat → Nat → List UInt8) (s : Handshake) :
    HandshakeOutcome waitToMs answers n s (handshakeLoop waitToMs n answers s) := by
  induction n generalizing answers s with
  | zero =>
      refine .refused s (fun k hk => absurd hk (Nat.not_lt_zero k)) ?_ ?_ rfl <;> simp
  | succ n ih =>
      rw [handshakeLoop]
      have hattempt := handshakeAttempt_outcome waitToMs (answers 0) s
      generalize handshakeAttempt waitToMs (answers 0) s = out at hattempt
      cases hattempt with
      | acked s' ack inside flag sent looped =>
          refine .acked s' 0 (Nat.succ_pos n) ack inside
            (fun j hj => absurd hj (Nat.not_lt_zero j)) ?_ sent looped
          simp [flag]
      | wrong s' noAck inside flag sent looped hfifo =>
          exact HandshakeOutcome.cons ⟨noAck, inside⟩ flag sent looped hfifo (ih _ s')
      | overrun noAck overruns =>
          exact .overrun 0 (Nat.succ_pos n) noAck overruns
            fun j hj => absurd hj (Nat.not_lt_zero j)

/-! ## the handshake -/

/-- `app_boot_host_comm` sends `ok` and enters the loop if one of the attempts was answered
with the acknowledgement, and does neither otherwise. -/
structure HandshakeRight (waitToMs : UInt8) (answers : Nat → Nat → List UInt8)
    (fifo : List UInt8) (s : Handshake) : Prop where
  connects : (∃ k < 3, AckAt waitToMs answers fifo k) →
    s.looped = true ∧ appBootConnSuccess ∈ s.sent
  refuses : (¬ ∃ k < 3, AckAt waitToMs answers fifo k) →
    s.looped = false ∧ appBootConnSuccess ∉ s.sent

theorem Handshake.finish_connected {s : Handshake} (h : s.doHandshake = true) :
    s.finish.looped = true ∧ appBootConnSuccess ∈ s.finish.sent := by
  rw [Handshake.finish, if_pos h]
  exact ⟨rfl, List.mem_append_right _ List.mem_cons_self⟩

theorem Handshake.finish_refused {s : Handshake} (h : s.doHandshake = false) : s.finish = s := by
  rw [Handshake.finish, if_neg (by simp [h])]

/-- **The handshake**: it is right exactly when the first attempt is acknowledged, or none of
the three is and none overruns the buffer. -/
theorem boot_handshake_iff (waitToMs : UInt8) (answers : Nat → Nat → List UInt8)
    (fifo : List UInt8) (buffer : Nat → UInt8) :
    (∃ s, appBootHostComm waitToMs answers fifo buffer = some s ∧
      HandshakeRight waitToMs answers fifo s) ↔
      AckAt waitToMs answers fifo 0 ∨ ∀ k < 3, WrongAt waitToMs answers fifo k := by
  have hreq : ∀ n, appBootConnSuccess ∉ List.replicate n appBootConnReq := by
    intro n hmem
    exact absurd (List.eq_of_mem_replicate hmem) (by decide)
  have hloop := @handshakeLoop_outcome waitToMs 3 answers ⟨fifo, buffer, true, [], false⟩
  rw [appBootHostComm]
  generalize handshakeLoop waitToMs 3 answers ⟨fifo, buffer, true, [], false⟩ = out at hloop
  cases hloop with
  | refused s hwrong hflag hsent hlooped =>
      have hnone : ¬ ∃ k < 3, AckAt waitToMs answers fifo k := by
        rintro ⟨k, hk, hack⟩
        exact (hwrong k hk).1 hack
      refine iff_of_true ⟨_, rfl, fun h => absurd h hnone, fun _ => ?_⟩ (.inr hwrong)
      rw [Handshake.finish_refused (by simp [hflag]), hsent]
      exact ⟨hlooped, hreq 3⟩
  | acked s k hlt hack hinside hwrong hflag hsent hlooped =>
      have hsome : ∃ k < 3, AckAt waitToMs answers fifo k := ⟨k, hlt, hack⟩
      by_cases hk : k = 0
      · subst hk
        exact iff_of_true ⟨_, rfl, fun _ => Handshake.finish_connected (by simp [hflag]),
          fun h => absurd hsome h⟩ (.inl hack)
      · refine iff_of_false ?_ ?_
        · rintro ⟨s', hs', hright⟩
          rw [Option.map_some, Handshake.finish_refused (by simp [hflag, hk])] at hs'
          cases hs'
          exact Bool.false_ne_true (hlooped.symm.trans (hright.connects hsome).1)
        · rintro (hfirst | hall)
          · exact (hwrong 0 (Nat.pos_of_ne_zero hk)).1 hfirst
          · exact (hall k hlt).1 hack
  | overrun k hlt hnoAck hover hwrong =>
      refine iff_of_false ?_ ?_
      · rintro ⟨s', hs', _⟩
        cases hs'
      · rintro (hfirst | hall)
        · by_cases hk : k = 0
          · subst hk
            exact hnoAck hfirst
          · exact (hwrong 0 (Nat.pos_of_ne_zero hk)).1 hfirst
        · exact (hall k hlt).2 hover

/-- No answer to the first request, the acknowledgement to the second. -/
def lateAck : Nat → Nat → List UInt8
  | 1, 0 => appBootConnAck
  | _, _ => []

/-- The second attempt gets the acknowledgement, but neither `ok` is sent nor the loop
entered. -/
theorem boot_handshake_after_timeout :
    AckAt 100 lateAck [] 1 ∧
      ∃ s, appBootHostComm 100 lateAck [] (fun _ => 0) = some s ∧
        s.looped = false ∧ s.sent = [appBootConnReq, appBootConnReq] ∧
          ¬ HandshakeRight 100 lateAck [] s := by
  have hack : AckAt 100 lateAck [] 1 := by
    refine ⟨0, by decide, ⟨by decide, fun j hj => absurd hj (Nat.not_lt_zero j)⟩, .inl rfl, ?_⟩
    decide +kernel
  have hview : (appBootHostComm 100 lateAck [] (fun _ => 0)).map
      (fun s => (s.looped, s.sent)) = some (false, [appBootConnReq, appBootConnReq]) := by
    decide +kernel
  obtain ⟨s, hs, heq⟩ := Option.map_eq_some_iff.mp hview
  obtain ⟨hlooped, hsent⟩ := Prod.mk.inj heq
  refine ⟨hack, s, hs, hlooped, hsent, fun hright => ?_⟩
  have hyes := (hright.connects ⟨1, by decide, hack⟩).1
  exact absurd (hyes.symm.trans hlooped) (by decide)

end

end Fr5080
