import Fr5080.Embedded.Mem
import Fr5080.Embedded.Scan

/-!
# Fr5080.At.Framing

The framing of AT commands (`app_at.c`): `uart_receive_char` looks for `AT#`
and posts what follows, up to a newline or 32 bytes.

A byte that does not go on with `AT#` sends the matcher back to its initial
state without being tried there.  So an `A` that breaks off an attempt does not
begin the next one, and the command that it announces is missed.
-/

namespace Fr5080

open Embedded

/-! ## the code -/

/-- A message with the id `RECEIVE_AT_COMMAND`. -/
structure AtMsg where
  paramLen : Nat
  param : List UInt8
deriving DecidableEq, Repr

/-- `at_recv_state`, `at_recv_index` and `at_recv_buffer`. -/
structure AtRecv where
  state : UInt8
  index : UInt8
  buffer : Nat → UInt8

/-- The static variables at the start. -/
def AtRecv.init : AtRecv := ⟨0, 0, fun _ => 0⟩

/-- `uart_receive_char`, and the message that it inserts. -/
def uartReceiveChar (c : UInt8) (s : AtRecv) : AtRecv × Option AtMsg :=
  match s.state with
  | 0 => (if c = 0x41 then { s with state := s.state + 1 } else s, none)
  | 1 => ({ s with state := if c = 0x54 then s.state + 1 else 0 }, none)
  | 2 => ({ s with state := if c = 0x23 then s.state + 1 else 0 }, none)
  | 3 =>
      let buffer := store s.buffer s.index.toNat [c]
      let index := s.index + 1
      if c = 0x0A ∨ 32 ≤ index then
        (⟨0, 0, buffer⟩, some ⟨index.toNat, slice buffer 0 index.toNat⟩)
      else (⟨s.state, index, buffer⟩, none)
  | _ => (s, none)

/-- The bytes of a stream, and the messages they lead to. -/
def uartReceive : AtRecv → List UInt8 → AtRecv × List AtMsg
  | s, [] => (s, [])
  | s, c :: cs =>
      let (s, msg) := uartReceiveChar c s
      let (s, msgs) := uartReceive s cs
      (s, msg.toList ++ msgs)

/-! ## the grammar -/

/-- `AT#`. -/
def atMark : List UInt8 := [0x41, 0x54, 0x23]

/-- The commands in a stream: `AT#`, and up to a newline or 32 bytes. -/
def atFrames (stream : List UInt8) : List (Frame UInt8) := scan atMark (· == 0x0A) 32 stream

/-- The messages for the commands in a stream. -/
def atMsgs (stream : List UInt8) : List AtMsg :=
  (atFrames stream).map fun f => ⟨f.payload.length, f.payload⟩

/-- An attempt to match `AT#` up to the byte that breaks it off. -/
inductive BrokenOff : List UInt8 → Prop
  | a {c : UInt8} (h : c ≠ 0x41) : BrokenOff [c]
  | t {c : UInt8} (h : c ≠ 0x54) : BrokenOff [0x41, c]
  | hash {c : UInt8} (h : c ≠ 0x23) : BrokenOff [0x41, 0x54, c]

/-- Text before `AT#` that falls into such attempts, with none left open at its end. -/
def Skippable (gap : List UInt8) : Prop :=
  ∃ tries : List (List UInt8), (∀ t ∈ tries, BrokenOff t) ∧ tries.flatten = gap

variable {s s' : AtRecv} {c : UInt8} {cs gap payload stream : List UInt8}

/-! ## runs -/

/-- `cs` leads from `s` to `s'` and to these messages. -/
def Receives (s : AtRecv) (cs : List UInt8) (s' : AtRecv) (msgs : List AtMsg) : Prop :=
  uartReceive s cs = (s', msgs)

theorem Receives.nil (s : AtRecv) : Receives s [] s [] := rfl

theorem Receives.cons {s1 : AtRecv} {msg : Option AtMsg} {msgs : List AtMsg}
    (h1 : uartReceiveChar c s = (s1, msg)) (h2 : Receives s1 cs s' msgs) :
    Receives s (c :: cs) s' (msg.toList ++ msgs) := by
  rw [Receives] at h2 ⊢
  rw [uartReceive, h1]
  simp only [h2]

theorem Receives.append {s1 : AtRecv} {cs' : List UInt8} {msgs msgs' : List AtMsg}
    (h1 : Receives s cs s1 msgs) (h2 : Receives s1 cs' s' msgs') :
    Receives s (cs ++ cs') s' (msgs ++ msgs') := by
  induction cs generalizing s msgs with
  | nil =>
      cases h1
      exact h2
  | cons c cs ih =>
      obtain ⟨⟩ := h1
      have hrest := ih rfl
      rw [List.cons_append, List.append_assoc]
      exact Receives.cons rfl hrest

/-! ## the matcher -/

/-- `k` bytes of `AT#` have been matched. -/
structure Matched (k : UInt8) (s : AtRecv) : Prop where
  state : s.state = k
  index : s.index = 0

/-- The next byte goes on with `AT#`, or all that has been matched is lost. -/
theorem Matched.step {k e : UInt8}
    (hk : (k, e) ∈ [((0 : UInt8), (0x41 : UInt8)), (1, 0x54), (2, 0x23)])
    (h : Matched k s) (c : UInt8) :
    ∃ s', uartReceiveChar c s = (s', none) ∧ Matched (if c = e then k + 1 else 0) s' := by
  obtain ⟨hstate, hindex⟩ := h
  refine ⟨(uartReceiveChar c s).1, ?_, ?_⟩
  · simp only [List.mem_cons, Prod.mk.injEq, List.not_mem_nil, or_false] at hk
    obtain ⟨rfl, rfl⟩ | ⟨rfl, rfl⟩ | ⟨rfl, rfl⟩ := hk <;> simp [uartReceiveChar, hstate]
  · simp only [List.mem_cons, Prod.mk.injEq, List.not_mem_nil, or_false] at hk
    obtain ⟨rfl, rfl⟩ | ⟨rfl, rfl⟩ | ⟨rfl, rfl⟩ := hk
    · by_cases hc : c = 0x41
      · constructor <;> simp [uartReceiveChar, hstate, hindex, hc]
      · constructor <;> simp [uartReceiveChar, hstate, hindex, hc]
    · constructor <;> simp [uartReceiveChar, hstate, hindex]
    · constructor <;> simp [uartReceiveChar, hstate, hindex]

/-- The first byte of the mark, or not. -/
theorem Matched.zero (h : Matched 0 s) (c : UInt8) :
    ∃ s', uartReceiveChar c s = (s', none) ∧ Matched (if c = 0x41 then 1 else 0) s' :=
  h.step (by decide) c

/-- The second byte, or from the start again. -/
theorem Matched.one (h : Matched 1 s) (c : UInt8) :
    ∃ s', uartReceiveChar c s = (s', none) ∧ Matched (if c = 0x54 then 2 else 0) s' :=
  h.step (by decide) c

/-- The third byte, or from the start again. -/
theorem Matched.two (h : Matched 2 s) (c : UInt8) :
    ∃ s', uartReceiveChar c s = (s', none) ∧ Matched (if c = 0x23 then 3 else 0) s' :=
  h.step (by decide) c

/-- An `A` is matched. -/
theorem Matched.open (h : Matched 0 s) : ∃ s', Receives s [0x41] s' [] ∧ Matched 1 s' := by
  obtain ⟨s1, h1, m1⟩ := h.zero 0x41
  exact ⟨s1, Receives.cons h1 (Receives.nil s1), m1⟩

/-- `AT` is matched. -/
theorem Matched.open2 (h : Matched 0 s) : ∃ s', Receives s [0x41, 0x54] s' [] ∧ Matched 2 s' := by
  obtain ⟨s1, h1, m1⟩ := h.open
  obtain ⟨s2, h2, m2⟩ := m1.one 0x54
  exact ⟨s2, h1.append (Receives.cons h2 (Receives.nil s2)), m2⟩

/-- The mark is matched. -/
theorem Matched.mark (h : Matched 0 s) : ∃ s', Receives s atMark s' [] ∧ Matched 3 s' := by
  obtain ⟨s2, h2, m2⟩ := h.open2
  obtain ⟨s3, h3, m3⟩ := m2.two 0x23
  exact ⟨s3, h2.append (Receives.cons h3 (Receives.nil s3)), m3⟩

/-- An attempt that is broken off leaves the matcher in its initial state. -/
theorem BrokenOff.receives (h : Matched 0 s) (ht : BrokenOff cs) :
    ∃ s', Receives s cs s' [] ∧ Matched 0 s' := by
  cases ht with
  | @a c hc =>
      obtain ⟨s1, h1, m1⟩ := h.zero c
      rw [if_neg hc] at m1
      exact ⟨s1, Receives.cons h1 (Receives.nil s1), m1⟩
  | @t c hc =>
      obtain ⟨s1, h1, m1⟩ := h.open
      obtain ⟨s2, h2, m2⟩ := m1.one c
      rw [if_neg hc] at m2
      exact ⟨s2, h1.append (Receives.cons h2 (Receives.nil s2)), m2⟩
  | @hash c hc =>
      obtain ⟨s2, h2, m2⟩ := h.open2
      obtain ⟨s3, h3, m3⟩ := m2.two c
      rw [if_neg hc] at m3
      exact ⟨s3, h2.append (Receives.cons h3 (Receives.nil s3)), m3⟩

/-- A gap leaves the receiver where it was. -/
theorem Skippable.receives (h : Matched 0 s) (hgap : Skippable gap) :
    ∃ s', Receives s gap s' [] ∧ Matched 0 s' := by
  obtain ⟨tries, htries, rfl⟩ := hgap
  induction tries generalizing s with
  | nil => exact ⟨s, Receives.nil s, h⟩
  | cons t tries ih =>
      obtain ⟨s1, h1, m1⟩ := BrokenOff.receives h (htries t List.mem_cons_self)
      obtain ⟨s2, h2, m2⟩ := ih m1 fun t' ht' => htries t' (List.mem_cons_of_mem t ht')
      exact ⟨s2, h1.append h2, m2⟩

/-- A broken-off mark in front of a gap. -/
theorem Skippable.cons (ht : BrokenOff cs) (hgap : Skippable gap) : Skippable (cs ++ gap) := by
  obtain ⟨tries, htries, rfl⟩ := hgap
  refine ⟨cs :: tries, ?_, rfl⟩
  rintro t (_ | ⟨_, hmem⟩)
  · exact ht
  · exact htries t hmem

theorem Skippable.nil : Skippable [] := ⟨[], by simp, rfl⟩

/-- How the matcher takes a stream apart: attempts that are broken off, and then one that is
open at the end or has succeeded. -/
def TakenApart (l : List UInt8) : Prop :=
  ∃ g t, l = g ++ t ∧ Skippable g ∧ (t <+: [0x41, 0x54] ∨ atMark <+: t)

theorem TakenApart.cons (ht : BrokenOff cs) {l : List UInt8} (h : TakenApart l) :
    TakenApart (cs ++ l) := by
  obtain ⟨g, t, rfl, hg, hend⟩ := h
  exact ⟨cs ++ g, t, (List.append_assoc cs g t).symm, Skippable.cons ht hg, hend⟩

/-- Every list of bytes can be taken apart. -/
theorem takenApart : ∀ l, TakenApart l
  | [] => ⟨[], [], rfl, Skippable.nil, Or.inl List.nil_prefix⟩
  | a :: l => by
      by_cases ha : a = 0x41
      · subst ha
        match l with
        | [] => exact ⟨[], [0x41], rfl, Skippable.nil, Or.inl ⟨[0x54], rfl⟩⟩
        | b :: l =>
            by_cases hb : b = 0x54
            · subst hb
              match l with
              | [] => exact ⟨[], [0x41, 0x54], rfl, Skippable.nil, Or.inl List.prefix_rfl⟩
              | c :: l =>
                  by_cases hc : c = 0x23
                  · subst hc
                    exact ⟨[], atMark ++ l, rfl, Skippable.nil,
                      Or.inr (List.prefix_append atMark l)⟩
                  · exact TakenApart.cons (BrokenOff.hash hc) (takenApart l)
            · exact TakenApart.cons (BrokenOff.t hb) (takenApart l)
      · exact TakenApart.cons (BrokenOff.a ha) (takenApart l)

/-- The beginnings of the mark that are not the whole. -/
theorem prefix_at_cases {t : List UInt8} (h : t <+: [0x41, 0x54]) :
    t = [] ∨ t = [0x41] ∨ t = [0x41, 0x54] := by
  rcases t with _ | ⟨a, _ | ⟨b, t⟩⟩
  · exact Or.inl rfl
  · obtain ⟨rfl, -⟩ := List.cons_prefix_cons.mp h
    exact Or.inr (Or.inl rfl)
  · obtain ⟨rfl, hb⟩ := List.cons_prefix_cons.mp h
    obtain ⟨rfl, ht⟩ := List.cons_prefix_cons.mp hb
    rw [List.prefix_nil.mp ht]
    exact Or.inr (Or.inr rfl)

/-- Two gaps are a gap. -/
theorem Skippable.append {g g' : List UInt8} (h : Skippable g) (h' : Skippable g') :
    Skippable (g ++ g') := by
  obtain ⟨tries, htries, rfl⟩ := h
  obtain ⟨tries', htries', rfl⟩ := h'
  refine ⟨tries ++ tries', ?_, List.flatten_append⟩
  intro t ht
  exact (List.mem_append.mp ht).elim (htries t) (htries' t)

/-- An attempt that is open before `AT#` swallows it. -/
theorem skippable_or_skippable_append
    (hfirst : findMark atMark (gap ++ atMark) = some (gap, [])) :
    Skippable gap ∨ Skippable (gap ++ atMark) := by
  have hlost : ∀ {c : UInt8}, c ≠ 0x41 → ∀ {g}, Skippable g → Skippable (c :: g) :=
    fun hc _ hg => Skippable.cons (BrokenOff.a hc) hg
  have htail : Skippable [0x54, 0x23] :=
    hlost (by decide) (hlost (by decide) Skippable.nil)
  have ha : Skippable ([0x41, 0x41] ++ [0x54, 0x23]) :=
    Skippable.cons (BrokenOff.t (by decide)) htail
  have hat : Skippable ([0x41, 0x54, 0x41] ++ [0x54, 0x23]) :=
    Skippable.cons (BrokenOff.hash (by decide)) htail
  obtain ⟨g, t, rfl, hg, hopen | ⟨r, rfl⟩⟩ := takenApart gap
  · obtain rfl | rfl | rfl := prefix_at_cases hopen
    · rw [List.append_nil]
      exact Or.inl hg
    · right
      rw [List.append_assoc]
      exact hg.append ha
    · right
      rw [List.append_assoc]
      exact hg.append hat
  · -- the mark at the end would not be the first
    rw [List.append_assoc, List.append_assoc] at hfirst
    have hle := length_le_of_findMark hfirst
    rw [List.length_append, List.length_append] at hle
    have hpos : 0 < atMark.length := by decide
    omega

/-! ## the payload -/

/-- `payload` is in the buffer. -/
structure Collecting (payload : List UInt8) (s : AtRecv) : Prop where
  state : s.state = 3
  index : s.index.toNat = payload.length
  buffer : slice s.buffer 0 payload.length = payload
  room : payload.length < 32

/-- Behind the mark the payload is collected. -/
theorem Matched.collecting (h : Matched 3 s) : Collecting [] s :=
  ⟨h.state, by rw [h.index]; rfl, rfl, by decide⟩

/-- The byte that is stored next. -/
theorem slice_store_concat (m : Nat → UInt8) (n : Nat) (c : UInt8) :
    slice (store m n [c]) 0 (n + 1) = slice m 0 n ++ [c] := by
  have hnew := slice_store_self m n [c]
  rw [slice_add, slice_store_of_disjoint m n [c] 0 n (Or.inl (Nat.le_of_eq (Nat.zero_add n))),
    Nat.zero_add]
  exact congrArg (slice m 0 n ++ ·) hnew

/-- One more byte is written to the buffer. -/
theorem Collecting.step (h : Collecting payload s) (c : UInt8) :
    if c = 0x0A ∨ payload.length + 1 = 32 then
      ∃ s', uartReceiveChar c s = (s', some ⟨payload.length + 1, payload ++ [c]⟩) ∧ Matched 0 s'
    else ∃ s', uartReceiveChar c s = (s', none) ∧ Collecting (payload ++ [c]) s' := by
  obtain ⟨hstate, hindex, hbuffer, hroom⟩ := h
  have hnext : (s.index + 1).toNat = payload.length + 1 := by
    rw [UInt8.toNat_add, hindex]
    change (payload.length + 1) % 2 ^ 8 = _
    omega
  have hfull : 32 ≤ s.index + 1 ↔ payload.length + 1 = 32 := by
    rw [UInt8.le_iff_toNat_le, hnext]
    change 32 ≤ payload.length + 1 ↔ _
    omega
  have hslice : slice (store s.buffer s.index.toNat [c]) 0 (payload.length + 1) =
      payload ++ [c] := by
    rw [hindex, slice_store_concat, hbuffer]
  have hchar : uartReceiveChar c s =
      if c = 0x0A ∨ payload.length + 1 = 32 then
        (⟨0, 0, store s.buffer s.index.toNat [c]⟩, some ⟨payload.length + 1, payload ++ [c]⟩)
      else (⟨3, s.index + 1, store s.buffer s.index.toNat [c]⟩, none) := by
    rw [uartReceiveChar]
    simp only [hstate, hfull, hnext, hslice]
  split
  · next hend => exact ⟨_, by rw [hchar, if_pos hend], ⟨rfl, rfl⟩⟩
  · next hend =>
      refine ⟨_, by rw [hchar, if_neg hend], ⟨rfl, ?_, ?_, ?_⟩⟩
      · rw [List.length_append, List.length_singleton]
        exact hnext
      · rw [List.length_append, List.length_singleton]
        exact hslice
      · rw [List.length_append, List.length_singleton]
        omega

/-- Bytes that do not end the payload. -/
theorem Collecting.receives (h : Collecting payload s) (hcs : ∀ c ∈ cs, c ≠ 0x0A)
    (hroom : payload.length + cs.length < 32) :
    ∃ s', Receives s cs s' [] ∧ Collecting (payload ++ cs) s' := by
  induction cs generalizing s payload with
  | nil => exact ⟨s, Receives.nil s, by rwa [List.append_nil]⟩
  | cons c cs ih =>
      rw [List.length_cons] at hroom
      have hgo : ¬ (c = 0x0A ∨ payload.length + 1 = 32) := by
        rintro (hc | hfull)
        · exact hcs c List.mem_cons_self hc
        · omega
      have hstep := h.step c
      rw [if_neg hgo] at hstep
      obtain ⟨s1, h1, hcollect⟩ := hstep
      have hroom' : (payload ++ [c]).length + cs.length < 32 := by
        rw [List.length_append, List.length_singleton]
        omega
      obtain ⟨s2, h2, hcollect2⟩ :=
        ih hcollect (fun c' hc' => hcs c' (List.mem_cons_of_mem c hc')) hroom'
      rw [List.append_assoc] at hcollect2
      exact ⟨s2, Receives.cons h1 h2, hcollect2⟩

/-- A payload is posted as soon as it is complete. -/
theorem receives_payload (h : Matched 3 s)
    (hpayload : payload.length = payloadLength (· == 0x0A) 32 payload) :
    ∃ s', Receives s payload s' [⟨payload.length, payload⟩] ∧ Matched 0 s' := by
  obtain ⟨q, c, rfl, hq, hroom, hend⟩ := exists_concat_of_payloadLength (by decide) hpayload
  have hq' : ∀ a ∈ q, a ≠ 0x0A := fun a ha => by simpa using hq a ha
  have hroom' : ([] : List UInt8).length + q.length < 32 := by simpa using hroom
  obtain ⟨s1, h1, hcollect⟩ := h.collecting.receives hq' hroom'
  rw [List.nil_append] at hcollect
  have hstep := hcollect.step c
  rw [if_pos (by simpa using hend)] at hstep
  obtain ⟨s2, h2, m2⟩ := hstep
  refine ⟨s2, ?_, m2⟩
  rw [List.length_append, List.length_singleton]
  exact h1.append (Receives.cons h2 (Receives.nil s2))

/-- Without a complete command nothing is posted. -/
theorem receives_of_nextFrame_eq_none (h : Matched 0 s)
    (hnone : nextFrame atMark (· == 0x0A) 32 cs = none) : ∃ s', Receives s cs s' [] := by
  obtain ⟨g, t, rfl, hg, hend⟩ := takenApart cs
  obtain ⟨s1, h1, m1⟩ := Skippable.receives h hg
  obtain hopen | ⟨r, rfl⟩ := hend
  · obtain rfl | rfl | rfl := prefix_at_cases hopen
    · exact ⟨s1, h1.append (Receives.nil s1)⟩
    · obtain ⟨s2, h2, -⟩ := m1.open
      exact ⟨s2, h1.append h2⟩
    · obtain ⟨s2, h2, -⟩ := m1.open2
      exact ⟨s2, h1.append h2⟩
  · have hmark := nextFrame_eq_none_of_suffix (by decide) (List.suffix_append g (atMark ++ r)) hnone
    have hfind : findMark atMark (atMark ++ r) = some ([], r) := by
      have hempty : findMark atMark ([] ++ atMark) = some ([], []) := by decide
      exact (findMark_append_iff (by decide) [] r).mpr hempty
    obtain ⟨hgo, hroom⟩ := nextFrame_eq_none_iff.mp hmark [] r hfind
    obtain ⟨s2, h2, m2⟩ := m1.mark
    have hgo' : ∀ c ∈ r, c ≠ 0x0A := fun c hc => by simpa using hgo c hc
    obtain ⟨s3, h3, -⟩ := m2.collecting.receives hgo' (by simpa using hroom)
    exact ⟨s3, h1.append (h2.append h3)⟩

/-! ## what is posted -/

/-- A message ends with a newline or is full, and has no newline before its end. -/
structure AtMsg.Framed (msg : AtMsg) : Prop where
  length : msg.paramLen = msg.param.length
  pos : 0 < msg.paramLen
  le : msg.paramLen ≤ 32
  last : msg.paramLen = 32 ∨ msg.param[msg.paramLen - 1]? = some 0x0A
  inside : ∀ i < msg.paramLen - 1, msg.param[i]? ≠ some 0x0A

/-- The matcher is in one of its states. -/
def Receiving (s : AtRecv) : Prop :=
  Matched 0 s ∨ Matched 1 s ∨ Matched 2 s ∨
    ∃ payload, Collecting payload s ∧ ∀ c ∈ payload, c ≠ 0x0A

/-- A step of the matcher posts nothing. -/
theorem Receiving.of_matched {k e : UInt8} (hgo : ∀ s', Matched k s' → Receiving s')
    (h : ∃ s', uartReceiveChar c s = (s', none) ∧ Matched (if c = e then k else 0) s') :
    Receiving (uartReceiveChar c s).1 ∧ ∀ msg ∈ (uartReceiveChar c s).2, msg.Framed := by
  obtain ⟨s', hstep, m⟩ := h
  rw [hstep]
  refine ⟨?_, by simp⟩
  split at m
  · exact hgo s' m
  · exact Or.inl m

/-- A byte keeps the buffer in bounds, and what it completes is framed. -/
theorem Receiving.step (h : Receiving s) (c : UInt8) :
    Receiving (uartReceiveChar c s).1 ∧ ∀ msg ∈ (uartReceiveChar c s).2, msg.Framed := by
  obtain h0 | h1 | h2 | ⟨payload, hcollect, hgo⟩ := h
  · exact Receiving.of_matched (fun _ m => Or.inr (Or.inl m)) (h0.zero c)
  · exact Receiving.of_matched (fun _ m => Or.inr (Or.inr (Or.inl m))) (h1.one c)
  · exact Receiving.of_matched
      (fun _ m => Or.inr (Or.inr (Or.inr ⟨[], m.collecting, by simp⟩))) (h2.two c)
  · have hroom := hcollect.room
    have hstep := hcollect.step c
    split at hstep
    · next hend =>
        obtain ⟨s', hstep, m⟩ := hstep
        rw [hstep]
        refine ⟨Or.inl m, ?_⟩
        rintro msg ⟨⟩
        refine ⟨by simp, Nat.succ_pos _, hroom, ?_, ?_⟩
        · obtain rfl | hfull := hend
          · right
            simp
          · exact Or.inl hfull
        · intro i hi heq
          rw [List.getElem?_append_left hi] at heq
          exact hgo 0x0A (List.mem_of_getElem? heq) rfl
    · next hend =>
        obtain ⟨s', hstep, hcollect'⟩ := hstep
        rw [hstep]
        refine ⟨Or.inr (Or.inr (Or.inr ⟨_, hcollect', ?_⟩)), by simp⟩
        intro a ha
        rw [List.mem_append, List.mem_singleton] at ha
        obtain hold | rfl := ha
        · exact hgo a hold
        · exact fun heq => hend (Or.inl heq)

/-- So is all that a stream completes. -/
theorem Receiving.framed (h : Receiving s) : ∀ msg ∈ (uartReceive s cs).2, msg.Framed := by
  induction cs generalizing s with
  | nil => simp [uartReceive]
  | cons c cs ih =>
      obtain ⟨hnext, hposted⟩ := h.step c
      intro msg hmsg
      obtain hnow | hlater := List.mem_append.mp hmsg
      · exact hposted msg (Option.mem_toList.mp hnow)
      · exact ih hnext msg hlater

/-- All messages that are posted from the start are framed. -/
theorem framed_of_posted {msg : AtMsg} (h : msg ∈ (uartReceive AtRecv.init stream).2) :
    msg.Framed :=
  Receiving.framed (Or.inl ⟨rfl, rfl⟩) msg h

/-! ## a missed command -/

/-- A byte adds at most one to the length of what is posted. -/
theorem uartReceiveChar_index (h : s.index.toNat < 32) (c : UInt8) :
    (uartReceiveChar c s).1.index.toNat < 32 ∧
      (uartReceiveChar c s).1.index.toNat ≤ s.index.toNat + 1 ∧
      ∀ msg ∈ (uartReceiveChar c s).2, msg.paramLen ≤ s.index.toNat + 1 := by
  have hnext : (s.index + 1).toNat = s.index.toNat + 1 := by
    rw [UInt8.toNat_add]
    change (s.index.toNat + 1) % 2 ^ 8 = _
    omega
  rw [uartReceiveChar]
  split
  · split <;> simp <;> omega
  · simp
    omega
  · simp
    omega
  · simp only
    split
    · simp [hnext]
    · next hgo =>
        have hlt : ¬ (32 : UInt8) ≤ s.index + 1 := fun hfull => hgo (Or.inr hfull)
        rw [UInt8.le_iff_toNat_le, hnext] at hlt
        simp only [hnext, Option.mem_def, reduceCtorEq, false_imp_iff, implies_true, and_true,
          Nat.le_refl]
        exact Nat.lt_of_not_le hlt
  · simp
    omega

/-- A message is not longer than what has been received of it. -/
theorem paramLen_le (h : s.index.toNat < 32) :
    ∀ msg ∈ (uartReceive s cs).2, msg.paramLen ≤ s.index.toNat + cs.length := by
  induction cs generalizing s with
  | nil => simp [uartReceive]
  | cons c cs ih =>
      obtain ⟨hroom, hindex, hposted⟩ := uartReceiveChar_index h c
      intro msg hmsg
      rw [List.length_cons]
      obtain hnow | hlater := List.mem_append.mp hmsg
      · have hle := hposted msg (Option.mem_toList.mp hnow)
        omega
      · have hle := ih hroom msg hlater
        omega

/-- What is posted from the initial state is shorter than the bytes that have come. -/
theorem Matched.paramLen_lt (h : Matched 0 s) :
    ∀ msg ∈ (uartReceive s cs).2, msg.paramLen < cs.length := by
  cases cs with
  | nil => simp [uartReceive]
  | cons c cs =>
      obtain ⟨s1, h1, m1⟩ := h.zero c
      intro msg hmsg
      rw [uartReceive, h1] at hmsg
      have hle := paramLen_le (by rw [m1.index]; decide) msg hmsg
      rw [m1.index] at hle
      simpa using Nat.lt_succ_of_le hle

/-! ## streams -/

/-- Without a frame there is no message. -/
theorem atMsgs_of_none (h : nextFrame atMark (· == 0x0A) 32 cs = none) : atMsgs cs = [] := by
  rw [atMsgs, atFrames, scan_of_none h, List.map_nil]

/-- The message of the first frame, and those behind it. -/
theorem atMsgs_append {f : Frame UInt8} (hf : IsFrame atMark (· == 0x0A) 32 f)
    (rest : List UInt8) :
    atMsgs (f.append atMark rest) = ⟨f.payload.length, f.payload⟩ :: atMsgs rest := by
  rw [atMsgs, atFrames, scan_append (by decide) hf, List.map_cons]
  rfl

/-- A command that is not missed. -/
theorem receives_frame (h : Matched 0 s) {f : Frame UInt8}
    (hf : IsFrame atMark (· == 0x0A) 32 f) (hskip : Skippable f.gap) :
    ∃ s', Receives s (f.append atMark []) s' [⟨f.payload.length, f.payload⟩] ∧ Matched 0 s' := by
  obtain ⟨s1, h1, m1⟩ := Skippable.receives h hskip
  obtain ⟨s2, h2, m2⟩ := m1.mark
  obtain ⟨s3, h3, m3⟩ := receives_payload m2 hf.payload
  refine ⟨s3, ?_, m3⟩
  rw [Frame.append, List.append_nil]
  exact h1.append (h2.append h3)

/-- What follows a command that is not missed. -/
theorem msgs_frame_append {f : Frame UInt8} {s1 : AtRecv}
    (h : Receives s (f.append atMark []) s1 [⟨f.payload.length, f.payload⟩])
    (rest : List UInt8) :
    (uartReceive s (f.append atMark rest)).2 =
      ⟨f.payload.length, f.payload⟩ :: (uartReceive s1 rest).2 := by
  have hall := h.append (show Receives s1 rest _ _ from rfl)
  rw [← Frame.append_eq] at hall
  exact congrArg Prod.snd hall

/-- A command that is missed. -/
theorem msgs_ne_of_not_skippable (h : Matched 0 s) {f : Frame UInt8}
    (hf : IsFrame atMark (· == 0x0A) 32 f) (hskip : ¬ Skippable f.gap) :
    (uartReceive s (f.append atMark [])).2 ≠ [⟨f.payload.length, f.payload⟩] := by
  obtain ⟨s1, h1, m1⟩ := Skippable.receives h
    ((skippable_or_skippable_append hf.gap).resolve_left hskip)
  have hrest : Receives s1 f.payload (uartReceive s1 f.payload).1 (uartReceive s1 f.payload).2 :=
    rfl
  have hall := h1.append hrest
  rw [List.append_assoc, List.nil_append] at hall
  rw [Frame.append, List.append_nil, show uartReceive s _ = _ from hall]
  intro heq
  have hlt := m1.paramLen_lt (⟨f.payload.length, f.payload⟩ : AtMsg) (by rw [heq]; simp)
  exact Nat.lt_irrefl _ hlt

/-- From every idle state, the commands of the stream are posted as they are completed exactly
when none is missed. -/
def PostedUnlessMissed (stream : List UInt8) : Prop :=
  ∀ s, Matched 0 s → ((∀ cs, cs <+: stream → (uartReceive s cs).2 = atMsgs cs) ↔
    ∀ f ∈ atFrames stream, Skippable f.gap)

/-- Without a frame nothing is missed. -/
theorem postedUnlessMissed_of_none (hnone : nextFrame atMark (· == 0x0A) 32 stream = none) :
    PostedUnlessMissed stream := by
  intro s h
  refine iff_of_true (fun cs hcs => ?_) ?_
  · have hnone' := nextFrame_eq_none_of_prefix (by decide) hcs hnone
    obtain ⟨s', h1⟩ := receives_of_nextFrame_eq_none h hnone'
    rw [show uartReceive s cs = _ from h1, atMsgs_of_none hnone']
  · rw [atFrames, scan_of_none hnone]
    exact fun f hf => absurd hf List.not_mem_nil

theorem postedUnlessMissed_append {f : Frame UInt8} (hf : IsFrame atMark (· == 0x0A) 32 f)
    (rest : List UInt8) (ih : PostedUnlessMissed rest) :
    PostedUnlessMissed (f.append atMark rest) := by
  intro s h
  have hframes : atFrames (f.append atMark rest) = f :: atFrames rest :=
    scan_append (by decide) hf rest
  have hfront : atMsgs (f.append atMark []) = [⟨f.payload.length, f.payload⟩] :=
    atMsgs_append hf []
  have hpre : f.append atMark [] <+: f.append atMark rest := by
    rw [Frame.append_eq atMark f rest]
    exact List.prefix_append _ rest
  rw [hframes, List.forall_mem_cons]
  by_cases hskip : Skippable f.gap
  · obtain ⟨s1, h1, m1⟩ := receives_frame h hf hskip
    have hmore := msgs_frame_append h1
    rw [and_iff_right hskip, ← ih s1 m1]
    constructor
    · intro hall q hq
      have hthis := hall (f.append atMark q) (by
        rw [Frame.append_eq atMark f q, Frame.append_eq atMark f rest]
        exact (List.prefix_append_right_inj _).mpr hq)
      rw [hmore, atMsgs_append hf] at hthis
      exact (List.cons.inj hthis).2
    · intro hall cs hcs
      obtain hinside | ⟨q, rfl⟩ := List.prefix_or_prefix_of_prefix hcs hpre
      · obtain hnone | rfl := nextFrame_eq_none_or_eq (by decide) hf hinside
        · obtain ⟨s', h'⟩ := receives_of_nextFrame_eq_none h hnone
          rw [show uartReceive s cs = _ from h', atMsgs_of_none hnone]
        · rw [hfront, show uartReceive s _ = _ from h1]
      · rw [Frame.append_eq atMark f rest] at hcs
        rw [← Frame.append_eq, hmore, atMsgs_append hf,
          hall q ((List.prefix_append_right_inj _).mp hcs)]
  · refine iff_of_false (fun hall => ?_) (fun hall => hskip hall.1)
    exact msgs_ne_of_not_skippable h hf hskip ((hall _ hpre).trans hfront)

/-- The messages posted are those for the commands in the stream, all the time, exactly when
the text before each command can be skipped. -/
theorem at_framing_iff (stream : List UInt8) :
    (∀ cs, cs <+: stream → (uartReceive AtRecv.init cs).2 = atMsgs cs) ↔
      ∀ f ∈ atFrames stream, Skippable f.gap :=
  scan_induction (by decide) (fun _ => postedUnlessMissed_of_none)
    (fun _ rest hf ih => postedUnlessMissed_append hf rest ih) stream AtRecv.init ⟨rfl, rfl⟩

/-- The command of `AAT#` and a newline is missed. -/
theorem at_framing_misses : ¬ ∀ stream, (uartReceive AtRecv.init stream).2 = atMsgs stream := by
  intro h
  exact absurd (h [0x41, 0x41, 0x54, 0x23, 0x0A]) (by decide)

end Fr5080
