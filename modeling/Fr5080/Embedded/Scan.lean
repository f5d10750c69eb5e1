import Mathlib.Data.List.Infix

/-!
# Embedded.Scan

Frames in a stream.  A frame is announced by a mark, whatever stands before it,
and its payload goes up to and including the first element that ends it, or has
the length `limit` if none comes sooner.  `scan` are the complete frames of a
stream, one behind the other.
-/

namespace Embedded

variable {α : Type*}

/-- A frame: what stands before its mark, and what follows it. -/
structure Frame (α : Type*) where
  gap : List α
  payload : List α
deriving DecidableEq, Repr

/-- The stream of a frame and what follows it. -/
def Frame.append (mark : List α) (f : Frame α) (rest : List α) : List α :=
  f.gap ++ (mark ++ (f.payload ++ rest))

theorem Frame.length_append (mark : List α) (f : Frame α) (rest : List α) :
    (f.append mark rest).length =
      f.gap.length + (mark.length + (f.payload.length + rest.length)) := by
  simp [Frame.append]

theorem Frame.append_eq (mark : List α) (f : Frame α) (rest : List α) :
    f.append mark rest = f.append mark [] ++ rest := by
  simp [Frame.append]

/-! ## the payload -/

/-- The length of a payload at the front of a stream. -/
def payloadLength (stop : α → Bool) (limit : Nat) (l : List α) : Nat :=
  min (l.findIdx stop + 1) limit

section

variable {stop : α → Bool} {limit : Nat} {l : List α}

/-- A payload that ends does not depend on what is behind it. -/
theorem payloadLength_append (h : payloadLength stop limit l ≤ l.length) (t : List α) :
    payloadLength stop limit (l ++ t) = payloadLength stop limit l := by
  have hle := @List.findIdx_le_length _ stop l
  rw [payloadLength] at h ⊢
  rw [payloadLength, List.findIdx_append]
  split <;> omega

/-- A payload that is cut off at its end is one. -/
theorem payloadLength_take (h : payloadLength stop limit l ≤ l.length) :
    payloadLength stop limit (l.take (payloadLength stop limit l)) =
      payloadLength stop limit l := by
  obtain ⟨k, hk⟩ : ∃ k, k = payloadLength stop limit l := ⟨_, rfl⟩
  rw [← hk] at h ⊢
  have hlen : (l.take k).length = k := List.length_take_of_le h
  have hle := @List.findIdx_le_length _ stop (l.take k)
  have hsplit := @List.findIdx_append _ stop (l.take k) (l.drop k)
  rw [List.take_append_drop, hlen] at hsplit
  rw [hlen] at hle
  rw [payloadLength] at hk ⊢
  split at hsplit <;> omega

/-- A payload is not complete yet. -/
theorem length_lt_payloadLength_iff :
    l.length < payloadLength stop limit l ↔ (∀ a ∈ l, stop a = false) ∧ l.length < limit := by
  have hle := @List.findIdx_le_length _ stop l
  rw [← List.findIdx_eq_length, payloadLength]
  omega

/-- The last element of a payload is the first that ends it, or the last that fits. -/
theorem exists_concat_of_payloadLength (hlimit : 0 < limit)
    (h : l.length = payloadLength stop limit l) :
    ∃ q c, l = q ++ [c] ∧ (∀ a ∈ q, stop a = false) ∧ q.length < limit ∧
      (stop c = true ∨ q.length + 1 = limit) := by
  rw [payloadLength] at h
  have hne : l ≠ [] := by
    rintro rfl
    rw [List.length_nil] at h
    omega
  obtain ⟨q, c, rfl⟩ : ∃ q c, l = q ++ [c] :=
    ⟨l.dropLast, l.getLast hne, (List.dropLast_concat_getLast hne).symm⟩
  have hle := @List.findIdx_le_length _ stop q
  rw [List.length_append, List.length_singleton, List.findIdx_append, List.findIdx_singleton] at h
  split at h
  · omega
  · refine ⟨q, c, rfl, List.findIdx_eq_length.mp (by omega), by omega, ?_⟩
    cases hc : stop c with
    | true => exact Or.inl rfl
    | false =>
        simp only [hc, Bool.false_eq_true, ite_false] at h
        right
        omega

end

/-! ## the mark -/

variable [DecidableEq α]

/-- The stream before the first mark and behind it. -/
def findMark (mark : List α) : List α → Option (List α × List α)
  | [] => none
  | a :: l =>
      if mark <+: a :: l then some ([], (a :: l).drop mark.length)
      else (findMark mark l).map fun (gap, rest) => (a :: gap, rest)

variable {mark l gap rest : List α} {stop : α → Bool} {limit : Nat}

/-- The list is the gap, the mark and the rest. -/
theorem append_of_findMark (h : findMark mark l = some (gap, rest)) :
    l = gap ++ (mark ++ rest) := by
  induction l generalizing gap with
  | nil => cases h
  | cons a l ih =>
      rw [findMark] at h
      split at h
      · next hmark =>
          cases h
          obtain ⟨t, ht⟩ := hmark
          rw [← ht, List.drop_left, List.nil_append]
      · obtain ⟨⟨gap', rest'⟩, hfind, heq⟩ := Option.map_eq_some_iff.mp h
        cases heq
        rw [ih hfind]
        rfl

/-- No mark comes before the first one. -/
theorem length_le_of_findMark {g r : List α}
    (h : findMark mark (g ++ (mark ++ r)) = some (gap, rest)) : gap.length ≤ g.length := by
  induction g generalizing gap with
  | nil =>
      rw [List.nil_append] at h
      cases hl : mark ++ r with
      | nil => rw [hl] at h; cases h
      | cons a l =>
          have hfront : mark <+: a :: l := hl ▸ List.prefix_append mark r
          rw [hl, findMark, if_pos hfront] at h
          cases h
          exact Nat.le_refl 0
  | cons a g ih =>
      rw [List.cons_append, findMark] at h
      split at h
      · cases h
        exact Nat.zero_le _
      · obtain ⟨⟨gap', rest'⟩, hfind, heq⟩ := Option.map_eq_some_iff.mp h
        cases heq
        exact Nat.succ_le_succ (ih hfind)

/-- Where the first mark is does not depend on what follows it. -/
theorem findMark_append_iff (hmark : mark ≠ []) (gap rest : List α) :
    findMark mark (gap ++ (mark ++ rest)) = some (gap, rest) ↔
      findMark mark (gap ++ mark) = some (gap, []) := by
  induction gap with
  | nil =>
      obtain ⟨a, m, rfl⟩ := List.exists_cons_of_ne_nil hmark
      have hfront : a :: m <+: a :: (m ++ rest) := List.prefix_append (a :: m) rest
      simp [findMark, hfront]
  | cons a gap ih =>
      have hlen : mark.length ≤ (a :: (gap ++ mark)).length := by simp; omega
      have hsame : mark <+: a :: (gap ++ (mark ++ rest)) ↔ mark <+: a :: (gap ++ mark) := by
        rw [← List.append_assoc, ← List.cons_append]
        exact List.isPrefix_append_of_length hlen
      simp only [List.cons_append, findMark, hsame]
      split
      · simp
      · simp only [Option.map_eq_some_iff, Prod.mk.injEq, List.cons.injEq, true_and]
        constructor
        · rintro ⟨⟨g, r⟩, hfind, rfl, rfl⟩
          exact ⟨(g, []), ih.mp hfind, rfl, rfl⟩
        · rintro ⟨⟨g, r⟩, hfind, rfl, rfl⟩
          exact ⟨(g, rest), ih.mpr hfind, rfl, rfl⟩

/-! ## frames -/

section

variable (mark : List α) (stop : α → Bool) (limit : Nat)

/-- The first frame of a stream, if it is complete, and what follows it. -/
def nextFrame (l : List α) : Option (Frame α × List α) :=
  match findMark mark l with
  | none => none
  | some (gap, rest) =>
      let len := payloadLength stop limit rest
      if len ≤ rest.length then some (⟨gap, rest.take len⟩, rest.drop len) else none

/-- The frames of a stream, at most `n`. -/
def scanUpTo : Nat → List α → List (Frame α)
  | 0, _ => []
  | n + 1, l => match nextFrame mark stop limit l with
    | none => []
    | some (f, rest) => f :: scanUpTo n rest

/-- The frames of a stream. -/
def scan (l : List α) : List (Frame α) := scanUpTo mark stop limit l.length l

/-- The gap ends with the first mark, and the payload with its end. -/
structure IsFrame (f : Frame α) : Prop where
  gap : findMark mark (f.gap ++ mark) = some (f.gap, [])
  payload : f.payload.length = payloadLength stop limit f.payload

end

variable {f : Frame α}

/-- A frame in front is found. -/
theorem nextFrame_append (hmark : mark ≠ []) (hf : IsFrame mark stop limit f) (rest : List α) :
    nextFrame mark stop limit (f.append mark rest) = some (f, rest) := by
  have hfind := (findMark_append_iff hmark f.gap (f.payload ++ rest)).mpr hf.gap
  have hlen : payloadLength stop limit (f.payload ++ rest) = f.payload.length := by
    rw [payloadLength_append (Nat.le_of_eq hf.payload.symm), hf.payload]
  simp [nextFrame, Frame.append, hfind, hlen]

/-- What is found is a frame in front. -/
theorem isFrame_of_nextFrame (hmark : mark ≠ [])
    (h : nextFrame mark stop limit l = some (f, rest)) :
    IsFrame mark stop limit f ∧ l = f.append mark rest := by
  rw [nextFrame] at h
  split at h
  · cases h
  · next gap rest' hfind =>
      have hl := append_of_findMark hfind
      rw [hl, findMark_append_iff hmark] at hfind
      simp only at h
      split at h
      · next hle =>
          cases h
          refine ⟨⟨hfind, ?_⟩, ?_⟩
          · rw [payloadLength_take hle, List.length_take_of_le hle]
          · rw [Frame.append, List.take_append_drop, hl]
      · cases h

/-- Without a complete frame in the whole, there is none in the front. -/
theorem nextFrame_eq_none_of_prefix (hmark : mark ≠ []) {l' : List α} (hpre : l' <+: l)
    (h : nextFrame mark stop limit l = none) : nextFrame mark stop limit l' = none := by
  obtain ⟨t, rfl⟩ := hpre
  cases hnext : nextFrame mark stop limit l' with
  | none => rfl
  | some r =>
      obtain ⟨hf, rfl⟩ := isFrame_of_nextFrame hmark hnext
      have hmore := nextFrame_append hmark hf (r.2 ++ t)
      simp only [Frame.append, List.append_assoc] at hmore h
      rw [hmore] at h
      cases h

/-- The front of a frame has no complete frame in it. -/
theorem nextFrame_eq_none_or_eq (hmark : mark ≠ []) (hf : IsFrame mark stop limit f) {l' : List α}
    (hpre : l' <+: f.append mark []) :
    nextFrame mark stop limit l' = none ∨ l' = f.append mark [] := by
  obtain ⟨t, ht⟩ := hpre
  cases hnext : nextFrame mark stop limit l' with
  | none => exact Or.inl rfl
  | some r =>
      obtain ⟨hf', rfl⟩ := isFrame_of_nextFrame hmark hnext
      have hwhole := nextFrame_append hmark hf []
      have hmore := nextFrame_append hmark hf' (r.2 ++ t)
      rw [← ht] at hwhole
      simp only [Frame.append, List.append_assoc] at hmore hwhole ht ⊢
      rw [hmore] at hwhole
      obtain ⟨-, hnil⟩ := List.append_eq_nil_iff.mp (congrArg Prod.snd (Option.some.inj hwhole))
      right
      rw [← ht, hnil]
      simp

/-- A stream has no complete frame if it has no mark, or the first payload goes on. -/
theorem nextFrame_eq_none_iff :
    nextFrame mark stop limit l = none ↔ ∀ gap rest, findMark mark l = some (gap, rest) →
      (∀ a ∈ rest, stop a = false) ∧ rest.length < limit := by
  rw [nextFrame]
  split
  · next hnone =>
      refine iff_of_true rfl fun gap rest hfind => ?_
      rw [hnone] at hfind
      cases hfind
  · next gap rest hfind =>
      simp only [ite_eq_right_iff, reduceCtorEq, imp_false, Nat.not_le, length_lt_payloadLength_iff]
      constructor
      · intro h gap' rest' hfind'
        rw [hfind] at hfind'
        cases hfind'
        exact h
      · intro h
        exact h gap rest hfind

/-- Without a complete frame in the whole, there is none in the back. -/
theorem nextFrame_eq_none_of_cons (hmark : mark ≠ []) {a : α}
    (h : nextFrame mark stop limit (a :: l) = none) : nextFrame mark stop limit l = none := by
  rw [nextFrame_eq_none_iff] at h ⊢
  intro gap rest hfind
  by_cases hfront : mark <+: a :: l
  · -- the payload goes on from the first mark, so also from a later one
    have hall := h [] ((a :: l).drop mark.length) (by rw [findMark, if_pos hfront])
    have hl := append_of_findMark hfind
    have hlen := congrArg List.length hl
    have hpos := List.length_pos_iff.mpr hmark
    simp only [List.length_append] at hlen
    have hsuffix : rest <:+ (a :: l).drop mark.length := by
      refine List.suffix_of_suffix_length_le ⟨a :: (gap ++ mark), ?_⟩
        (List.drop_suffix mark.length (a :: l)) ?_
      · rw [hl]
        simp
      · rw [List.length_drop, List.length_cons]
        omega
    exact ⟨fun b hb => hall.1 b (hsuffix.mem hb), Nat.lt_of_le_of_lt hsuffix.length_le hall.2⟩
  · exact h (a :: gap) rest (by rw [findMark, if_neg hfront, hfind]; rfl)

/-- A list without a frame has none behind its first bytes. -/
theorem nextFrame_eq_none_of_suffix (hmark : mark ≠ []) {l' : List α} (hsuffix : l' <:+ l)
    (h : nextFrame mark stop limit l = none) : nextFrame mark stop limit l' = none := by
  obtain ⟨g, rfl⟩ := hsuffix
  induction g with
  | nil => exact h
  | cons a g ih => exact ih (nextFrame_eq_none_of_cons hmark h)

/-! ## the scan -/

/-- Nothing is found. -/
theorem scan_of_none (h : nextFrame mark stop limit l = none) : scan mark stop limit l = [] := by
  cases l with
  | nil => rfl
  | cons a l => simp [scan, scanUpTo, h]

/-- More room for frames than the stream is long changes nothing. -/
theorem scanUpTo_congr (hmark : mark ≠ []) {n m : Nat} (hn : l.length ≤ n) (hm : l.length ≤ m) :
    scanUpTo mark stop limit n l = scanUpTo mark stop limit m l := by
  induction n generalizing m l with
  | zero =>
      obtain rfl := List.length_eq_zero_iff.mp (Nat.le_zero.mp hn)
      cases m <;> rfl
  | succ n ih =>
      cases hnext : nextFrame mark stop limit l with
      | none => cases m <;> simp [scanUpTo, hnext]
      | some r =>
          obtain ⟨f, rest⟩ := r
          obtain ⟨-, hl⟩ := isFrame_of_nextFrame hmark hnext
          have hlen := Frame.length_append mark f rest
          have hpos := List.length_pos_iff.mpr hmark
          rw [← hl] at hlen
          cases m with
          | zero => omega
          | succ m =>
              have hrest : scanUpTo mark stop limit n rest = scanUpTo mark stop limit m rest :=
                ih (by omega) (by omega)
              simp only [scanUpTo, hnext, hrest]

/-- The first frame, and those behind it. -/
theorem scan_append (hmark : mark ≠ []) (hf : IsFrame mark stop limit f) (rest : List α) :
    scan mark stop limit (f.append mark rest) = f :: scan mark stop limit rest := by
  have hlen := Frame.length_append mark f rest
  have hpos := List.length_pos_iff.mpr hmark
  obtain ⟨n, hn⟩ := Nat.exists_eq_add_one.mpr (by omega : 0 < (f.append mark rest).length)
  rw [scan, hn, scanUpTo, nextFrame_append hmark hf]
  simp only
  rw [scan, scanUpTo_congr hmark (by omega) (Nat.le_refl rest.length)]

/-- **Induction on the frames of a stream.** -/
theorem scan_induction (hmark : mark ≠ []) {P : List α → Prop}
    (hnone : ∀ l, nextFrame mark stop limit l = none → P l)
    (hframe : ∀ f rest, IsFrame mark stop limit f → P rest → P (f.append mark rest))
    (l : List α) : P l := by
  induction hn : l.length using Nat.strong_induction_on generalizing l with
  | _ n ih =>
      cases hnext : nextFrame mark stop limit l with
      | none => exact hnone l hnext
      | some r =>
          obtain ⟨hf, rfl⟩ := isFrame_of_nextFrame hmark hnext
          have hlen := Frame.length_append mark r.1 r.2
          have hpos := List.length_pos_iff.mpr hmark
          exact hframe r.1 r.2 hf (ih r.2.length (by omega) r.2 rfl)

end Embedded
