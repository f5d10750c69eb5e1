import Fr5080.Embedded.Mem

/-!
# Embedded.Lap

A stream that passes through a buffer of `cap` cells lap after lap: its `x`-th
element stands in cell `x % cap`.  Writers and readers are known by their
positions in the stream, which only grow; nothing counts the cells in use, so
that one of them that is ahead by more than a lap goes unnoticed.

* `InRing` — a part of the stream stands in the buffer;
* `InRing.store_self`, `InRing.store_other` — what a store does to it;
* `InRing.slice_eq`, `InRing.slice_split` — reading it, with the split at the end of
  the buffer.
-/

namespace Embedded

variable {α : Type*} {cap x y n : Nat} {buf : Nat → α} {xs ys : List α}

/-- The elements `xs` stand in the buffer, the first at position `x` of the stream. -/
def InRing (cap : Nat) (buf : Nat → α) (x : Nat) (xs : List α) : Prop :=
  ∀ i (h : i < xs.length), buf ((x + i) % cap) = xs[i]

/-- Positions less than a lap apart have different cells. -/
theorem mod_ne_mod (hlt : x < y) (hlap : y < x + cap) : x % cap ≠ y % cap := by
  intro heq
  have hdvd : cap ∣ y - x := Nat.dvd_of_mod_eq_zero (Nat.sub_mod_eq_zero_of_mod_eq heq.symm)
  have hle := Nat.le_of_dvd (by omega) hdvd
  omega

theorem inRing_nil : InRing cap buf x [] := by
  simp [InRing]

/-- A part of the stream in two pieces. -/
theorem inRing_append :
    InRing cap buf x (xs ++ ys) ↔ InRing cap buf x xs ∧ InRing cap buf (x + xs.length) ys := by
  constructor
  · intro h
    constructor
    · intro i hi
      have := h i (by rw [List.length_append]; omega)
      rwa [List.getElem_append_left hi] at this
    · intro i hi
      have := h (xs.length + i) (by rw [List.length_append]; omega)
      rw [List.getElem_append_right (by omega)] at this
      simpa [Nat.add_assoc] using this
  · rintro ⟨hxs, hys⟩ i hi
    by_cases hlt : i < xs.length
    · rw [List.getElem_append_left hlt]
      exact hxs i hlt
    · have hsub : i - xs.length < ys.length := by rw [List.length_append] at hi; omega
      have := hys (i - xs.length) hsub
      rw [List.getElem_append_right (by omega), ← this]
      congr 2
      omega

/-- What comes first is read and forgotten. -/
theorem InRing.drop (h : InRing cap buf x xs) (hn : n ≤ xs.length) :
    InRing cap buf (x + n) (xs.drop n) := by
  rw [← List.take_append_drop n xs, inRing_append] at h
  simpa [Nat.min_eq_left hn] using h.2

/-! ## writing -/

/-- What is written stands in the buffer. -/
theorem InRing.store_self (hstraight : x % cap + xs.length ≤ cap) :
    InRing cap (store buf (x % cap) xs) x xs := by
  intro i hi
  have hmod : (x + i) % cap = x % cap + i := by
    rw [Nat.add_mod, Nat.mod_eq_of_lt (a := i) (by omega), Nat.mod_eq_of_lt (by omega)]
  rw [hmod, store_add _ _ _ _ hi]

/-- A part that is less than a lap away from what is written is kept. -/
theorem InRing.store_other (h : InRing cap buf x xs) (hstraight : y % cap + ys.length ≤ cap)
    (haway : (x + xs.length ≤ y ∧ y + ys.length ≤ x + cap) ∨
      (y + ys.length ≤ x ∧ x + xs.length ≤ y + cap)) :
    InRing cap (store buf (y % cap) ys) x xs := by
  intro i hi
  rw [store_of_not_mem, h i hi]
  by_contra hmem
  obtain ⟨j, hj⟩ := Nat.exists_eq_add_of_le (show y % cap ≤ (x + i) % cap by omega)
  have hmod : (y + j) % cap = (x + i) % cap := by
    rw [hj, Nat.add_mod, Nat.mod_eq_of_lt (a := j) (by omega), Nat.mod_eq_of_lt (by omega)]
  cases haway with
  | inl hbefore => exact mod_ne_mod (by omega) (by omega) hmod.symm
  | inr hbehind => exact mod_ne_mod (by omega) (by omega) hmod

/-- **Writing behind**: the stream in the buffer gets longer. -/
theorem InRing.push (h : InRing cap buf x xs) (ys : List α) (hfits : xs.length + ys.length ≤ cap)
    (hstraight : (x + xs.length) % cap + ys.length ≤ cap) :
    InRing cap (store buf ((x + xs.length) % cap) ys) x (xs ++ ys) :=
  inRing_append.mpr
    ⟨h.store_other hstraight (Or.inl ⟨le_rfl, by omega⟩), InRing.store_self hstraight⟩

/-- What stands in the buffer, read without passing its end. -/
theorem inRing_slice (hstraight : x % cap + n ≤ cap) :
    InRing cap buf x (slice buf (x % cap) n) := by
  intro i hi
  rw [length_slice] at hi
  have hmod : (x + i) % cap = x % cap + i := by
    rw [Nat.add_mod, Nat.mod_eq_of_lt (a := i) (by omega), Nat.mod_eq_of_lt (by omega)]
  rw [getElem_slice, hmod]

/-- **Writing in place**: a piece of the stream in the buffer becomes what is written there. -/
theorem InRing.overwrite {zs : List α} (h : InRing cap buf x (xs ++ ys ++ zs)) (ws : List α)
    (hfits : (xs ++ ys ++ zs).length ≤ cap) (hlength : ws.length ≤ ys.length)
    (hstraight : (x + xs.length) % cap + ys.length ≤ cap) :
    InRing cap (store buf ((x + xs.length) % cap) ws) x
      (xs ++ slice (store buf ((x + xs.length) % cap) ws) ((x + xs.length) % cap) ys.length ++
        zs) := by
  simp only [List.length_append] at hfits
  obtain ⟨hxy, hzs⟩ := inRing_append.mp h
  have hxs := (inRing_append.mp hxy).1
  rw [List.length_append] at hzs
  rw [inRing_append, inRing_append, List.length_append, length_slice]
  exact ⟨⟨hxs.store_other (by omega) (Or.inl ⟨le_rfl, by omega⟩), inRing_slice hstraight⟩,
    hzs.store_other (by omega) (Or.inr ⟨by omega, by omega⟩)⟩

/-! ## reading -/

/-- Reading what does not pass the end of the buffer. -/
theorem InRing.slice_eq (h : InRing cap buf x xs) (hn : n ≤ xs.length)
    (hstraight : x % cap + n ≤ cap) : slice buf (x % cap) n = xs.take n := by
  apply List.ext_getElem
  · simp [hn]
  · intro i hi _
    have hlt : i < n := by simpa using hi
    have hmod : (x + i) % cap = x % cap + i := by
      rw [Nat.add_mod, Nat.mod_eq_of_lt (a := i) (by omega), Nat.mod_eq_of_lt (by omega)]
    rw [getElem_slice, List.getElem_take, ← hmod]
    exact h i (by omega)

/-- Reading what passes the end of the buffer, in two copies. -/
theorem InRing.slice_split (h : InRing cap buf x xs) (hn : n ≤ xs.length) (hcap : n ≤ cap)
    (hsplit : cap < x % cap + n) (hpos : 0 < cap) :
    slice buf (x % cap) (cap - x % cap) ++ slice buf 0 (n - (cap - x % cap)) = xs.take n := by
  have hlt := Nat.mod_lt x hpos
  have hhead := h.slice_eq (n := cap - x % cap) (by omega) (by omega)
  have hzero : (x + (cap - x % cap)) % cap = 0 := by
    have hlap : x + (cap - x % cap) = cap * (x / cap) + cap := by
      have := Nat.div_add_mod x cap
      omega
    rw [hlap, Nat.add_mod_right, Nat.mul_mod_right]
  have htail := (h.drop (n := cap - x % cap) (by omega)).slice_eq (n := n - (cap - x % cap))
    (by rw [List.length_drop]; omega) (by omega)
  rw [hzero] at htail
  rw [hhead, htail, ← List.take_add]
  congr 1
  omega

end Embedded
