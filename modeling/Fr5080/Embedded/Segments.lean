import Mathlib.Algebra.Ring.Nat
import Mathlib.Data.List.Chain

/-!
# Embedded.Segments

A region of memory cut into segments, each of them free or held by somebody:
the state of an allocator.  The segments are known by their sizes, so they tile the
region by construction; the address of a segment is the sum of the sizes before it.

Segments are handed out first fit (`firstFit`).  A segment that is given back is
joined with its free neighbours (`release`), so two free segments are never
adjacent (`Coalesced`).  Then free bytes in a row are in one segment
(`exists_free_of_gap`), and a region that nobody holds is one segment
(`eq_singleton_of_coalesced`).
-/

namespace Embedded

/-- A segment; `holder` is `none` where it is free. -/
structure Segment (κ : Type*) where
  size : Nat
  holder : Option κ

variable {κ : Type*} {s t : Segment κ} {segs pre post : List (Segment κ)} {k : κ} {a n w tl : Nat}

/-- The segment is free. -/
def Segment.isFree (s : Segment κ) : Bool := s.holder.isNone

/-- Nobody holds it. -/
@[simp] theorem Segment.isFree_none (n : Nat) : (⟨n, none⟩ : Segment κ).isFree = true := rfl

/-- `k` holds it. -/
@[simp] theorem Segment.isFree_some (n : Nat) (k : κ) :
    (⟨n, some k⟩ : Segment κ).isFree = false := rfl

/-- The number of bytes of segments. -/
def extent : List (Segment κ) → Nat
  | [] => 0
  | s :: segs => s.size + extent segs

/-- The number of free bytes. -/
def freeBytes : List (Segment κ) → Nat
  | [] => 0
  | s :: segs => (if s.isFree then s.size else 0) + freeBytes segs

@[simp] theorem extent_nil : extent ([] : List (Segment κ)) = 0 := rfl

@[simp] theorem extent_cons : extent (s :: segs) = s.size + extent segs := rfl

/-- The bytes of two regions in a row. -/
@[simp] theorem extent_append : extent (pre ++ post) = extent pre + extent post := by
  induction pre with
  | nil => simp
  | cons s pre ih => simp [ih, Nat.add_assoc]

@[simp] theorem freeBytes_nil : freeBytes ([] : List (Segment κ)) = 0 := rfl

@[simp] theorem freeBytes_cons :
    freeBytes (s :: segs) = (if s.isFree then s.size else 0) + freeBytes segs := rfl

/-- The free bytes of two regions in a row. -/
@[simp] theorem freeBytes_append : freeBytes (pre ++ post) = freeBytes pre + freeBytes post := by
  induction pre with
  | nil => simp
  | cons s pre ih => simp [ih, Nat.add_assoc]

/-- No more bytes are free than there are. -/
theorem freeBytes_le_extent : freeBytes segs ≤ extent segs := by
  induction segs with
  | nil => simp
  | cons s segs ih =>
      simp only [freeBytes_cons, extent_cons]
      split <;> omega

/-! ## addresses -/

/-- The segments with their addresses, the first one at `a`. -/
def placed : Nat → List (Segment κ) → List (Nat × Segment κ)
  | _, [] => []
  | a, s :: segs => (a, s) :: placed (a + s.size) segs

@[simp] theorem placed_nil : placed a ([] : List (Segment κ)) = [] := rfl

@[simp] theorem placed_cons : placed a (s :: segs) = (a, s) :: placed (a + s.size) segs := rfl

/-- The second region begins where the first one ends. -/
@[simp] theorem placed_append :
    placed a (pre ++ post) = placed a pre ++ placed (a + extent pre) post := by
  induction pre generalizing a with
  | nil => simp
  | cons s pre ih => simp [ih, Nat.add_assoc]

/-- A segment lies inside the region. -/
theorem bounds_of_mem_placed {p : Nat × Segment κ} (hp : p ∈ placed a segs) :
    a ≤ p.1 ∧ p.1 + p.2.size ≤ a + extent segs := by
  induction segs generalizing a with
  | nil => cases hp
  | cons s segs ih =>
      simp only [placed_cons, List.mem_cons, extent_cons] at hp ⊢
      obtain rfl | hp := hp
      · exact ⟨Nat.le_refl _, by simp⟩
      · have := ih hp
        omega

/-- The address of a segment is the number of bytes before it. -/
theorem mem_placed_split {p : Nat × Segment κ} (hp : p ∈ placed a segs) :
    ∃ pre post, segs = pre ++ p.2 :: post ∧ p.1 = a + extent pre := by
  induction segs generalizing a with
  | nil => cases hp
  | cons s segs ih =>
      rw [placed_cons, List.mem_cons] at hp
      obtain rfl | hp := hp
      · exact ⟨[], segs, rfl, by simp⟩
      · obtain ⟨pre, post, rfl, haddr⟩ := ih hp
        exact ⟨s :: pre, post, rfl, by simp [haddr, Nat.add_assoc]⟩

/-- Different segments do not overlap. -/
theorem placed_pairwise : (placed a segs).Pairwise fun p q => p.1 + p.2.size ≤ q.1 := by
  induction segs generalizing a with
  | nil => exact List.Pairwise.nil
  | cons s segs ih =>
      exact List.pairwise_cons.mpr ⟨fun q hq => (bounds_of_mem_placed hq).1, ih⟩

/-- The segments that are held, with their addresses. -/
def heldPlaced (a : Nat) (segs : List (Segment κ)) : List (Nat × Segment κ) :=
  (placed a segs).filter fun p => !p.2.isFree

@[simp] theorem heldPlaced_nil : heldPlaced a ([] : List (Segment κ)) = [] := rfl

/-- A free segment is passed over. -/
@[simp] theorem heldPlaced_free :
    heldPlaced a (⟨n, none⟩ :: segs) = heldPlaced (a + n) segs := rfl

/-- A segment that is held comes first. -/
@[simp] theorem heldPlaced_held :
    heldPlaced a (⟨n, some k⟩ :: segs) = (a, ⟨n, some k⟩) :: heldPlaced (a + n) segs := rfl

/-- The segments held in two regions in a row. -/
@[simp] theorem heldPlaced_append :
    heldPlaced a (pre ++ post) = heldPlaced a pre ++ heldPlaced (a + extent pre) post := by
  rw [heldPlaced, placed_append, List.filter_append, heldPlaced, heldPlaced]

/-- What is held is what is not free. -/
theorem mem_heldPlaced_iff {p : Nat × Segment κ} :
    p ∈ heldPlaced a segs ↔ p ∈ placed a segs ∧ p.2.isFree = false := by
  rw [heldPlaced, List.mem_filter, Bool.not_eq_true']

/-- Nobody holds a segment. -/
theorem forall_isFree_of_heldPlaced (h : heldPlaced a segs = []) : ∀ s ∈ segs, s.isFree := by
  induction segs generalizing a with
  | nil => exact fun s hs => absurd hs List.not_mem_nil
  | cons s segs ih =>
      obtain ⟨n, _ | k⟩ := s
      · exact List.forall_mem_cons.mpr ⟨rfl, ih h⟩
      · cases h

/-- Segments that are held do not overlap. -/
theorem heldPlaced_pairwise :
    (heldPlaced a segs).Pairwise fun p q => p.1 + p.2.size ≤ q.1 :=
  placed_pairwise.filter _

/-- A segment that is held, and what is before it. -/
theorem mem_heldPlaced_split {p : Nat × Segment κ} (hp : p ∈ heldPlaced a segs) :
    ∃ pre k post, segs = pre ++ ⟨p.2.size, some k⟩ :: post ∧ p.2.holder = some k ∧
      p.1 = a + extent pre := by
  obtain ⟨pre, post, rfl, haddr⟩ := mem_placed_split (mem_heldPlaced_iff.mp hp).1
  obtain ⟨b, n, _ | k⟩ := p
  · have hheld := (List.mem_filter.mp hp).2
    cases hheld
  · exact ⟨pre, k, post, rfl, rfl, haddr⟩

/-- No other segment has the address of a segment. -/
theorem ne_of_mem_heldPlaced (hpre : ∀ s ∈ pre, 0 < s.size) (hn : 0 < n) :
    ∀ q ∈ heldPlaced a pre ++ heldPlaced (a + extent pre + n) post, q.1 ≠ a + extent pre := by
  intro q hq
  obtain hq | hq := List.mem_append.mp hq
  · obtain ⟨front, k, back, rfl, -, haddr⟩ := mem_heldPlaced_split hq
    have := hpre _ (List.mem_append_right front List.mem_cons_self)
    simp only [extent_append, extent_cons]
    simp only at this
    omega
  · have := (bounds_of_mem_placed (mem_heldPlaced_iff.mp hq).1).1
    omega

/-- A change of one segment. -/
theorem map_heldPlaced {f : Nat × Segment κ → Nat × Segment κ} (hpre : ∀ s ∈ pre, 0 < s.size)
    (hn : 0 < n) (hf : ∀ q, q.1 ≠ a + extent pre → f q = q) :
    (heldPlaced a (pre ++ ⟨n, some k⟩ :: post)).map f =
      heldPlaced a pre ++ f (a + extent pre, ⟨n, some k⟩) ::
        heldPlaced (a + extent pre + n) post := by
  have hself : ∀ qs : List (Nat × Segment κ), (∀ q ∈ qs, q.1 ≠ a + extent pre) → qs.map f = qs :=
    fun qs hne => (List.map_congr_left fun q hq => hf q (hne q hq)).trans (List.map_id qs)
  have hne := List.forall_mem_append.mp (@ne_of_mem_heldPlaced _ pre post a n hpre hn)
  rw [heldPlaced_append, heldPlaced_held, List.map_append, List.map_cons, hself _ hne.1,
    hself _ hne.2]

/-- One segment is left out. -/
theorem filter_heldPlaced (hpre : ∀ s ∈ pre, 0 < s.size) (hn : 0 < n) :
    (heldPlaced a (pre ++ ⟨n, some k⟩ :: post)).filter (fun q => q.1 ≠ a + extent pre) =
      heldPlaced a pre ++ heldPlaced (a + extent pre + n) post := by
  have hne := @ne_of_mem_heldPlaced _ pre post a n hpre hn
  rw [heldPlaced_append, heldPlaced_held, List.filter_append, List.filter_cons_of_neg (by simp),
    ← List.filter_append]
  exact List.filter_eq_self.mpr fun q hq => decide_eq_true (hne q hq)

/-- What is not free is held. -/
theorem freeBytes_add_held :
    freeBytes segs + ((heldPlaced a segs).map fun p => p.2.size).sum = extent segs := by
  induction segs generalizing a with
  | nil => simp
  | cons s segs ih =>
      have := @ih (a + s.size)
      obtain ⟨n, _ | k⟩ := s
      · simp only [freeBytes_cons, Segment.isFree_none, ↓reduceIte, heldPlaced_free,
          extent_cons] at this ⊢
        omega
      · simp only [freeBytes_cons, Segment.isFree_some, Bool.false_eq_true, ↓reduceIte,
          Nat.zero_add, heldPlaced_held, List.map_cons, List.sum_cons, extent_cons] at this ⊢
        omega

/-- The address of the first free segment, `tl` where there is none. -/
def firstFree (tl : Nat) : Nat → List (Segment κ) → Nat
  | _, [] => tl
  | a, s :: segs => if s.isFree then a else firstFree tl (a + s.size) segs

/-- The address of the last free segment, `d` where there is none. -/
def lastFree : Nat → Nat → List (Segment κ) → Nat
  | d, _, [] => d
  | d, a, s :: segs => lastFree (if s.isFree then a else d) (a + s.size) segs

@[simp] theorem firstFree_nil : firstFree tl a ([] : List (Segment κ)) = tl := rfl

@[simp] theorem firstFree_cons :
    firstFree tl a (s :: segs) = if s.isFree then a else firstFree tl (a + s.size) segs := rfl

@[simp] theorem lastFree_nil (d : Nat) : lastFree d a ([] : List (Segment κ)) = d := rfl

@[simp] theorem lastFree_cons (d : Nat) :
    lastFree d a (s :: segs) = lastFree (if s.isFree then a else d) (a + s.size) segs := rfl

/-- The first free segment of the second region, where the first region has none. -/
theorem firstFree_append :
    firstFree tl a (pre ++ post) = firstFree (firstFree tl (a + extent pre) post) a pre := by
  induction pre generalizing a with
  | nil => simp
  | cons s pre ih => simp [ih, Nat.add_assoc]

/-- The last free segment of the first region, where the second region has none. -/
theorem lastFree_append (d : Nat) :
    lastFree d a (pre ++ post) = lastFree (lastFree d a pre) (a + extent pre) post := by
  induction pre generalizing d a with
  | nil => simp
  | cons s pre ih => simp [ih, Nat.add_assoc]

/-- The first free segment is in the region. -/
theorem firstFree_bounds (tl a : Nat) (segs : List (Segment κ)) : firstFree tl a segs = tl ∨
    a ≤ firstFree tl a segs ∧ firstFree tl a segs ≤ a + extent segs := by
  induction segs generalizing a with
  | nil => exact Or.inl rfl
  | cons s segs ih =>
      rw [firstFree_cons, extent_cons]
      split
      · omega
      · have := ih (a + s.size)
        omega

/-! ## first fit -/

/-- The first free segment of `w` bytes at least, between the segments before and behind it. -/
def firstFit (w : Nat) : List (Segment κ) → Option (List (Segment κ) × Nat × List (Segment κ))
  | [] => none
  | s :: segs =>
      if s.isFree ∧ w ≤ s.size then some ([], s.size, segs)
      else (firstFit w segs).map fun (pre, n, post) => (s :: pre, n, post)

/-- What first fit finds is free and large enough, and no free segment before it is. -/
theorem firstFit_eq_some (h : firstFit w segs = some (pre, n, post)) :
    segs = pre ++ ⟨n, none⟩ :: post ∧ w ≤ n ∧ ∀ s ∈ pre, s.isFree → s.size < w := by
  induction segs generalizing pre with
  | nil => cases h
  | cons s segs ih =>
      rw [firstFit] at h
      split at h
      · next hfit =>
          cases h
          obtain ⟨size, _ | k⟩ := s
          · exact ⟨rfl, hfit.2, fun _ hs => absurd hs List.not_mem_nil⟩
          · exact absurd hfit.1 (by simp)
      · next hnot =>
          rw [Option.map_eq_some_iff] at h
          obtain ⟨⟨pre', n', post'⟩, hrest, heq⟩ := h
          cases heq
          obtain ⟨rfl, hle, hpre⟩ := ih hrest
          refine ⟨rfl, hle, fun t ht hfree => ?_⟩
          obtain rfl | ht := List.mem_cons.mp ht
          · exact Nat.not_le.mp fun hw => hnot ⟨hfree, hw⟩
          · exact hpre t ht hfree

/-- First fit finds nothing exactly where no free segment is large enough. -/
theorem firstFit_eq_none_iff : firstFit w segs = none ↔ ∀ s ∈ segs, s.isFree → s.size < w := by
  induction segs with
  | nil => simp [firstFit]
  | cons s segs ih =>
      rw [firstFit]
      split
      · next hfit =>
          refine iff_of_false (fun h => by cases h) fun hall => ?_
          exact absurd (hall s List.mem_cons_self hfit.1) (Nat.not_lt.mpr hfit.2)
      · next hnot =>
          rw [Option.map_eq_none_iff, ih, List.forall_mem_cons]
          refine ⟨fun hall => ⟨fun hfree => Nat.not_le.mp fun hw => hnot ⟨hfree, hw⟩, hall⟩,
            And.right⟩

/-! ## giving back -/

/-- No two free segments are adjacent. -/
def Coalesced (segs : List (Segment κ)) : Prop :=
  segs.IsChain fun s t => s.isFree = false ∨ t.isFree = false

/-- A free segment in front, joined with the first one where that is free. -/
def joinNext (n : Nat) : List (Segment κ) → List (Segment κ)
  | ⟨k, none⟩ :: post => ⟨n + k, none⟩ :: post
  | post => ⟨n, none⟩ :: post

/-- A segment between `pre` and `post` is given back. -/
def release (pre : List (Segment κ)) (n : Nat) (post : List (Segment κ)) : List (Segment κ) :=
  match pre.getLast? with
  | some ⟨k, none⟩ => pre.dropLast ++ joinNext (k + n) post
  | _ => pre ++ joinNext n post

@[simp] theorem joinNext_nil (n : Nat) : joinNext n ([] : List (Segment κ)) = [⟨n, none⟩] := rfl

/-- A free neighbour is joined. -/
@[simp] theorem joinNext_free (n m : Nat) (post : List (Segment κ)) :
    joinNext n (⟨m, none⟩ :: post) = ⟨n + m, none⟩ :: post := rfl

/-- A neighbour that is held is left alone. -/
@[simp] theorem joinNext_held (n m : Nat) (k : κ) (post : List (Segment κ)) :
    joinNext n (⟨m, some k⟩ :: post) = ⟨n, none⟩ :: ⟨m, some k⟩ :: post := rfl

@[simp] theorem release_nil (n : Nat) (post : List (Segment κ)) :
    release [] n post = joinNext n post := rfl

/-- A free segment before it is joined. -/
@[simp] theorem release_concat_free (pre : List (Segment κ)) (m n : Nat)
    (post : List (Segment κ)) :
    release (pre ++ [⟨m, none⟩]) n post = pre ++ joinNext (m + n) post := by
  simp [release]

/-- A segment before it that is held is left alone. -/
@[simp] theorem release_concat_held (pre : List (Segment κ)) (m : Nat) (k : κ) (n : Nat)
    (post : List (Segment κ)) :
    release (pre ++ [⟨m, some k⟩]) n post = pre ++ ⟨m, some k⟩ :: joinNext n post := by
  simp [release]

/-- What is before a segment is empty, or ends with a free segment, or with one that is held. -/
theorem segments_cases {motive : List (Segment κ) → Prop} (segs : List (Segment κ))
    (nil : motive []) (free : ∀ segs n, motive (segs ++ [⟨n, none⟩]))
    (held : ∀ segs n k, motive (segs ++ [⟨n, some k⟩])) : motive segs := by
  obtain rfl | ⟨segs, ⟨n, _ | k⟩, rfl⟩ := segs.eq_nil_or_concat'
  · exact nil
  · exact free segs n
  · exact held segs n k

/-- Joining keeps the bytes. -/
theorem extent_joinNext : extent (joinNext n post) = n + extent post := by
  match post with
  | [] => rfl
  | ⟨m, none⟩ :: post => simp [Nat.add_assoc]
  | ⟨m, some k⟩ :: post => rfl

/-- The bytes joined are free. -/
theorem freeBytes_joinNext : freeBytes (joinNext n post) = n + freeBytes post := by
  match post with
  | [] => rfl
  | ⟨m, none⟩ :: post => simp [Nat.add_assoc]
  | ⟨m, some k⟩ :: post => rfl

/-- Giving back keeps the bytes. -/
@[simp] theorem extent_release : extent (release pre n post) = extent pre + n + extent post := by
  induction pre using segments_cases with
  | nil => simp [extent_joinNext]
  | free pre m => simp [extent_joinNext]; omega
  | held pre m k => simp [extent_joinNext]; omega

/-- The bytes given back are free. -/
@[simp] theorem freeBytes_release :
    freeBytes (release pre n post) = freeBytes pre + n + freeBytes post := by
  induction pre using segments_cases with
  | nil => simp [freeBytes_joinNext]
  | free pre m => simp [freeBytes_joinNext]; omega
  | held pre m k => simp [freeBytes_joinNext]; omega

/-- Joining moves no segment that is held. -/
theorem heldPlaced_joinNext : heldPlaced a (joinNext n post) = heldPlaced (a + n) post := by
  match post with
  | [] => rfl
  | ⟨m, none⟩ :: post => simp [Nat.add_assoc]
  | ⟨m, some k⟩ :: post => rfl

/-- Giving back takes the one segment from those that are held. -/
theorem heldPlaced_release :
    heldPlaced a (release pre n post) =
      heldPlaced a pre ++ heldPlaced (a + extent pre + n) post := by
  induction pre using segments_cases with
  | nil => simp [heldPlaced_joinNext]
  | free pre m => simp [heldPlaced_joinNext, Nat.add_assoc]
  | held pre m k => simp [heldPlaced_joinNext, Nat.add_assoc]

/-- Only what is free matters, not the sizes. -/
theorem coalesced_iff_map : Coalesced segs ↔
    (segs.map Segment.isFree).IsChain fun b c => b = false ∨ c = false := by
  rw [List.isChain_map]
  rfl

/-- Both sides of a segment. -/
theorem Coalesced.parts (h : Coalesced (pre ++ s :: post)) : Coalesced pre ∧ Coalesced post :=
  ⟨h.left_of_append, h.right_of_append.of_cons⟩

/-- A segment that is held may be next to anything. -/
theorem coalesced_held_iff :
    Coalesced (pre ++ ⟨n, some k⟩ :: post) ↔ Coalesced pre ∧ Coalesced post := by
  simp [coalesced_iff_map, List.isChain_append, List.isChain_cons]

/-- A free segment behind one that is held. -/
theorem coalesced_joinNext (h : Coalesced post) : Coalesced (joinNext n post) := by
  match post, h with
  | [], _ => simp [coalesced_iff_map]
  | ⟨m, none⟩ :: post, h => simpa [coalesced_iff_map, List.isChain_cons] using h
  | ⟨m, some k⟩ :: post, h => simpa [coalesced_iff_map, List.isChain_cons] using h

/-- **Giving back keeps free segments apart**. -/
theorem coalesced_release (hpre : Coalesced pre) (hpost : Coalesced post) :
    Coalesced (release pre n post) := by
  induction pre using segments_cases with
  | nil => exact coalesced_joinNext hpost
  | free pre m =>
      have hjoin := coalesced_joinNext (n := m + n) hpost
      rw [release_concat_free]
      match post, hjoin with
      | [], _ => simpa [coalesced_iff_map] using hpre
      | ⟨m', none⟩ :: post, hjoin =>
          simp [coalesced_iff_map, List.isChain_append] at hpre hjoin ⊢
          exact ⟨hpre.1, hjoin, hpre.2⟩
      | ⟨m', some k⟩ :: post, hjoin =>
          simp [coalesced_iff_map, List.isChain_append] at hpre hjoin ⊢
          exact ⟨hpre.1, hjoin, hpre.2⟩
  | held pre m k =>
      rw [release_concat_held, coalesced_held_iff]
      rw [coalesced_held_iff] at hpre
      exact ⟨hpre.1, coalesced_joinNext hpost⟩

/-- **Free bytes in a row are in one segment**: where `n` bytes from `b` on are in no segment
that is held, a free segment has `n` bytes. -/
theorem exists_free_of_gap {b : Nat} (h : Coalesced segs) (hpos : ∀ s ∈ segs, 0 < s.size)
    (hn : 0 < n) (hlo : a ≤ b) (hhi : b + n ≤ a + extent segs)
    (hgap : ∀ p ∈ placed a segs, p.2.isFree = false → b + n ≤ p.1 ∨ p.1 + p.2.size ≤ b) :
    ∃ s ∈ segs, s.isFree ∧ n ≤ s.size := by
  induction segs generalizing a with
  | nil =>
      rw [extent_nil] at hhi
      omega
  | cons s segs ih =>
      have hsize := hpos s List.mem_cons_self
      by_cases hafter : a + s.size ≤ b
      · -- the bytes are behind the first segment
        obtain ⟨t, ht, hfree, hle⟩ := ih h.of_cons (fun t ht => hpos t (List.mem_cons_of_mem s ht))
          hafter (by rwa [extent_cons, ← Nat.add_assoc] at hhi)
          fun p hp => hgap p (List.mem_cons_of_mem _ hp)
        exact ⟨t, List.mem_cons_of_mem s ht, hfree, hle⟩
      · refine ⟨s, List.mem_cons_self, ?_⟩
        have hfree : s.isFree = true := by
          by_contra hheld
          have := hgap (a, s) List.mem_cons_self (by simpa using hheld)
          simp only at this
          omega
        refine ⟨hfree, Nat.not_lt.mp fun hlt => ?_⟩
        -- they would reach into the second segment, which is held
        match segs, h, hpos, hgap, hhi with
        | [], _, _, _, hhi =>
            simp only [extent_cons, extent_nil] at hhi
            omega
        | t :: segs, h, hpos, hgap, _ =>
            have hheld : t.isFree = false := by
              obtain hs | ht := (List.isChain_cons_cons.mp h).1
              · rw [hfree] at hs
                cases hs
              · exact ht
            have hsize' := hpos t (List.mem_cons_of_mem s List.mem_cons_self)
            have := hgap (a + s.size, t) (List.mem_cons_of_mem _ List.mem_cons_self) hheld
            simp only at this
            omega

/-- A region that nobody holds is one segment. -/
theorem eq_singleton_of_coalesced (h : Coalesced segs) (hne : segs ≠ [])
    (hall : ∀ s ∈ segs, s.isFree) : segs = [⟨extent segs, none⟩] := by
  match segs, hne, h, hall with
  | [⟨n, none⟩], _, _, _ => rfl
  | [⟨n, some k⟩], _, _, hall => exact absurd (hall _ List.mem_cons_self) (by simp)
  | s :: t :: segs, _, h, hall =>
      have hs := hall s List.mem_cons_self
      have ht := hall t (List.mem_cons_of_mem s List.mem_cons_self)
      obtain hs' | ht' := (List.isChain_cons_cons.mp h).1
      · rw [hs] at hs'
        cases hs'
      · rw [ht] at ht'
        cases ht'

end Embedded
