import Fr5080.Embedded.Run
import Fr5080.Os.Malloc

/-!
# Fr5080.Os.HeapRun

The heap in use: tasks and interrupts allocate, write to their blocks and free them, in any
order, and a `vPortFree` may be interrupted between its two steps.

`HeapSys` says beside the heap what its users know: the blocks that they have, with what they
have written.  `HeapSys.Inv` ties that to the blocks in memory; from it, for every run:

* `heap_run_safe` — the walks end, and no block is given to two owners or changed by another;
* `pvPortMalloc_eq_null_iff` — `NULL` is returned only where there is no room;
* `heap_run_free`, `heap_run_minimum` — what `xPortGetFreeHeapSize` and
  `xPortGetMinimumEverFreeHeapSize` return.
-/

namespace Fr5080

open Embedded

/-! ## the system -/

/-- The heap and what is known outside of it: the blocks that are held, each with the address of
its link, and the memory beside the heap. -/
structure HeapSys where
  heap : Heap4
  held : List (Nat × Segment HeapHolder)
  beside : Nat → UInt8

/-- What happens, one step each. -/
inductive HeapEvent
  /-- `pvPortMalloc`. -/
  | malloc (xWantedSize : UInt32)
  /-- `vPortFree` up to the point where it masks interrupts. -/
  | freeMark (pv : Nat)
  /-- The rest of it. -/
  | freeInsert (pxLink : Nat)
  /-- The owner of the block at `pv` writes to it. -/
  | write (pv i : Nat) (b : UInt8)
  /-- Something is written that is not in the heap. -/
  | elsewhere (x : Nat) (b : UInt8)

/-- The block at the link, for its owner. -/
def ownedBlock (mem : Nat → UInt8) (pxLink : Nat) : Nat × Segment HeapHolder :=
  let size := (linkSize mem pxLink).toNat - 2 ^ 31
  (pxLink, ⟨size, some (.live (slice mem (pxLink + 8) (size - 8)))⟩)

/-- The block is on its way back. -/
def markBlock (pv : Nat) (p : Nat × Segment HeapHolder) : Nat × Segment HeapHolder :=
  if p.1 + 8 = pv then (p.1, ⟨p.2.size, some .marked⟩) else p

/-- What its owner has written to the block. -/
def writeBlock (pv i : Nat) (b : UInt8) (p : Nat × Segment HeapHolder) :
    Nat × Segment HeapHolder :=
  if p.1 + 8 = pv then
    match p.2.holder with
    | some (.live bytes) => (p.1, ⟨p.2.size, some (.live (bytes.set i b))⟩)
    | _ => p
  else p

/-- One step. -/
def heapStep (l : HeapLayout) (s : HeapSys) : HeapEvent → Option HeapSys
  | .malloc xWantedSize =>
      (pvPortMalloc l xWantedSize s.heap).map fun (pv, heap) =>
        if pv ≠ 0 then { s with heap := heap, held := ownedBlock heap.mem (pv - 8) :: s.held }
        else { s with heap := heap }
  | .freeMark pv =>
      some { s with heap := (vPortFreeMark pv s.heap).2, held := s.held.map (markBlock pv) }
  | .freeInsert pxLink =>
      (vPortFreeInsert l pxLink s.heap).map fun heap =>
        { s with heap := heap, held := s.held.filter fun p => p.1 ≠ pxLink }
  | .write pv i b =>
      some { s with
        heap := { s.heap with mem := store s.heap.mem (pv + i) [b] }
        held := s.held.map (writeBlock pv i b) }
  | .elsewhere x b =>
      some { s with
        heap := { s.heap with mem := store s.heap.mem x [b] }
        beside := store s.beside x [b] }

/-- A user has the block at `pv`. -/
def HeapSys.Live (s : HeapSys) (pv : Nat) : Prop :=
  ∃ p ∈ s.held, p.1 + 8 = pv ∧ ∃ bytes, p.2.holder = some (.live bytes)

/-- What the users of the heap may do: free a block that they have, or `NULL`, and write to
it. -/
def HeapSys.Allowed (l : HeapLayout) (s : HeapSys) : HeapEvent → Prop
  | .malloc _ => True
  | .freeMark pv => pv = 0 ∨ s.Live pv
  | .freeInsert pxLink => ∃ p ∈ s.held, p.1 = pxLink ∧ p.2.holder = some .marked
  | .write pv i _ => ∃ p ∈ s.held, p.1 + 8 = pv ∧ i + 8 < p.2.size ∧
      ∃ bytes, p.2.holder = some (.live bytes)
  | .elsewhere x _ => l.Outside x

instance decidableLive : (holder : Option HeapHolder) →
    Decidable (∃ bytes, holder = some (.live bytes))
  | some (.live bytes) => .isTrue ⟨bytes, rfl⟩
  | some .marked => .isFalse fun h => by simp at h
  | none => .isFalse fun h => by simp at h

instance (s : HeapSys) (pv : Nat) : Decidable (s.Live pv) :=
  inferInstanceAs (Decidable (∃ p ∈ s.held, p.1 + 8 = pv ∧ ∃ _, p.2.holder = _))

instance (l : HeapLayout) (s : HeapSys) (e : HeapEvent) : Decidable (s.Allowed l e) :=
  match e with
  | .malloc _ => .isTrue trivial
  | .freeMark pv => inferInstanceAs (Decidable (pv = 0 ∨ s.Live pv))
  | .freeInsert _ => inferInstanceAs (Decidable (∃ p ∈ s.held, _ ∧ _))
  | .write _ _ _ => inferInstanceAs (Decidable (∃ p ∈ s.held, _ ∧ _ ∧ ∃ _, p.2.holder = _))
  | .elsewhere _ _ => inferInstanceAs (Decidable ((_ ∨ _) ∧ (_ ∨ _)))

/-- At start-up: the heap is not yet set up. -/
def heapStart (mem : Nat → UInt8) : HeapSys := ⟨⟨mem, 0, 0, 0, 0⟩, [], mem⟩

/-! ## the invariant -/

/-- What the users know of the heap is so: it is not set up, and nobody has a block, or its
blocks are those that are held. -/
structure HeapSys.Inv (l : HeapLayout) (s : HeapSys) : Prop where
  blocks : (s.heap.pxEnd = 0 ∧ s.held = []) ∨
    ∃ segs, s.heap.Inv l segs ∧ s.held.Perm (heldPlaced l.lo segs)
  beside : ∀ x, l.Outside x → s.heap.mem x = s.beside x
  lowest : s.heap.pxEnd ≠ 0 → s.heap.xMinimumEverFreeBytesRemaining.toNat ≤
    s.heap.xFreeBytesRemaining.toNat

/-- The blocks are inside of the heap and aligned, they do not overlap, what their owners have
written is in them, and the memory beside the heap is what it was. -/
structure HeapSys.Safe (l : HeapLayout) (s : HeapSys) : Prop where
  inside : ∀ p ∈ s.held, l.lo ≤ p.1 ∧ p.1 + p.2.size ≤ l.hi ∧ 8 ∣ p.1 ∧ 16 ≤ p.2.size
  apart : s.held.Pairwise fun p q => p.1 + p.2.size ≤ q.1 ∨ q.1 + q.2.size ≤ p.1
  contents : ∀ p ∈ s.held, ∀ bytes, p.2.holder = some (.live bytes) →
    slice s.heap.mem (p.1 + 8) (p.2.size - 8) = bytes
  beside : ∀ x, l.Outside x → s.heap.mem x = s.beside x

variable {l : HeapLayout} {h h' : Heap4} {s s' t : HeapSys}
  {segs pre post : List (Segment HeapHolder)} {p : Nat × Segment HeapHolder} {k n : Nat}

/-- Blocks of aligned sizes keep what is behind them aligned. -/
theorem dvd_extent (hsizes : BlockSizes segs) : 8 ∣ extent segs := by
  induction segs with
  | nil => exact Nat.dvd_zero 8
  | cons s segs ih =>
      obtain ⟨hs, hsegs⟩ := List.forall_mem_cons.mp hsizes
      exact Nat.dvd_add hs.2 (ih hsegs)

/-- No block is empty. -/
theorem BlockSizes.pos (hsizes : BlockSizes segs) : ∀ s ∈ segs, 0 < s.size := fun s hs => by
  have := (hsizes s hs).1
  omega

/-- A block that is held. -/
theorem Heap4.Inv.held_split (hinv : h.Inv l segs) (hp : p ∈ heldPlaced l.lo segs) :
    ∃ pre k post, segs = pre ++ ⟨p.2.size, some k⟩ :: post ∧ p.2.holder = some k ∧
      p.1 = l.lo + extent pre ∧ BlockSizes pre ∧ (16 ≤ p.2.size ∧ 8 ∣ p.2.size) := by
  obtain ⟨pre, k, post, rfl, hholder, haddr⟩ := mem_heldPlaced_split hp
  obtain ⟨hpre, hrest⟩ := List.forall_mem_append.mp hinv.sizes
  exact ⟨pre, k, post, rfl, hholder, haddr, hpre, (List.forall_mem_cons.mp hrest).1⟩

/-- The invariant is enough for the users. -/
theorem HeapSys.Inv.safe (hinv : s.Inv l) : s.Safe l := by
  obtain ⟨⟨-, hnone⟩ | ⟨segs, hheap, hperm⟩, hbeside, -⟩ := hinv
  · exact ⟨by simp [hnone], by simp [hnone], by simp [hnone], hbeside⟩
  · have hbounds := l.bounds
    refine ⟨fun p hp => ?_, ?_, fun p hp bytes hlive => ?_, hbeside⟩
    · have hp' := hperm.mem_iff.mp hp
      obtain ⟨pre, k, post, rfl, -, haddr, hpre, hsize⟩ := hheap.held_split hp'
      have hin := bounds_of_mem_placed (mem_heldPlaced_iff.mp hp').1
      rw [hheap.extent_eq] at hin
      refine ⟨hin.1, hin.2, ?_, hsize.1⟩
      rw [haddr]
      exact Nat.dvd_add hbounds.2.2.2.2.2.2.1 (dvd_extent hpre)
    · refine (hperm.pairwise_iff fun h => h.symm).mpr (heldPlaced_pairwise.imp Or.inl)
    · obtain ⟨pre, k, post, rfl, hk, haddr, -⟩ := hheap.held_split (hperm.mem_iff.mp hp)
      obtain ⟨-, hblock, -⟩ := chained_append.mp hheap.chained
      cases hlive.symm.trans hk
      rw [haddr]
      exact hblock.2.2

/-! ## steps -/

/-- How the numbers of free bytes change: the minimum is set up with the free bytes, and then it
is kept. -/
def Heap4.Counts (h h' : Heap4) : Prop :=
  (h.pxEnd = 0 → h'.pxEnd ≠ 0 →
    h'.xMinimumEverFreeBytesRemaining.toNat = h'.xFreeBytesRemaining.toNat) ∧
  (h.pxEnd ≠ 0 → h'.pxEnd ≠ 0 ∧ h'.xMinimumEverFreeBytesRemaining.toNat =
    min h.xMinimumEverFreeBytesRemaining.toNat h'.xFreeBytesRemaining.toNat)

/-- The minimum is one. -/
theorem Heap4.Counts.lowest (hcounts : h.Counts h') (hset : h'.pxEnd ≠ 0) :
    h'.xMinimumEverFreeBytesRemaining.toNat ≤ h'.xFreeBytesRemaining.toNat := by
  by_cases hend : h.pxEnd = 0
  · exact Nat.le_of_eq (hcounts.1 hend hset)
  · rw [(hcounts.2 hend).2]
    exact Nat.min_le_right _ _

/-- More bytes are free than before, or as many. -/
theorem HeapSys.Inv.counts_of_le (hinv : s.Inv l) (hend : h'.pxEnd = s.heap.pxEnd)
    (hfree : s.heap.xFreeBytesRemaining.toNat ≤ h'.xFreeBytesRemaining.toNat)
    (hminimum : h'.xMinimumEverFreeBytesRemaining = s.heap.xMinimumEverFreeBytesRemaining) :
    s.heap.Counts h' := by
  rw [Heap4.Counts, hend, hminimum]
  refine ⟨fun hzero hset => absurd hzero hset, fun hset => ⟨hset, ?_⟩⟩
  have := hinv.lowest hset
  omega

/-- The invariant after a step that counts. -/
theorem HeapSys.Inv.of_counts (hblocks : (s'.heap.pxEnd = 0 ∧ s'.held = []) ∨
      ∃ segs, s'.heap.Inv l segs ∧ s'.held.Perm (heldPlaced l.lo segs))
    (hbeside : ∀ x, l.Outside x → s'.heap.mem x = s'.beside x)
    (hcounts : s.heap.Counts s'.heap) : s'.Inv l ∧ s.heap.Counts s'.heap :=
  ⟨⟨hblocks, hbeside, hcounts.lowest⟩, hcounts⟩

/-- The heap, set up where it is not. -/
def Heap4.ready (l : HeapLayout) (h : Heap4) : Heap4 := if h.pxEnd = 0 then prvHeapInit l h else h

/-- `pvPortMalloc` sets the heap up before anything else. -/
theorem pvPortMalloc_ready (n : UInt32) : pvPortMalloc l n (h.ready l) = pvPortMalloc l n h := by
  by_cases hend : h.pxEnd = 0
  · have hne := (prvHeapInit_inv l h).1.pxEnd_ne
    rw [pvPortMalloc, pvPortMalloc, Heap4.ready, if_pos hend, if_neg hne]
  · rw [Heap4.ready, if_neg hend]

/-- The heap that `pvPortMalloc` works on. -/
theorem HeapSys.Inv.ready (hinv : s.Inv l) :
    ∃ segs, (s.heap.ready l).Inv l segs ∧ s.held.Perm (heldPlaced l.lo segs) ∧
      s.heap.Keeps l (s.heap.ready l) ∧ s.heap.Counts (s.heap.ready l) := by
  obtain ⟨hend, hnone⟩ | ⟨segs, hheap, hperm⟩ := hinv.blocks
  · obtain ⟨hinit, hminimum, hkeeps⟩ := prvHeapInit_inv l s.heap
    rw [Heap4.ready, if_pos hend]
    refine ⟨_, hinit, by rw [hnone]; exact List.Perm.refl _, hkeeps, fun _ _ => ?_,
      fun hset => absurd hend hset⟩
    rw [hminimum]
  · rw [Heap4.ready, if_neg hheap.pxEnd_ne]
    exact ⟨segs, hheap, hperm, fun _ _ => rfl, hinv.counts_of_le rfl (Nat.le_refl _) rfl⟩

/-- The block as the memory has it. -/
theorem Heap4.Inv.ownedBlock_eq {bytes : List UInt8}
    (hinv : h.Inv l (pre ++ ⟨k, some (.live bytes)⟩ :: post)) :
    ownedBlock h.mem (l.lo + extent pre) =
      (l.lo + extent pre, ⟨k, some (.live bytes)⟩) := by
  obtain ⟨-, hblock, -⟩ := chained_append.mp hinv.chained
  have hsize : (linkSize h.mem (l.lo + extent pre)).toNat - 2 ^ 31 = k := by
    have : (linkSize h.mem (l.lo + extent pre)).toNat = k + 2 ^ 31 := hblock.1
    omega
  rw [ownedBlock, hsize, show slice h.mem (l.lo + extent pre + 8) (k - 8) = bytes from
    hblock.2.2]

/-- What `pvPortMalloc` does where it returns a pointer: the link of the new block is at `a`. -/
structure Heap4.Hands (l : HeapLayout) (h h' : Heap4) (segs segs' : List (Segment HeapHolder))
    (xWantedSize : UInt32) (a : Nat) : Prop where
  inv : h'.Inv l segs'
  held : (heldPlaced l.lo segs').Perm (ownedBlock h'.mem a :: heldPlaced l.lo segs)
  large : mallocBlock xWantedSize.toNat ≤ (ownedBlock h'.mem a).2.size ∧
    (ownedBlock h'.mem a).2.size ≤ mallocBlock xWantedSize.toNat + 16
  minimum : h'.xMinimumEverFreeBytesRemaining =
    lowMark h.xMinimumEverFreeBytesRemaining h'.xFreeBytesRemaining
  keeps : h.Keeps l h'

/-- There is no free block that is large enough, or the size is not one that can be asked for. -/
def NoRoom (segs : List (Segment HeapHolder)) (xWantedSize : UInt32) : Prop :=
  xWantedSize = 0 ∨ 2 ^ 31 ≤ xWantedSize.toNat ∨
    firstFit (mallocBlock xWantedSize.toNat) segs = none

/-- The two things that `pvPortMalloc` may do. -/
theorem Heap4.Inv.malloc_cases (hinv : h.Inv l segs) (xWantedSize : UInt32) :
    (NoRoom segs xWantedSize ∧ pvPortMalloc l xWantedSize h = some (0, h)) ∨
      (¬ NoRoom segs xWantedSize ∧ ∃ a h' segs',
        pvPortMalloc l xWantedSize h = some (a + 8, h') ∧ h.Hands l h' segs segs' xWantedSize a) := by
  by_cases hroom : NoRoom segs xWantedSize
  · exact Or.inl ⟨hroom, pvPortMalloc_none hinv hroom⟩
  · refine Or.inr ⟨hroom, ?_⟩
    simp only [NoRoom, not_or] at hroom
    obtain ⟨hn, hlt, hfit⟩ := hroom
    obtain ⟨⟨pre, k, post⟩, hfit⟩ := Option.ne_none_iff_exists'.mp hfit
    obtain ⟨h', bytes, hmalloc, hinv', hminimum, hkeeps⟩ :=
      pvPortMalloc_of_firstFit hinv hn (Nat.not_le.mp hlt) hfit
    obtain ⟨rfl, hle, -⟩ := firstFit_eq_some hfit
    obtain ⟨hlarge, hsmall, -⟩ := @splitBlock_bounds k _ post hle
    refine ⟨l.lo + extent pre, h', _, hmalloc, hinv', ?_, ?_, hminimum, hkeeps⟩
    · rw [hinv'.ownedBlock_eq]
      simp only [heldPlaced_append, heldPlaced_held, heldPlaced_free, heldPlaced_splitBlock hle]
      exact List.perm_middle
    · rw [hinv'.ownedBlock_eq]
      exact ⟨hlarge, hsmall⟩

/-- The minimum so far. -/
theorem toNat_lowMark (low free : UInt32) :
    (lowMark low free).toNat = min low.toNat free.toNat := by
  rw [lowMark]
  split
  · next hlt =>
      have := UInt32.lt_iff_toNat_lt.mp hlt
      omega
  · next hge =>
      have := mt UInt32.lt_iff_toNat_lt.mpr hge
      omega

/-- A block that is handed out is no longer free. -/
theorem Heap4.Hands.free_le {segs' : List (Segment HeapHolder)} {xWantedSize : UInt32} {a : Nat}
    (hhands : h.Hands l h' segs segs' xWantedSize a) (hinv : h.Inv l segs) :
    h'.xFreeBytesRemaining.toNat ≤ h.xFreeBytesRemaining.toNat := by
  have hsum := (hhands.held.map fun p => p.2.size).sum_nat
  have hfree := @freeBytes_add_held _ segs l.lo
  have hfree' := @freeBytes_add_held _ segs' l.lo
  have hextent := hinv.extent_eq
  have hextent' := hhands.inv.extent_eq
  rw [List.map_cons, List.sum_cons] at hsum
  rw [hinv.free_eq, hhands.inv.free_eq]
  omega

/-- `pvPortMalloc` returns, with a block or without. -/
theorem HeapSys.Inv.malloc (hinv : s.Inv l) (xWantedSize : UInt32) :
    ∃ s', heapStep l s (.malloc xWantedSize) = some s' ∧ s'.Inv l ∧ s.heap.Counts s'.heap := by
  obtain ⟨segs, hheap, hperm, hkeeps, hcounts⟩ := hinv.ready
  obtain ⟨-, hmalloc⟩ | ⟨-, a, h', segs', hmalloc, hhands⟩ := hheap.malloc_cases xWantedSize
  · rw [pvPortMalloc_ready] at hmalloc
    rw [heapStep, hmalloc]
    refine ⟨_, rfl, HeapSys.Inv.of_counts (Or.inr ⟨segs, hheap, hperm⟩) (fun x hx => ?_) hcounts⟩
    exact (hkeeps x hx).trans (hinv.beside x hx)
  · rw [pvPortMalloc_ready] at hmalloc
    rw [heapStep, hmalloc, Option.map_some]
    simp only
    rw [if_pos (Nat.succ_ne_zero _), Nat.add_sub_cancel]
    have hset := hheap.pxEnd_ne
    have hset' := hhands.inv.pxEnd_ne
    have hle := hhands.free_le hheap
    have hminimum : h'.xMinimumEverFreeBytesRemaining.toNat =
        min (s.heap.ready l).xMinimumEverFreeBytesRemaining.toNat h'.xFreeBytesRemaining.toNat := by
      rw [hhands.minimum, toNat_lowMark]
    refine ⟨_, rfl, HeapSys.Inv.of_counts (Or.inr ⟨segs', hhands.inv, ?_⟩) (fun x hx => ?_)
      ⟨fun hend _ => ?_, fun hend => ⟨hset', ?_⟩⟩⟩
    · exact (hperm.cons _).trans hhands.held.symm
    · exact ((hhands.keeps x hx).trans (hkeeps x hx)).trans (hinv.beside x hx)
    · have := hcounts.1 hend hset
      simp only
      omega
    · have := (hcounts.2 hend).2
      simp only
      omega

/-- A block that a user has. -/
theorem HeapSys.Inv.held_split (hinv : s.Inv l) (hp : p ∈ s.held) :
    ∃ pre k post, s.heap.Inv l (pre ++ ⟨p.2.size, some k⟩ :: post) ∧ p.2.holder = some k ∧
      s.held.Perm (heldPlaced l.lo (pre ++ ⟨p.2.size, some k⟩ :: post)) ∧
      p.1 = l.lo + extent pre ∧ BlockSizes pre ∧ 0 < p.2.size := by
  obtain ⟨⟨-, hnone⟩ | ⟨segs, hheap, hperm⟩, -⟩ := hinv
  · rw [hnone] at hp
    cases hp
  · obtain ⟨pre, k, post, rfl, hholder, haddr, hpre, hsize⟩ :=
      hheap.held_split (hperm.mem_iff.mp hp)
    exact ⟨pre, k, post, hheap, hholder, hperm, haddr, hpre, by omega⟩

/-- The other blocks keep their owners. -/
theorem markBlock_of_ne {a : Nat} (hne : p.1 ≠ a) : markBlock (a + 8) p = p :=
  if_neg fun heq => hne (Nat.add_right_cancel heq)

/-- The other blocks keep what is in them. -/
theorem writeBlock_of_ne {a i : Nat} {b : UInt8} (hne : p.1 ≠ a) :
    writeBlock (a + 8) i b p = p := if_neg fun heq => hne (Nat.add_right_cancel heq)

/-- The first half of `vPortFree`, for a block of the caller or `NULL`. -/
theorem HeapSys.Inv.freeMark (hinv : s.Inv l) {pv : Nat} (hallowed : s.Allowed l (.freeMark pv)) :
    ∃ s', heapStep l s (.freeMark pv) = some s' ∧ s'.Inv l ∧ s.heap.Counts s'.heap := by
  rw [heapStep]
  refine ⟨_, rfl, ?_⟩
  obtain rfl | ⟨p, hp, rfl, bytes, hlive⟩ := hallowed
  · have hself : s.held.map (markBlock 0) = s.held :=
      (List.map_congr_left fun p _ => if_neg (Nat.succ_ne_zero _)).trans (List.map_id _)
    rw [hself]
    exact ⟨hinv, hinv.counts_of_le rfl (Nat.le_refl _) rfl⟩
  · obtain ⟨pre, k, post, hheap, hholder, hperm, haddr, hpre, hsize⟩ := hinv.held_split hp
    cases hlive.symm.trans hholder
    obtain ⟨h', hmark, hheap', hfree, hminimum, hkeeps⟩ := vPortFreeMark_eq hheap
    rw [haddr, hmark]
    refine HeapSys.Inv.of_counts (Or.inr ⟨_, hheap', ?_⟩)
      (fun x hx => (hkeeps x hx).trans (hinv.beside x hx))
      (hinv.counts_of_le (hheap'.pxEnd_eq.trans hheap.pxEnd_eq.symm) (by rw [hfree]) hminimum)
    refine (hperm.map _).trans (List.Perm.of_eq ?_)
    rw [map_heldPlaced hpre.pos hsize fun q => markBlock_of_ne, heldPlaced_append,
      heldPlaced_held, markBlock, if_pos rfl]

/-- The second half of `vPortFree`, for a block that is marked. -/
theorem HeapSys.Inv.freeInsert (hinv : s.Inv l) {pxLink : Nat}
    (hallowed : s.Allowed l (.freeInsert pxLink)) :
    ∃ s', heapStep l s (.freeInsert pxLink) = some s' ∧ s'.Inv l ∧ s.heap.Counts s'.heap := by
  obtain ⟨p, hp, rfl, hmarked⟩ := hallowed
  obtain ⟨pre, k, post, hheap, hholder, hperm, haddr, hpre, hsize⟩ := hinv.held_split hp
  cases hmarked.symm.trans hholder
  obtain ⟨h', hinsert, hheap', hminimum, hkeeps⟩ := vPortFreeInsert_eq hheap
  have hfree : s.heap.xFreeBytesRemaining.toNat ≤ h'.xFreeBytesRemaining.toNat := by
    rw [hheap.free_eq, hheap'.free_eq, freeBytes_release, freeBytes_append, freeBytes_cons]
    simp only [Segment.isFree_some, Bool.false_eq_true, if_false]
    omega
  rw [heapStep, haddr, hinsert]
  refine ⟨_, rfl, HeapSys.Inv.of_counts (Or.inr ⟨_, hheap', ?_⟩)
    (fun x hx => (hkeeps x hx).trans (hinv.beside x hx))
    (hinv.counts_of_le (hheap'.pxEnd_eq.trans hheap.pxEnd_eq.symm) hfree hminimum)⟩
  refine (hperm.filter _).trans (List.Perm.of_eq ?_)
  rw [filter_heldPlaced hpre.pos hsize, heldPlaced_release]

/-- An owner writes into its block. -/
theorem HeapSys.Inv.write (hinv : s.Inv l) {pv i : Nat} {b : UInt8}
    (hallowed : s.Allowed l (.write pv i b)) :
    ∃ s', heapStep l s (.write pv i b) = some s' ∧ s'.Inv l ∧ s.heap.Counts s'.heap := by
  obtain ⟨p, hp, rfl, hi, bytes, hlive⟩ := hallowed
  obtain ⟨pre, k, post, hheap, hholder, hperm, haddr, hpre, hsize⟩ := hinv.held_split hp
  cases hlive.symm.trans hholder
  obtain ⟨hheap', hkeeps⟩ := hheap.write hi b
  rw [heapStep, haddr]
  refine ⟨_, rfl, HeapSys.Inv.of_counts (Or.inr ⟨_, hheap', ?_⟩)
    (fun x hx => (hkeeps x hx).trans (hinv.beside x hx))
    (hinv.counts_of_le rfl (Nat.le_refl _) rfl)⟩
  refine (hperm.map _).trans (List.Perm.of_eq ?_)
  rw [map_heldPlaced hpre.pos hsize fun q => writeBlock_of_ne, heldPlaced_append,
    heldPlaced_held, writeBlock, if_pos rfl]

/-- A write beside the heap. -/
theorem HeapSys.Inv.elsewhere (hinv : s.Inv l) {x : Nat} {b : UInt8} (hx : l.Outside x) :
    ∃ s', heapStep l s (.elsewhere x b) = some s' ∧ s'.Inv l ∧ s.heap.Counts s'.heap := by
  have hsame : ∀ mem : Nat → UInt8, ∀ y, y ≠ x → store mem x [b] y = mem y := fun mem y hy =>
    store_of_not_mem _ _ _ _ (by rw [List.length_singleton]; omega)
  have hself : ∀ mem : Nat → UInt8, store mem x [b] x = b := fun mem =>
    store_add mem x [b] 0 (by simp)
  refine ⟨_, rfl, HeapSys.Inv.of_counts ?_ (fun y hy => ?_)
    (hinv.counts_of_le rfl (Nat.le_refl _) rfl)⟩
  · obtain hstart | ⟨segs, hheap, hperm⟩ := hinv.blocks
    · exact Or.inl hstart
    · refine Or.inr ⟨segs, hheap.congr fun y hy => hsame _ y ?_, hperm⟩
      rintro rfl
      exact hy hx
  · by_cases hyx : y = x
    · subst hyx
      exact (hself _).trans (hself _).symm
    · simp only
      rw [hsame _ y hyx, hsame _ y hyx]
      exact hinv.beside y hy

/-- What is allowed is possible. -/
theorem HeapSys.Inv.step (hinv : s.Inv l) {e : HeapEvent} (hallowed : s.Allowed l e) :
    ∃ s', heapStep l s e = some s' ∧ s'.Inv l ∧ s.heap.Counts s'.heap := by
  cases e with
  | malloc xWantedSize => exact hinv.malloc xWantedSize
  | freeMark pv => exact hinv.freeMark hallowed
  | freeInsert pxLink => exact hinv.freeInsert hallowed
  | write pv i b => exact hinv.write hallowed
  | elsewhere x b => exact hinv.elsewhere hallowed

/-- At start-up nobody has a block. -/
theorem heapStart_inv (l : HeapLayout) (mem : Nat → UInt8) : (heapStart mem).Inv l :=
  ⟨Or.inl ⟨rfl, rfl⟩, fun _ _ => rfl, fun hset => absurd rfl hset⟩

/-- There is no room exactly where no bytes in a row are nobody's. -/
theorem noRoom_iff {held : List (Nat × Segment HeapHolder)} (hinv : h.Inv l segs)
    (hperm : held.Perm (heldPlaced l.lo segs)) (xWantedSize : UInt32) :
    NoRoom segs xWantedSize ↔ xWantedSize = 0 ∨ 2 ^ 31 ≤ xWantedSize.toNat ∨
      ∀ b, l.lo ≤ b → b + mallocBlock xWantedSize.toNat ≤ l.hi →
        ∃ p ∈ held, p.1 < b + mallocBlock xWantedSize.toNat ∧ b < p.1 + p.2.size := by
  have hextent := hinv.extent_eq
  have hpos : 0 < mallocBlock xWantedSize.toNat := by
    unfold mallocBlock
    omega
  refine or_congr Iff.rfl (or_congr Iff.rfl ⟨fun hnone b hlo hhi => ?_, fun hall => ?_⟩)
  · by_contra hnot
    push Not at hnot
    obtain ⟨s, hs, hfree, hle⟩ := exists_free_of_gap hinv.coalesced hinv.sizes.pos hpos hlo
      (by rwa [hextent]) fun p hp hheld => by
        have := hnot p (hperm.mem_iff.mpr (mem_heldPlaced_iff.mpr ⟨hp, hheld⟩))
        omega
    exact absurd hle (Nat.not_le.mpr (firstFit_eq_none_iff.mp hnone s hs hfree))
  · by_contra hsome
    obtain ⟨⟨pre, k, post⟩, hfit⟩ := Option.ne_none_iff_exists'.mp hsome
    obtain ⟨rfl, hle, -⟩ := firstFit_eq_some hfit
    simp only [extent_append, extent_cons] at hextent
    obtain ⟨p, hp, hbefore, hbehind⟩ := hall (l.lo + extent pre) (by omega) (by omega)
    have hp := hperm.mem_iff.mp hp
    rw [heldPlaced_append, heldPlaced_free] at hp
    obtain hp | hp := List.mem_append.mp hp
    · have := bounds_of_mem_placed (mem_heldPlaced_iff.mp hp).1
      omega
    · have := bounds_of_mem_placed (mem_heldPlaced_iff.mp hp).1
      omega

/-! ## runs -/

section Runs

variable {mem : Nat → UInt8} {es : List HeapEvent}

/-- The invariant holds in every run. -/
theorem heap_run_inv (hallowed : Along (heapStep l) (HeapSys.Allowed l) (heapStart mem) es) :
    ∃ t, run (heapStep l) (heapStart mem) es = some t ∧ t.Inv l :=
  run_total_of_along (fun _ _ hs hC => (hs.step hC).imp fun _ h => ⟨h.1, h.2.1⟩)
    (heapStart_inv l mem) hallowed

/-- **Safety**: whatever the users do in whatever order, no walk through the list of free blocks
goes astray, the blocks that they have lie apart, aligned and inside of the heap, and only their
owners change what is in them. -/
theorem heap_run_safe (hallowed : Along (heapStep l) (HeapSys.Allowed l) (heapStart mem) es) :
    ∃ t, run (heapStep l) (heapStart mem) es = some t ∧ t.Safe l := by
  obtain ⟨t, hrun, hinv⟩ := heap_run_inv hallowed
  exact ⟨t, hrun, hinv.safe⟩

/-- Two blocks of which one is on its way back while the other is handed out. -/
def heapExample : List HeapEvent :=
  [.malloc 24, .write 0x208 3 7, .freeMark 0x208, .malloc 16, .freeInsert 0x200, .malloc 8,
    .elsewhere 0x10 1]

/-- A heap of 64 bytes. -/
def heapExampleLayout : HeapLayout :=
  ⟨0x100, 0x200, 64, by decide, by decide, by decide, by decide, by decide⟩

/-- Its users keep the rules. -/
theorem heapExample_allowed : Along (heapStep heapExampleLayout)
    (HeapSys.Allowed heapExampleLayout) (heapStart fun _ => 0) heapExample := by
  decide +kernel

/-- The run sets the heap up. -/
theorem heapExample_run :
    ∃ t, run (heapStep heapExampleLayout) (heapStart fun _ => 0) heapExample = some t ∧
      t.heap.pxEnd ≠ 0 := by
  have hset : (run (heapStep heapExampleLayout) (heapStart fun _ => 0) heapExample).all
      (fun t => t.heap.pxEnd ≠ 0) = true := by decide +kernel
  obtain ⟨t, hrun, -⟩ := heap_run_inv heapExample_allowed
  rw [hrun] at hset
  exact ⟨t, hrun, of_decide_eq_true hset⟩

/-- The run is safe. -/
theorem heapExample_safe :
    ∃ t, run (heapStep heapExampleLayout) (heapStart fun _ => 0) heapExample = some t ∧
      t.Safe heapExampleLayout :=
  heap_run_safe heapExample_allowed

/-- **No room**: `pvPortMalloc` returns `NULL` exactly where the size is zero or has its top bit
set, or a block of that size, with its link and rounded up, has no place between the blocks that
are held.  Else the block is one of its own, and at most 16 bytes too large. -/
theorem pvPortMalloc_eq_null_iff
    (hallowed : Along (heapStep l) (HeapSys.Allowed l) (heapStart mem) es)
    (hrun : run (heapStep l) (heapStart mem) es = some t) (xWantedSize : UInt32) :
    ∃ pv h', pvPortMalloc l xWantedSize t.heap = some (pv, h') ∧
      (pv = 0 ↔ xWantedSize = 0 ∨ 2 ^ 31 ≤ xWantedSize.toNat ∨
        ∀ b, l.lo ≤ b → b + mallocBlock xWantedSize.toNat ≤ l.hi →
          ∃ p ∈ t.held, p.1 < b + mallocBlock xWantedSize.toNat ∧ b < p.1 + p.2.size) ∧
      (pv ≠ 0 → mallocBlock xWantedSize.toNat ≤ (ownedBlock h'.mem (pv - 8)).2.size ∧
        (ownedBlock h'.mem (pv - 8)).2.size ≤ mallocBlock xWantedSize.toNat + 16) := by
  obtain ⟨t', hrun', hinv⟩ := heap_run_inv hallowed
  cases hrun.symm.trans hrun'
  obtain ⟨segs, hheap, hperm, -, -⟩ := hinv.ready
  have hgap := noRoom_iff hheap hperm xWantedSize
  obtain ⟨hroom, hmalloc⟩ | ⟨hroom, a, h', segs', hmalloc, hhands⟩ :=
    hheap.malloc_cases xWantedSize
  · rw [pvPortMalloc_ready] at hmalloc
    exact ⟨_, _, hmalloc, iff_of_true rfl (hgap.mp hroom), fun hne => absurd rfl hne⟩
  · rw [pvPortMalloc_ready] at hmalloc
    refine ⟨_, _, hmalloc, ?_, fun _ => hhands.large⟩
    exact iff_of_false (Nat.succ_ne_zero _) fun h => hroom (hgap.mpr h)

/-- Asking for 8 bytes behind the run. -/
theorem heapExample_malloc :
    ∃ t, run (heapStep heapExampleLayout) (heapStart fun _ => 0) heapExample = some t ∧
      ∃ pv h', pvPortMalloc heapExampleLayout 8 t.heap = some (pv, h') ∧
        (pv = 0 ↔ (8 : UInt32) = 0 ∨ 2 ^ 31 ≤ (8 : UInt32).toNat ∨
          ∀ b, 0x200 ≤ b → b + 16 ≤ 0x238 →
            ∃ p ∈ t.held, p.1 < b + 16 ∧ b < p.1 + p.2.size) ∧
        (pv ≠ 0 → 16 ≤ (ownedBlock h'.mem (pv - 8)).2.size ∧
          (ownedBlock h'.mem (pv - 8)).2.size ≤ 16 + 16) := by
  obtain ⟨t, hrun, -⟩ := heapExample_run
  exact ⟨t, hrun, pvPortMalloc_eq_null_iff heapExample_allowed hrun 8⟩

/-- **What is free**: the bytes that nobody has, blocks that are on their way back being
counted as held; and where nobody has a block, the heap is one block. -/
theorem heap_run_free (hallowed : Along (heapStep l) (HeapSys.Allowed l) (heapStart mem) es)
    (hrun : run (heapStep l) (heapStart mem) es = some t) (hset : t.heap.pxEnd ≠ 0) :
    (xPortGetFreeHeapSize t.heap).toNat + (t.held.map fun p => p.2.size).sum = l.hi - l.lo ∧
      (t.held = [] → linkNext t.heap.mem l.xStart = l.lo ∧
        (linkSize t.heap.mem l.lo).toNat = l.hi - l.lo ∧
        linkNext t.heap.mem l.lo = l.hi) := by
  obtain ⟨t', hrun', hinv⟩ := heap_run_inv hallowed
  cases hrun.symm.trans hrun'
  obtain ⟨hstart, -⟩ | ⟨segs, hheap, hperm⟩ := hinv.blocks
  · exact absurd hstart hset
  · have hextent := hheap.extent_eq
    have hbounds := l.bounds
    refine ⟨?_, fun hnone => ?_⟩
    · rw [xPortGetFreeHeapSize, hheap.free_eq, (hperm.map _).sum_nat,
        freeBytes_add_held]
      omega
    · rw [hnone] at hperm
      have hfree := forall_isFree_of_heldPlaced hperm.nil_eq.symm
      have hone := eq_singleton_of_coalesced hheap.coalesced (by rintro rfl; simp at hextent; omega)
        hfree
      have hchained := hheap.chained
      rw [hone] at hchained
      obtain ⟨hnext, hblock, -⟩ := hchained
      have hsize : (linkSize t.heap.mem l.lo).toNat = extent segs := hblock.1
      exact ⟨hnext, by omega, hblock.2⟩

/-- What is free behind the run. -/
theorem heapExample_free :
    ∃ t, run (heapStep heapExampleLayout) (heapStart fun _ => 0) heapExample = some t ∧
      (xPortGetFreeHeapSize t.heap).toNat + (t.held.map fun p => p.2.size).sum = 0x38 ∧
      (t.held = [] → linkNext t.heap.mem 0x100 = 0x200 ∧
        (linkSize t.heap.mem 0x200).toNat = 0x38 ∧ linkNext t.heap.mem 0x200 = 0x238) := by
  obtain ⟨t, hrun, hset⟩ := heapExample_run
  exact ⟨t, hrun, heap_run_free heapExample_allowed hrun hset⟩

/-- **The minimum**: once the heap is set up, `xPortGetMinimumEverFreeHeapSize` returns the
smallest value that `xPortGetFreeHeapSize` has had. -/
theorem heap_run_minimum (hallowed : Along (heapStep l) (HeapSys.Allowed l) (heapStart mem) es)
    (hrun : run (heapStep l) (heapStart mem) es = some t) (hset : t.heap.pxEnd ≠ 0) :
    (∀ es1 t1, es1 <+: es → run (heapStep l) (heapStart mem) es1 = some t1 →
      t1.heap.pxEnd ≠ 0 →
        xPortGetMinimumEverFreeHeapSize t.heap ≤ xPortGetFreeHeapSize t1.heap) ∧
    ∃ es1 t1, es1 <+: es ∧ run (heapStep l) (heapStart mem) es1 = some t1 ∧
      t1.heap.pxEnd ≠ 0 ∧
        xPortGetFreeHeapSize t1.heap = xPortGetMinimumEverFreeHeapSize t.heap := by
  obtain ⟨hall, hsome⟩ := run_lowest (C := HeapSys.Allowed l) (I := HeapSys.Inv l)
    (R := fun s => s.heap.pxEnd ≠ 0) (f := fun s => s.heap.xFreeBytesRemaining.toNat)
    (g := fun s => s.heap.xMinimumEverFreeBytesRemaining.toNat)
    (fun s e s' hs hC hstep => by
      obtain ⟨s'', hstep', hs', -⟩ := hs.step hC
      cases hstep.symm.trans hstep'
      exact hs')
    (fun s e s' hs hC hstep hend hset => by
      obtain ⟨s'', hstep', -, hcounts⟩ := hs.step hC
      cases hstep.symm.trans hstep'
      exact hcounts.1 (not_not.mp hend) hset)
    (fun s e s' hs hC hstep hset => by
      obtain ⟨s'', hstep', -, hcounts⟩ := hs.step hC
      cases hstep.symm.trans hstep'
      exact hcounts.2 hset)
    (heapStart_inv l mem) (not_not.mpr rfl) hallowed hrun
  refine ⟨fun es1 t1 hpre h1 hset1 => UInt32.le_iff_toNat_le.mpr (hall es1 t1 hpre h1 hset1).2, ?_⟩
  obtain ⟨es1, t1, hpre, h1, hset1, heq⟩ := hsome hset
  exact ⟨es1, t1, hpre, h1, hset1, UInt32.toNat_inj.mp heq⟩

/-- The minimum of the run. -/
theorem heapExample_minimum :
    ∃ t, run (heapStep heapExampleLayout) (heapStart fun _ => 0) heapExample = some t ∧
      (∀ es1 t1, es1 <+: heapExample →
        run (heapStep heapExampleLayout) (heapStart fun _ => 0) es1 = some t1 →
        t1.heap.pxEnd ≠ 0 →
          xPortGetMinimumEverFreeHeapSize t.heap ≤ xPortGetFreeHeapSize t1.heap) ∧
      ∃ es1 t1, es1 <+: heapExample ∧
        run (heapStep heapExampleLayout) (heapStart fun _ => 0) es1 = some t1 ∧
        t1.heap.pxEnd ≠ 0 ∧
          xPortGetFreeHeapSize t1.heap = xPortGetMinimumEverFreeHeapSize t.heap := by
  obtain ⟨t, hrun, hset⟩ := heapExample_run
  exact ⟨t, hrun, heap_run_minimum heapExample_allowed hrun hset⟩

end Runs

end Fr5080
