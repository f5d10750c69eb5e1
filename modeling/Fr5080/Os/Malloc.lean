import Mathlib.Data.Nat.Bitwise
import Fr5080.Os.Heap4

/-!
# Fr5080.Os.Malloc

What `pvPortMalloc` and `vPortFree` do to the blocks of the heap (`Heap4.Inv`):

* `pvPortMalloc_of_firstFit`, `pvPortMalloc_none` — the first free block that is large enough is
  taken, and split where a block remains;
* `vPortFreeMark_eq`, `vPortFreeInsert_eq` — a block that has an owner is given back.
-/

namespace Fr5080

open Embedded

/-! ## the region -/

/-- The first address of the heap, `pucAlignedHeap`. -/
def HeapLayout.lo (l : HeapLayout) : Nat := (l.ucHeap + 7) / 8 * 8

/-- The address of the end marker. -/
def HeapLayout.hi (l : HeapLayout) : Nat := (l.ucHeap + l.totalHeapSize - 8) / 8 * 8

/-- Where the heap is. -/
theorem HeapLayout.bounds (l : HeapLayout) :
    0 < l.lo ∧ l.ucHeap ≤ l.lo ∧ l.lo + 16 ≤ l.hi ∧ l.hi + 8 ≤ l.ucHeap + l.totalHeapSize ∧
      l.hi < 2 ^ 32 ∧ l.hi - l.lo < 2 ^ 31 ∧ 8 ∣ l.lo ∧ 8 ∣ l.hi := by
  have := l.ucHeap_pos
  have := l.size_ge
  have := l.size_lt
  have := l.end_lt
  unfold lo hi
  omega

/-- `xStart` is outside of the heap. -/
theorem HeapLayout.apart (l : HeapLayout) : l.xStart + 8 ≤ l.lo ∨ l.hi + 8 ≤ l.xStart := by
  have := l.bounds
  have := l.xStart_apart
  omega

/-- The heap has nothing at `x`. -/
def HeapLayout.Outside (l : HeapLayout) (x : Nat) : Prop :=
  (x < l.lo ∨ l.hi + 8 ≤ x) ∧ (x < l.xStart ∨ l.xStart + 8 ≤ x)

/-- A number is a multiple of 8 where its three lowest bits are zero. -/
theorem toNat_and_alignmentMask (x : UInt32) : (x &&& portByteAlignmentMask).toNat = x.toNat % 8 := by
  rw [UInt32.toNat_and]
  exact Nat.and_two_pow_sub_one_eq_mod x.toNat 3

/-- The three lowest bits are cleared. -/
theorem toNat_and_not_alignmentMask (x : UInt32) :
    (x &&& ~~~portByteAlignmentMask).toNat = x.toNat / 8 * 8 :=
  toNat_and_highMask (k := 3) (by decide) x

/-- The start of the heap is aligned and its end is kept. -/
theorem prvAlignHeap_eq (l : HeapLayout) :
    (prvAlignHeap (UInt32.ofNat l.ucHeap) (UInt32.ofNat l.totalHeapSize)).1.toNat = l.lo ∧
      ((prvAlignHeap (UInt32.ofNat l.ucHeap) (UInt32.ofNat l.totalHeapSize)).1 +
        (prvAlignHeap (UInt32.ofNat l.ucHeap) (UInt32.ofNat l.totalHeapSize)).2).toNat =
        l.ucHeap + l.totalHeapSize := by
  have hsize := l.size_ge
  have hend := l.end_lt
  have hheap : (UInt32.ofNat l.ucHeap).toNat = l.ucHeap :=
    UInt32.toNat_ofNat_of_lt' (show l.ucHeap < 2 ^ 32 by omega)
  have htotal : (UInt32.ofNat l.totalHeapSize).toNat = l.totalHeapSize :=
    UInt32.toNat_ofNat_of_lt' (show l.totalHeapSize < 2 ^ 32 by omega)
  have hlow := toNat_and_alignmentMask (UInt32.ofNat l.ucHeap)
  rw [hheap] at hlow
  rw [prvAlignHeap]
  split
  · have hup : (UInt32.ofNat l.ucHeap + (portByteAlignment - 1) &&&
        ~~~portByteAlignmentMask).toNat = l.lo := by
      rw [toNat_and_not_alignmentMask, UInt32.toNat_add, hheap, HeapLayout.lo]
      have hseven : (portByteAlignment - 1).toNat = 7 := rfl
      omega
    have hlo := l.bounds
    refine ⟨hup, ?_⟩
    simp only [UInt32.toNat_add, UInt32.toNat_sub, hup, hheap, htotal]
    omega
  · next haligned =>
      have hzero : l.ucHeap % 8 = 0 := by
        rw [← hlow, not_not.mp haligned]
        rfl
      refine ⟨?_, ?_⟩
      · rw [hheap, HeapLayout.lo]
        omega
      · rw [UInt32.toNat_add, hheap, htotal]
        omega

/-! ## the invariant -/

/-- The heap consists of the blocks `segs`. -/
structure Heap4.Inv (l : HeapLayout) (h : Heap4) (segs : List (Segment HeapHolder)) : Prop where
  pxEnd_eq : h.pxEnd = l.hi
  bit_eq : h.xBlockAllocatedBit = 0x80000000
  free_eq : h.xFreeBytesRemaining.toNat = freeBytes segs
  extent_eq : l.lo + extent segs = l.hi
  sizes : BlockSizes segs
  coalesced : Coalesced segs
  start : linkSize h.mem l.xStart = 0
  chained : Chained h.mem l.hi l.xStart l.lo segs
  end_eq : linkNext h.mem l.hi = 0

/-- The heap is set up. -/
theorem Heap4.Inv.pxEnd_ne {l : HeapLayout} {h : Heap4} {segs : List (Segment HeapHolder)}
    (hinv : h.Inv l segs) : h.pxEnd ≠ 0 := by
  have := hinv.pxEnd_eq
  have := l.bounds
  omega

/-- Nothing outside of the heap has been written. -/
def Heap4.Keeps (l : HeapLayout) (h h' : Heap4) : Prop := ∀ x, l.Outside x → h'.mem x = h.mem x

/-- What is written elsewhere does not matter. -/
theorem Heap4.Inv.congr {l : HeapLayout} {h : Heap4} {segs : List (Segment HeapHolder)}
    (hinv : h.Inv l segs) {mem : Nat → UInt8} (hmem : ∀ x, ¬ l.Outside x → mem x = h.mem x) :
    Heap4.Inv l { h with mem := mem } segs := by
  have hextent := hinv.extent_eq
  have hin : ∀ x, l.lo ≤ x → x < l.hi + 8 → mem x = h.mem x := fun x hlo hhi =>
    hmem x fun hx => by
      have := hx.1
      omega
  have hxStart : ∀ x, l.xStart ≤ x → x < l.xStart + 8 → mem x = h.mem x := fun x hlo hhi =>
    hmem x fun hx => by
      have := hx.2
      omega
  refine ⟨hinv.pxEnd_eq, hinv.bit_eq, hinv.free_eq, hextent, hinv.sizes, hinv.coalesced, ?_, ?_,
    ?_⟩
  · rw [linkSize_congr fun i hi => hxStart _ (by omega) (by omega)]
    exact hinv.start
  · exact hinv.chained.congr hinv.sizes (fun x hlo hhi => hxStart x hlo (by omega))
      fun x hlo hhi => hin x hlo (by omega)
  · rw [linkNext_congr fun i hi => hin _ (by have := l.bounds; omega) (by omega)]
    exact hinv.end_eq

/-- `prvHeapInit` makes one free block. -/
theorem prvHeapInit_inv (l : HeapLayout) (h : Heap4) :
    (prvHeapInit l h).Inv l [⟨l.hi - l.lo, none⟩] ∧
      (prvHeapInit l h).xMinimumEverFreeBytesRemaining =
        (prvHeapInit l h).xFreeBytesRemaining ∧ h.Keeps l (prvHeapInit l h) := by
  obtain ⟨hlo, hsum⟩ := prvAlignHeap_eq l
  obtain ⟨hpos, -, hroom, -, hlt, -, hdvd, hdvd'⟩ := l.bounds
  have hapart := l.apart
  rw [prvHeapInit]
  simp only
  generalize prvAlignHeap (UInt32.ofNat l.ucHeap) (UInt32.ofNat l.totalHeapSize) = aligned
    at hlo hsum
  have hhi : ((aligned.1 + aligned.2 - xHeapStructSize) &&& ~~~portByteAlignmentMask).toNat =
      l.hi := by
    have hstruct : xHeapStructSize.toNat = 8 := by decide
    rw [toNat_and_not_alignmentMask, UInt32.toNat_sub, hsum, hstruct, HeapLayout.hi]
    have := l.size_ge
    have := l.end_lt
    omega
  generalize (aligned.1 + aligned.2 - xHeapStructSize) &&& ~~~portByteAlignmentMask = uxAddress
    at hhi
  have hsize : (uxAddress - aligned.1).toNat = l.hi - l.lo := by
    rw [UInt32.toNat_sub, hhi, hlo]
    omega
  rw [hlo, hhi]
  refine ⟨⟨rfl, rfl, ?_, ?_, ?_, ?_, ?_, ⟨?_, ⟨?_, ?_⟩, trivial⟩, ?_⟩, trivial, ?_⟩
  · simpa using hsize
  · simp only [extent_cons, extent_nil]
    omega
  · refine List.forall_mem_singleton.mpr ⟨?_, Nat.dvd_sub hdvd' hdvd⟩
    simp only
    omega
  · exact List.isChain_singleton _
  · rw [linkSize_congr fun i hi => setLinkNext_of_apart (by omega),
      linkSize_congr fun i hi => setLinkSize_of_apart (by omega),
      linkSize_congr fun i hi => setLinkNext_of_apart (by omega),
      linkSize_congr fun i hi => setLinkSize_of_apart (by omega), linkSize_setLinkSize]
  · rw [linkNext_congr fun i hi => setLinkNext_of_apart (by omega),
      linkNext_congr fun i hi => setLinkSize_of_apart (by omega),
      linkNext_congr fun i hi => setLinkNext_of_apart (by omega),
      linkNext_congr fun i hi => setLinkSize_of_apart (by omega), linkNext_setLinkSize]
    exact linkNext_setLinkNext (by omega)
  · rw [linkSize_setLinkNext, linkSize_setLinkSize]
    exact hsize
  · exact linkNext_setLinkNext hlt
  · rw [linkNext_congr fun i hi => setLinkNext_of_apart (by omega),
      linkNext_congr fun i hi => setLinkSize_of_apart (by omega)]
    exact linkNext_setLinkNext (by decide)
  · rintro x ⟨hx, hxStart⟩
    simp only
    rw [setLinkNext_of_apart (by omega), setLinkSize_of_apart (by omega),
      setLinkNext_of_apart (by omega), setLinkSize_of_apart (by omega),
      setLinkSize_of_apart (by omega), setLinkNext_of_apart (by omega)]

/-! ## sizes -/

/-- The size of the block for `n` bytes: with its link, and rounded up. -/
def mallocBlock (n : Nat) : Nat := (n + 15) / 8 * 8

/-- A request of more than nothing becomes a block. -/
theorem toNat_mallocWanted {n : UInt32} (hn : n.toNat < 2 ^ 31) :
    (mallocWanted n).toNat = if n = 0 then 0 else mallocBlock n.toNat := by
  have hstruct : xHeapStructSize.toNat = 8 := by decide
  have halign : portByteAlignment.toNat = 8 := rfl
  have hsum : (n + xHeapStructSize).toNat = n.toNat + 8 := by
    rw [UInt32.toNat_add, hstruct]
    omega
  have hlow := toNat_and_alignmentMask (n + xHeapStructSize)
  rw [hsum] at hlow
  rw [mallocWanted]
  by_cases hzero : n = 0
  · subst hzero
    rfl
  · have hpos : 0 < n := UInt32.pos_iff_ne_zero.mpr hzero
    rw [if_pos hpos, if_neg hzero, mallocBlock]
    simp only
    split
    · next hne =>
        have hne' : (n.toNat + 8) % 8 ≠ 0 := by
          rw [← hlow]
          exact fun h => hne (UInt32.toNat_inj.mp h)
        rw [UInt32.toNat_add, hsum, UInt32.toNat_sub, hlow, halign]
        omega
    · next heq =>
        have heq' : (n.toNat + 8) % 8 = 0 := by
          rw [← hlow, not_not.mp heq]
          rfl
        rw [hsum]
        omega

/-- The top bit is not set. -/
theorem and_allocatedBit_eq_zero_iff (n : UInt32) : n &&& 0x80000000 = 0 ↔ n.toNat < 2 ^ 31 := by
  have hlt := n.toNat_lt
  have hand : (n &&& 0x80000000).toNat = (n.toNat.testBit 31).toNat * 2 ^ 31 := by
    rw [UInt32.toNat_and]
    exact Nat.and_two_pow n.toNat 31
  rw [← UInt32.toNat_inj, hand, Nat.testBit_eq_decide_div_mod_eq]
  by_cases hbit : n.toNat / 2 ^ 31 % 2 = 1
  · simp only [hbit, decide_true, Bool.toNat_true, UInt32.toNat_zero]
    omega
  · simp only [hbit, decide_false, Bool.toNat_false, UInt32.toNat_zero]
    omega

/-- Marking a size adds the highest bit. -/
theorem toNat_or_allocatedBit {n : UInt32} (hn : n.toNat < 2 ^ 31) :
    (n ||| 0x80000000).toNat = n.toNat + 2 ^ 31 := by
  rw [UInt32.toNat_or]
  exact Nat.or_two_pow_eq_add_of_lt hn

/-- The size without the mark. -/
theorem toNat_and_not_allocatedBit (n : UInt32) :
    (n &&& ~~~0x80000000).toNat = n.toNat % 2 ^ 31 := by
  rw [UInt32.toNat_and]
  exact Nat.and_two_pow_sub_one_eq_mod n.toNat 31

/-! ## malloc -/

/-- What a free block of `k` bytes becomes when `w` are wanted: the size of the block that is
taken, and what is behind it. -/
def splitBlock (w k : Nat) (post : List (Segment HeapHolder)) :
    Nat × List (Segment HeapHolder) :=
  if 16 < k - w then (w, joinNext (k - w) post) else (k, post)

section Split

variable {l : HeapLayout} {mem : Nat → UInt8} {tl a k w : Nat}
  {pre post : List (Segment HeapHolder)}

/-- The block that is cut off is as large as wanted, or a little larger; nothing is lost. -/
theorem splitBlock_bounds (hw : w ≤ k) :
    w ≤ (splitBlock w k post).1 ∧ (splitBlock w k post).1 ≤ w + 16 ∧
      (splitBlock w k post).1 + extent (splitBlock w k post).2 = k + extent post ∧
      (splitBlock w k post).1 + freeBytes (splitBlock w k post).2 = k + freeBytes post := by
  rw [splitBlock]
  split
  · simp only [extent_joinNext, freeBytes_joinNext]
    omega
  · exact ⟨hw, by simp only; omega, rfl, rfl⟩

/-- Both parts are blocks. -/
theorem splitBlock_sizes (hw : 16 ≤ w ∧ 8 ∣ w) (hk : 16 ≤ k ∧ 8 ∣ k) (hpost : BlockSizes post) :
    (16 ≤ (splitBlock w k post).1 ∧ 8 ∣ (splitBlock w k post).1) ∧
      BlockSizes (splitBlock w k post).2 := by
  rw [splitBlock]
  split
  · next hgt => exact ⟨hw, blockSizes_joinNext ⟨Nat.le_of_lt hgt, Nat.dvd_sub hk.2 hw.2⟩ hpost⟩
  · exact ⟨hk, hpost⟩

/-- No held block moves. -/
theorem heldPlaced_splitBlock (hw : w ≤ k) :
    heldPlaced (a + (splitBlock w k post).1) (splitBlock w k post).2 =
      heldPlaced (a + k) post := by
  rw [splitBlock]
  split
  · rw [heldPlaced_joinNext, Nat.add_assoc, Nat.add_sub_cancel' hw]
  · rfl

/-- Free blocks stay apart from each other. -/
theorem splitBlock_coalesced (hpost : Coalesced post) : Coalesced (splitBlock w k post).2 := by
  rw [splitBlock]
  split
  · exact coalesced_joinNext hpost
  · exact hpost

/-- The block is split. -/
theorem mallocSplit_eq (h : Insertable l mem tl a pre k post) {wanted : UInt32}
    (hw : 16 ≤ wanted.toNat ∧ 8 ∣ wanted.toNat) (hle : wanted.toNat ≤ k) :
    ∃ mem', mallocSplit l tl (a + extent pre) wanted mem = some mem' ∧
      Relisted l mem tl a (pre ++ ⟨(splitBlock wanted.toNat k post).1, some .marked⟩ ::
        (splitBlock wanted.toNat k post).2) mem' := by
  obtain ⟨hpre, hk, hpost⟩ := h.sizes_split
  obtain ⟨hchained, hsize, hlaid⟩ := h.split
  have htl := h.tl_eq
  have hapart := h.apart
  have hsub : (linkSize mem (a + extent pre) - wanted).toNat = k - wanted.toNat := by
    rw [UInt32.toNat_sub, hsize]
    have := (linkSize mem (a + extent pre)).toNat_lt
    omega
  have hmin : heapMinimumBlockSize.toNat = 16 := by decide
  rw [mallocSplit, splitBlock]
  by_cases hgt : 16 < k - wanted.toNat
  · have hgt' : linkSize mem (a + extent pre) - wanted > heapMinimumBlockSize := by
      rw [gt_iff_lt, UInt32.lt_iff_toNat_lt, hsub, hmin]
      exact hgt
    rw [if_pos hgt', if_pos hgt]
    simp only
    generalize hmem : setLinkSize (a + extent pre) wanted (setLinkSize
      (a + extent pre + wanted.toNat) (linkSize mem (a + extent pre) - wanted) mem) = mem₁
    have hsame : ∀ x, x < a + extent pre ∨ a + extent pre + k ≤ x → mem₁ x = mem x := by
      intro x hx
      rw [← hmem, setLinkSize_of_apart (by omega), setLinkSize_of_apart (by omega)]
    have hfirst : linkSize mem₁ (a + extent pre) = wanted := by
      rw [← hmem, linkSize_setLinkSize]
    have hsecond : (linkSize mem₁ (a + extent pre + wanted.toNat)).toNat = k - wanted.toNat := by
      rw [← hmem, linkSize_congr fun i hi => setLinkSize_of_apart (by omega), linkSize_setLinkSize,
        hsub]
    -- two blocks on their way into the list, of which the second one goes on
    have hinsert : Insertable l mem₁ tl a (pre ++ [⟨wanted.toNat, some .marked⟩])
        (k - wanted.toNat) post := by
      have hext : a + extent pre + wanted.toNat + (k - wanted.toNat) = a + extent pre + k := by omega
      refine ⟨?_, ?_, ?_, hapart, h.pos, ?_, h.tl_lt⟩
      · rw [List.append_assoc]
        refine chained_append.mpr ⟨?_, ?_, ?_, ?_⟩
        · simp only [List.singleton_append, firstFree_cons, Segment.isFree_some,
            if_neg Bool.false_ne_true, hext]
          exact hchained.congr hpre (fun x hlo hhi => hsame x (by omega))
            fun x hlo hhi => hsame x (by omega)
        · exact congrArg UInt32.toNat hfirst
        · exact hsecond
        · simp only [hext]
          exact hlaid.congr hpost fun x hlo hhi => hsame x (by omega)
      · rw [List.append_assoc]
        refine List.forall_mem_append.mpr ⟨hpre, List.forall_mem_cons.mpr ⟨hw, ?_⟩⟩
        exact List.forall_mem_cons.mpr ⟨⟨Nat.le_of_lt hgt, Nat.dvd_sub hk.2 hw.2⟩, hpost⟩
      · rw [linkSize_congr fun i hi => hsame _ (by omega)]
        exact h.start
      · simp only [extent_append, extent_cons, extent_nil]
        omega
    obtain ⟨mem', hmem', hchained', hstart', hrest⟩ := hinsert.insert_eq
    rw [release_concat_held] at hchained'
    have haddr : a + extent (pre ++ [⟨wanted.toNat, some HeapHolder.marked⟩]) =
        a + extent pre + wanted.toNat := by
      simp [Nat.add_assoc]
    rw [haddr] at hmem'
    refine ⟨mem', hmem', hchained', hstart', fun x hx hxStart => ?_⟩
    rw [hrest x hx hxStart, hsame x (by omega)]
  · have hle' : ¬ linkSize mem (a + extent pre) - wanted > heapMinimumBlockSize := by
      rw [gt_iff_lt, UInt32.lt_iff_toNat_lt, hsub, hmin]
      exact hgt
    rw [if_neg hle', if_neg hgt]
    exact ⟨mem, rfl, h.chained, h.start, fun _ _ _ => rfl⟩

end Split

section Malloc

variable {l : HeapLayout} {h : Heap4} {segs pre post : List (Segment HeapHolder)} {k : Nat}

/-- The last free block in front of a place ends before it. -/
theorem Heap4.Inv.lastFree_apart (hinv : h.Inv l (pre ++ post)) :
    lastFree l.xStart l.lo pre = l.xStart ∨
      l.lo ≤ lastFree l.xStart l.lo pre ∧
        lastFree l.xStart l.lo pre + 16 ≤ l.lo + extent pre :=
  lastFree_bounds (List.forall_mem_append.mp hinv.sizes).1

/-- A free block that is taken out of the list is nobody's. -/
theorem Heap4.Inv.unlink (hinv : h.Inv l (pre ++ ⟨k, none⟩ :: post)) :
    Insertable l (setLinkNext (lastFree l.xStart l.lo pre)
      (linkNext h.mem (l.lo + extent pre)) h.mem) l.hi l.lo pre k post := by
  obtain ⟨hpre, hrest⟩ := List.forall_mem_append.mp hinv.sizes
  obtain ⟨hk, hpost⟩ := List.forall_mem_cons.mp hrest
  obtain ⟨hchained, hblock, hlaid⟩ := chained_append.mp hinv.chained
  have hbounds := l.bounds
  have hapart := l.apart
  have hextent := hinv.extent_eq
  simp only [extent_append, extent_cons] at hextent
  simp only at hk hlaid
  have hlast := hinv.lastFree_apart
  have hnext : linkNext h.mem (l.lo + extent pre) =
      firstFree l.hi (l.lo + extent pre + k) post := hblock.2
  have hfirst := firstFree_bounds l.hi (l.lo + extent pre + k) post
  have hretarget := hchained.retarget (q := linkNext h.mem (l.lo + extent pre)) hpre (by omega)
    (by omega)
  refine ⟨chained_append.mpr ⟨?_, ?_, ?_⟩, ?_, ?_, by omega, by omega, by omega, by omega⟩
  · rw [hnext] at hretarget ⊢
    exact hretarget
  · refine Eq.trans (congrArg UInt32.toNat (linkSize_congr fun i hi => ?_)) hblock.1
    exact setLinkNext_of_apart (by omega)
  · refine hlaid.congr hpost fun x hlo hhi => ?_
    exact setLinkNext_of_apart (by omega)
  · exact List.forall_mem_append.mpr ⟨hpre, List.forall_mem_cons.mpr ⟨hk, hpost⟩⟩
  · rw [linkSize_congr fun i hi => setLinkNext_of_apart (by omega)]
    exact hinv.start

/-- A block that is nobody's gets an owner. -/
theorem BlockAt.own {mem : Nat → UInt8} {next a n : Nat}
    (hblock : BlockAt mem next a ⟨n, some .marked⟩) (hn : n < 2 ^ 31) :
    BlockAt (setLinkNext a 0 (setLinkSize a (linkSize mem a ||| 0x80000000) mem)) next a
      ⟨n, some (.live (slice mem (a + 8) (n - 8)))⟩ := by
  have hlink : (linkSize mem a).toNat = n := hblock
  refine ⟨?_, linkNext_setLinkNext (by decide), ?_⟩
  · rw [linkSize_setLinkNext, linkSize_setLinkSize, toNat_or_allocatedBit (by rw [hlink]; exact hn),
      hlink]
  · refine slice_eq_slice_iff.mpr fun i hi => ?_
    rw [setLinkNext_of_apart (by omega), setLinkSize_of_apart (by omega)]

/-- The smaller one. -/
def lowMark (low free : UInt32) : UInt32 := if free < low then free else low

/-- `pvPortMalloc` takes a free block. -/
theorem mallocTake_eq (hinv : h.Inv l (pre ++ ⟨k, none⟩ :: post)) {wanted : UInt32}
    (hw : 16 ≤ wanted.toNat ∧ 8 ∣ wanted.toNat) (hle : wanted.toNat ≤ k) :
    ∃ h' bytes, mallocTake l wanted (lastFree l.xStart l.lo pre) (l.lo + extent pre) h =
        some (l.lo + extent pre + 8, h') ∧
      h'.Inv l (pre ++ ⟨(splitBlock wanted.toNat k post).1, some (.live bytes)⟩ ::
        (splitBlock wanted.toNat k post).2) ∧
      h'.xMinimumEverFreeBytesRemaining =
        lowMark h.xMinimumEverFreeBytesRemaining h'.xFreeBytesRemaining ∧ h.Keeps l h' := by
  obtain ⟨hpre, hrest⟩ := List.forall_mem_append.mp hinv.sizes
  obtain ⟨hk, hpost⟩ := List.forall_mem_cons.mp hrest
  have hinsert := hinv.unlink
  have hbounds := l.bounds
  have hapart := l.apart
  have hextent := hinv.extent_eq
  have hfree := hinv.free_eq
  obtain ⟨hcoalesced, hcoalescedPost⟩ := hinv.coalesced.parts
  simp only [extent_append, extent_cons] at hextent
  simp only [freeBytes_append, freeBytes_cons, Segment.isFree_none, if_true] at hfree
  obtain ⟨hlo, hhi, hext, hfreeBytes⟩ := @splitBlock_bounds k wanted.toNat post hle
  obtain ⟨htaken, hbehind⟩ := splitBlock_sizes hw hk hpost
  have hreturn : linkNext h.mem (lastFree l.xStart l.lo pre) = l.lo + extent pre := by
    rw [(chained_append.mp hinv.chained).1.next_lastFree]
    rfl
  obtain ⟨mem', hsplit, hchained, hstart, hsame⟩ := mallocSplit_eq hinsert hw hle
  obtain ⟨hchained', hblock, hlaid⟩ := chained_append.mp hchained
  have hlast := hinv.lastFree_apart
  have hsize : (linkSize mem' (l.lo + extent pre)).toNat = (splitBlock wanted.toNat k post).1 :=
    hblock
  have hjoined := splitBlock_coalesced (w := wanted.toNat) (k := k) hcoalescedPost
  generalize splitBlock wanted.toNat k post = split at *
  have hown := hblock.own (by omega)
  have hbut := ((SameBut.refl (l.lo + extent pre) mem').setLinkSize
    (n := linkSize mem' (l.lo + extent pre) ||| 0x80000000)).setLinkNext (q := 0)
  have hremaining : (h.xFreeBytesRemaining - linkSize mem' (l.lo + extent pre)).toNat =
      freeBytes pre + freeBytes split.2 := by
    rw [UInt32.toNat_sub, hsize, hfree]
    have := h.xFreeBytesRemaining.toNat_lt
    omega
  rw [mallocTake, hreturn, hinv.pxEnd_eq, hinv.bit_eq, hsplit, Option.map_some]
  refine ⟨_, slice mem' (l.lo + extent pre + 8) (split.1 - 8), rfl,
    ⟨rfl, rfl, ?_, ?_, ?_, ?_, ?_, ?_, ?_⟩, rfl, ?_⟩
  · simpa using hremaining
  · simp only [extent_append, extent_cons]
    omega
  · exact List.forall_mem_append.mpr ⟨hpre, List.forall_mem_cons.mpr ⟨htaken, hbehind⟩⟩
  · exact coalesced_held_iff.mpr ⟨hcoalesced, hjoined⟩
  · rw [hbut.linkSize (by omega)]
    exact hstart
  · refine chained_append.mpr ⟨hchained'.sameBut hpre hbut (by omega) (by omega), hown, ?_⟩
    exact hlaid.sameBut hbehind hbut (by simp only; omega)
  · rw [hbut.linkNext (by omega), ← hinv.end_eq]
    refine linkNext_congr fun i hi => ?_
    rw [hsame _ (by omega) (by omega), setLinkNext_of_apart (by omega)]
  · rintro x ⟨hx, hxStart⟩
    simp only
    rw [hbut x (by omega), hsame x (by omega) (by omega), setLinkNext_of_apart (by omega)]

/-- The first free block that is large enough is taken. -/
theorem pvPortMalloc_of_firstFit (hinv : h.Inv l segs) {n : UInt32} (hn : n ≠ 0)
    (hlt : n.toNat < 2 ^ 31)
    (hfit : firstFit (mallocBlock n.toNat) segs = some (pre, k, post)) :
    ∃ h' bytes, pvPortMalloc l n h = some (l.lo + extent pre + 8, h') ∧
      h'.Inv l (pre ++ ⟨(splitBlock (mallocBlock n.toNat) k post).1, some (.live bytes)⟩ ::
        (splitBlock (mallocBlock n.toNat) k post).2) ∧
      h'.xMinimumEverFreeBytesRemaining =
        lowMark h.xMinimumEverFreeBytesRemaining h'.xFreeBytesRemaining ∧ h.Keeps l h' := by
  obtain ⟨rfl, hle, -⟩ := firstFit_eq_some hfit
  have hbounds := l.bounds
  have hextent := hinv.extent_eq
  have hfree := hinv.free_eq
  have hwanted : (mallocWanted n).toNat = mallocBlock n.toNat := by
    rw [toNat_mallocWanted hlt, if_neg hn]
  have hblock : 16 ≤ mallocBlock n.toNat ∧ 8 ∣ mallocBlock n.toNat := by
    have hpos : n.toNat ≠ 0 := fun hzero => hn (UInt32.toNat_inj.mp hzero)
    unfold mallocBlock
    omega
  simp only [extent_append, extent_cons] at hextent
  simp only [freeBytes_append, freeBytes_cons, Segment.isFree_none, if_true] at hfree
  have hloop := mallocLoop_eq (w := mallocWanted n) hinv.chained hinv.sizes hbounds.1
    (length_lt_heapWalk hinv.sizes (by simp only [extent_append, extent_cons]; omega))
    hinv.extent_eq.symm hinv.end_eq
  rw [hwanted, hfit] at hloop
  have henough : 0 < mallocWanted n ∧ mallocWanted n ≤ h.xFreeBytesRemaining := by
    rw [UInt32.lt_iff_toNat_lt, UInt32.le_iff_toNat_le, hwanted, hfree, UInt32.toNat_zero]
    omega
  have hne : l.lo + extent pre ≠ h.pxEnd := by
    rw [hinv.pxEnd_eq]
    omega
  rw [pvPortMalloc, if_neg hinv.pxEnd_ne, hinv.bit_eq, if_pos ((and_allocatedBit_eq_zero_iff n).mpr hlt), if_pos henough, hloop,
    Option.bind_some]
  simp only
  rw [if_pos hne, ← hwanted]
  exact mallocTake_eq hinv (by rw [hwanted]; exact hblock) (by rw [hwanted]; exact hle)

/-- There is none. -/
theorem pvPortMalloc_none (hinv : h.Inv l segs) {n : UInt32}
    (hnone : n = 0 ∨ 2 ^ 31 ≤ n.toNat ∨ firstFit (mallocBlock n.toNat) segs = none) :
    pvPortMalloc l n h = some (0, h) := by
  have hbounds := l.bounds
  have hextent := hinv.extent_eq
  rw [pvPortMalloc, if_neg hinv.pxEnd_ne, hinv.bit_eq]
  split
  · next hbit =>
      have hlt := (and_allocatedBit_eq_zero_iff n).mp hbit
      simp only
      split
      · next henough =>
          have hn : n ≠ 0 := by
            rintro rfl
            exact absurd henough.1 (by decide)
          obtain hzero | hbig | hfit := hnone
          · exact absurd hzero hn
          · omega
          · have hloop := mallocLoop_eq (w := mallocWanted n) hinv.chained hinv.sizes hbounds.1
              (length_lt_heapWalk hinv.sizes (by omega)) hinv.extent_eq.symm hinv.end_eq
            rw [toNat_mallocWanted hlt, if_neg hn, hfit] at hloop
            rw [hloop, Option.bind_some, if_neg (not_not.mpr hinv.pxEnd_eq.symm)]
      · rfl
  · rfl

/-! ## free -/

/-- The owner of a block gives it back: then it is nobody's. -/
theorem vPortFreeMark_eq {bytes : List UInt8}
    (hinv : h.Inv l (pre ++ ⟨k, some (.live bytes)⟩ :: post)) :
    ∃ h', vPortFreeMark (l.lo + extent pre + 8) h = (some (l.lo + extent pre), h') ∧
      h'.Inv l (pre ++ ⟨k, some .marked⟩ :: post) ∧
      h'.xFreeBytesRemaining = h.xFreeBytesRemaining ∧
      h'.xMinimumEverFreeBytesRemaining = h.xMinimumEverFreeBytesRemaining ∧ h.Keeps l h' := by
  obtain ⟨hpre, hrest⟩ := List.forall_mem_append.mp hinv.sizes
  obtain ⟨hk, hpost⟩ := List.forall_mem_cons.mp hrest
  obtain ⟨hchained, hblock, hlaid⟩ := chained_append.mp hinv.chained
  have hbounds := l.bounds
  have hapart := l.apart
  have hextent := hinv.extent_eq
  have hfree := hinv.free_eq
  simp only [extent_append, extent_cons] at hextent hk hlaid
  have hsize : (linkSize h.mem (l.lo + extent pre)).toNat = k + 2 ^ 31 := hblock.1
  have hnext : linkNext h.mem (l.lo + extent pre) = 0 := hblock.2.1
  have hbit : linkSize h.mem (l.lo + extent pre) &&& 0x80000000 ≠ 0 := by
    intro hzero
    have := (and_allocatedBit_eq_zero_iff _).mp hzero
    omega
  have hbut := (SameBut.refl (l.lo + extent pre) h.mem).setLinkSize
    (n := linkSize h.mem (l.lo + extent pre) &&& ~~~0x80000000)
  have hlink : l.lo + extent pre + 8 - xHeapStructSize.toNat = l.lo + extent pre :=
    Nat.add_sub_cancel _ 8
  rw [vPortFreeMark, if_pos (by omega), hlink, hinv.bit_eq, if_pos hbit, if_pos hnext]
  refine ⟨_, rfl, ⟨hinv.pxEnd_eq, rfl, ?_, ?_, ?_, ?_, ?_, ?_, ?_⟩, rfl, rfl, ?_⟩
  · simpa using hfree
  · simpa using hextent
  · exact List.forall_mem_append.mpr ⟨hpre, List.forall_mem_cons.mpr ⟨hk, hpost⟩⟩
  · exact coalesced_held_iff.mpr (coalesced_held_iff.mp hinv.coalesced)
  · rw [hbut.linkSize (by omega)]
    exact hinv.start
  · refine chained_append.mpr ⟨hchained.sameBut hpre hbut (by omega) (by omega), ?_, ?_⟩
    · change (linkSize (setLinkSize _ _ h.mem) (l.lo + extent pre)).toNat = k
      rw [linkSize_setLinkSize, toNat_and_not_allocatedBit, hsize]
      omega
    · exact hlaid.sameBut hpost hbut (by omega)
  · rw [hbut.linkNext (by omega)]
    exact hinv.end_eq
  · rintro x ⟨hx, hxStart⟩
    exact hbut x (by omega)

/-- It is put into the list. -/
theorem vPortFreeInsert_eq (hinv : h.Inv l (pre ++ ⟨k, some .marked⟩ :: post)) :
    ∃ h', vPortFreeInsert l (l.lo + extent pre) h = some h' ∧ h'.Inv l (release pre k post) ∧
      h'.xMinimumEverFreeBytesRemaining = h.xMinimumEverFreeBytesRemaining ∧ h.Keeps l h' := by
  obtain ⟨hpre, hrest⟩ := List.forall_mem_append.mp hinv.sizes
  obtain ⟨hk, hpost⟩ := List.forall_mem_cons.mp hrest
  have hbounds := l.bounds
  have hapart := l.apart
  have hextent := hinv.extent_eq
  have hfree := hinv.free_eq
  simp only [extent_append, extent_cons] at hextent hk
  simp only [freeBytes_append, freeBytes_cons, Segment.isFree_some, Bool.false_eq_true, if_false]
    at hfree
  have hinsert : Insertable l h.mem l.hi l.lo pre k post :=
    ⟨hinv.chained, hinv.sizes, hinv.start, by omega, by omega, by omega, by omega⟩
  obtain ⟨-, hsize, -⟩ := hinsert.split
  obtain ⟨mem', hmem', hchained, hstart, hsame⟩ := hinsert.insert_eq
  obtain ⟨hcoalesced, hcoalescedPost⟩ := coalesced_held_iff.mp hinv.coalesced
  have hle : freeBytes pre + freeBytes post ≤ extent pre + extent post :=
    Nat.add_le_add freeBytes_le_extent freeBytes_le_extent
  rw [vPortFreeInsert, hinv.pxEnd_eq, hmem', Option.map_some]
  refine ⟨_, rfl, ⟨rfl, hinv.bit_eq, ?_, ?_, ?_, ?_, hstart, hchained, ?_⟩, rfl, ?_⟩
  · simp only [freeBytes_release]
    rw [UInt32.toNat_add, hsize, hfree]
    omega
  · rw [extent_release]
    omega
  · exact blockSizes_release hpre hk hpost
  · exact coalesced_release hcoalesced hcoalescedPost
  · rw [← hinv.end_eq]
    exact linkNext_congr fun i hi => hsame _ (by omega) (by omega)
  · rintro x ⟨hx, hxStart⟩
    exact hsame x (by omega) hxStart

/-! ## the owner -/

/-- A byte of a block in use is written. -/
theorem BlockAt.write {mem : Nat → UInt8} {next a i : Nat} {bytes : List UInt8}
    (hblock : BlockAt mem next a ⟨k, some (.live bytes)⟩) (b : UInt8) :
    BlockAt (store mem (a + 8 + i) [b]) next a ⟨k, some (.live (bytes.set i b))⟩ := by
  have hbeside : ∀ x, x ≠ a + 8 + i → store mem (a + 8 + i) [b] x = mem x := fun x hx =>
    store_of_not_mem _ _ _ _ (by rw [List.length_singleton]; omega)
  obtain ⟨hsize, hnext, hbytes⟩ := hblock
  refine ⟨?_, ?_, ?_⟩
  · rw [linkSize_congr fun j hj => hbeside _ (by omega)]
    exact hsize
  · rw [linkNext_congr fun j hj => hbeside _ (by omega)]
    exact hnext
  · simp only at hbytes ⊢
    rw [← hbytes]
    refine List.ext_getElem (by simp) fun j hj hj' => ?_
    rw [getElem_slice, List.getElem_set, getElem_slice]
    split
    · next heq =>
        subst heq
        exact store_add mem (a + 8 + i) [b] 0 (by simp)
    · next hne => exact hbeside _ (by omega)

/-- The owner of a block writes to it. -/
theorem Heap4.Inv.write {bytes : List UInt8} {i : Nat}
    (hinv : h.Inv l (pre ++ ⟨k, some (.live bytes)⟩ :: post)) (hi : i + 8 < k) (b : UInt8) :
    Heap4.Inv l { h with mem := store h.mem (l.lo + extent pre + 8 + i) [b] }
      (pre ++ ⟨k, some (.live (bytes.set i b))⟩ :: post) ∧
    h.Keeps l { h with mem := store h.mem (l.lo + extent pre + 8 + i) [b] } := by
  obtain ⟨hpre, hrest⟩ := List.forall_mem_append.mp hinv.sizes
  obtain ⟨hk, hpost⟩ := List.forall_mem_cons.mp hrest
  obtain ⟨hchained, hblock, hlaid⟩ := chained_append.mp hinv.chained
  have hbounds := l.bounds
  have hapart := l.apart
  have hextent := hinv.extent_eq
  have hfree := hinv.free_eq
  simp only [extent_append, extent_cons] at hextent
  simp only at hlaid
  have hbeside : ∀ x, x < l.lo + extent pre ∨ l.lo + extent pre + k ≤ x →
      store h.mem (l.lo + extent pre + 8 + i) [b] x = h.mem x := fun x hx =>
    store_of_not_mem _ _ _ _ (by rw [List.length_singleton]; omega)
  refine ⟨⟨hinv.pxEnd_eq, hinv.bit_eq, ?_, ?_, ?_, ?_, ?_, ?_, ?_⟩, ?_⟩
  · simpa using hfree
  · simpa using hextent
  · exact List.forall_mem_append.mpr ⟨hpre, List.forall_mem_cons.mpr ⟨hk, hpost⟩⟩
  · exact coalesced_held_iff.mpr (coalesced_held_iff.mp hinv.coalesced)
  · rw [linkSize_congr fun j hj => hbeside _ (by omega)]
    exact hinv.start
  · refine chained_append.mpr ⟨?_, hblock.write b, ?_⟩
    · exact hchained.congr hpre (fun x hlo hhi => hbeside x (by omega))
        fun x hlo hhi => hbeside x (by omega)
    · exact hlaid.congr hpost fun x hlo hhi => hbeside x (by omega)
  · rw [linkNext_congr fun j hj => hbeside _ (by omega)]
    exact hinv.end_eq
  · rintro x ⟨hx, hxStart⟩
    exact hbeside x (by omega)

end Malloc

end Fr5080
