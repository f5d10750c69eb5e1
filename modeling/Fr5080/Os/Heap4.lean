import Fr5080.Embedded.Segments
import Fr5080.Embedded.Word

/-!
# Fr5080.Os.Heap4

The heap (`heap_4.c`, the same text in all projects): blocks that are known by a
link in front of them, `BlockLink_t`, and a list of the free ones in the order of
their addresses.

The links stand in the memory that is handed out, so the memory is one of bytes.  A
pointer is an address, `NULL` is 0.  The loops walk the list of free blocks for as long
as there are addresses; a walk that has not ended by then never ends (`none`).

`pvPortMalloc` masks interrupts as a whole, `vPortFree` only while it puts the block into
the list, so it is two steps: before the second one the block is nobody's.
-/

namespace Fr5080

open Embedded

/-! ## links -/

/-- `p->pxNextFreeBlock`. -/
def linkNext (mem : Nat → UInt8) (p : Nat) : Nat := (word32 mem p).toNat

/-- `p->xBlockSize`. -/
def linkSize (mem : Nat → UInt8) (p : Nat) : UInt32 := word32 mem (p + 4)

/-- `p->pxNextFreeBlock = q`. -/
def setLinkNext (p q : Nat) (mem : Nat → UInt8) : Nat → UInt8 :=
  store mem p (bytes32 (UInt32.ofNat q))

/-- `p->xBlockSize = n`. -/
def setLinkSize (p : Nat) (n : UInt32) (mem : Nat → UInt8) : Nat → UInt8 :=
  store mem (p + 4) (bytes32 n)

/-! ## the code -/

/-- Where the linker has put the heap: the addresses of `xStart` and of the array `ucHeap`, and
`configTOTAL_HEAP_SIZE`. -/
structure HeapLayout where
  xStart : Nat
  ucHeap : Nat
  totalHeapSize : Nat
  ucHeap_pos : 0 < ucHeap
  size_ge : 64 ≤ totalHeapSize
  size_lt : totalHeapSize < 2 ^ 31
  end_lt : ucHeap + totalHeapSize < 2 ^ 32
  xStart_apart : xStart + 8 ≤ ucHeap ∨ ucHeap + totalHeapSize ≤ xStart

/-- `portBYTE_ALIGNMENT`. -/
def portByteAlignment : UInt32 := 8

/-- `portBYTE_ALIGNMENT_MASK`. -/
def portByteAlignmentMask : UInt32 := 0x0007

/-- `xHeapStructSize`, where `sizeof( BlockLink_t )` is 8. -/
def xHeapStructSize : UInt32 := (8 + (portByteAlignment - 1)) &&& ~~~portByteAlignmentMask

/-- `heapMINIMUM_BLOCK_SIZE`. -/
def heapMinimumBlockSize : UInt32 := xHeapStructSize <<< 1

/-- The memory and the variables of the heap but `xStart`, which stands in the memory. -/
structure Heap4 where
  mem : Nat → UInt8
  pxEnd : Nat
  xFreeBytesRemaining : UInt32
  xMinimumEverFreeBytesRemaining : UInt32
  xBlockAllocatedBit : UInt32

/-- The length of a walk that does not end. -/
def heapWalk : Nat := 0x100000000

/-- `pucAlignedHeap` and what is left of the size. -/
def prvAlignHeap (ucHeap totalHeapSize : UInt32) : UInt32 × UInt32 :=
  if ucHeap &&& portByteAlignmentMask ≠ 0 then
    let uxAddress := (ucHeap + (portByteAlignment - 1)) &&& ~~~portByteAlignmentMask
    (uxAddress, totalHeapSize - (uxAddress - ucHeap))
  else (ucHeap, totalHeapSize)

/-- `prvHeapInit`. -/
def prvHeapInit (l : HeapLayout) (h : Heap4) : Heap4 :=
  let aligned := prvAlignHeap (UInt32.ofNat l.ucHeap) (UInt32.ofNat l.totalHeapSize)
  let pucAlignedHeap := aligned.1
  let uxAddress := (pucAlignedHeap + aligned.2 - xHeapStructSize) &&& ~~~portByteAlignmentMask
  let size := uxAddress - pucAlignedHeap
  { mem :=
      setLinkNext pucAlignedHeap.toNat uxAddress.toNat <|
      setLinkSize pucAlignedHeap.toNat size <|
      setLinkNext uxAddress.toNat 0 <| setLinkSize uxAddress.toNat 0 <|
      setLinkSize l.xStart 0 <| setLinkNext l.xStart pucAlignedHeap.toNat h.mem
    pxEnd := uxAddress.toNat
    xFreeBytesRemaining := size
    xMinimumEverFreeBytesRemaining := size
    xBlockAllocatedBit := (1 : UInt32) <<< (4 * 8 - 1) }

/-- The loop of `prvInsertBlockIntoFreeList`, from `pxIterator` on. -/
def prvInsertLoop (mem : Nat → UInt8) (pxBlockToInsert : Nat) : Nat → Nat → Option Nat
  | 0, _ => none
  | n + 1, pxIterator =>
      if linkNext mem pxIterator < pxBlockToInsert then
        prvInsertLoop mem pxBlockToInsert n (linkNext mem pxIterator)
      else some pxIterator

/-- The first half behind the loop: `pxBlockToInsert`, once it is joined with the block before
it. -/
def prvJoinBefore (pxIterator pxBlockToInsert : Nat) (mem : Nat → UInt8) :
    Nat × (Nat → UInt8) :=
  if pxIterator + (linkSize mem pxIterator).toNat = pxBlockToInsert then
    (pxIterator,
      setLinkSize pxIterator (linkSize mem pxIterator + linkSize mem pxBlockToInsert) mem)
  else (pxBlockToInsert, mem)

/-- The second half: the block is joined with the one behind it. -/
def prvJoinAfter (pxEnd pxIterator pxBlockToInsert : Nat) (mem : Nat → UInt8) : Nat → UInt8 :=
  let next := linkNext mem pxIterator
  if pxBlockToInsert + (linkSize mem pxBlockToInsert).toNat = next then
    if next ≠ pxEnd then
      let mem :=
        setLinkSize pxBlockToInsert (linkSize mem pxBlockToInsert + linkSize mem next) mem
      setLinkNext pxBlockToInsert (linkNext mem (linkNext mem pxIterator)) mem
    else setLinkNext pxBlockToInsert pxEnd mem
  else setLinkNext pxBlockToInsert next mem

/-- `prvInsertBlockIntoFreeList`. -/
def prvInsertBlockIntoFreeList (l : HeapLayout) (pxEnd pxBlockToInsert : Nat)
    (mem : Nat → UInt8) : Option (Nat → UInt8) :=
  (prvInsertLoop mem pxBlockToInsert heapWalk l.xStart).map fun pxIterator =>
    let (pxBlockToInsert, mem) := prvJoinBefore pxIterator pxBlockToInsert mem
    let mem := prvJoinAfter pxEnd pxIterator pxBlockToInsert mem
    if pxIterator ≠ pxBlockToInsert then setLinkNext pxIterator pxBlockToInsert mem else mem

/-- `xWantedSize` with the link, rounded up. -/
def mallocWanted (xWantedSize : UInt32) : UInt32 :=
  if 0 < xWantedSize then
    let xWantedSize := xWantedSize + xHeapStructSize
    if xWantedSize &&& portByteAlignmentMask ≠ 0 then
      xWantedSize + (portByteAlignment - (xWantedSize &&& portByteAlignmentMask))
    else xWantedSize
  else xWantedSize

/-- The loop of `pvPortMalloc`: `pxPreviousBlock` and `pxBlock`. -/
def mallocLoop (mem : Nat → UInt8) (xWantedSize : UInt32) : Nat → Nat → Nat → Option (Nat × Nat)
  | 0, _, _ => none
  | n + 1, pxPreviousBlock, pxBlock =>
      if linkSize mem pxBlock < xWantedSize ∧ linkNext mem pxBlock ≠ 0 then
        mallocLoop mem xWantedSize n pxBlock (linkNext mem pxBlock)
      else some (pxPreviousBlock, pxBlock)

/-- The block is split into two where it is larger than required. -/
def mallocSplit (l : HeapLayout) (pxEnd pxBlock : Nat) (xWantedSize : UInt32)
    (mem : Nat → UInt8) : Option (Nat → UInt8) :=
  if linkSize mem pxBlock - xWantedSize > heapMinimumBlockSize then
    let pxNewBlockLink := pxBlock + xWantedSize.toNat
    let mem := setLinkSize pxNewBlockLink (linkSize mem pxBlock - xWantedSize) mem
    prvInsertBlockIntoFreeList l pxEnd pxNewBlockLink (setLinkSize pxBlock xWantedSize mem)
  else some mem

/-- The block that the loop has found is taken out of the list. -/
def mallocTake (l : HeapLayout) (xWantedSize : UInt32) (pxPreviousBlock pxBlock : Nat)
    (h : Heap4) : Option (Nat × Heap4) :=
  let pvReturn := linkNext h.mem pxPreviousBlock + xHeapStructSize.toNat
  let mem := setLinkNext pxPreviousBlock (linkNext h.mem pxBlock) h.mem
  (mallocSplit l h.pxEnd pxBlock xWantedSize mem).map fun mem =>
    let size := linkSize mem pxBlock
    let free := h.xFreeBytesRemaining - size
    (pvReturn,
      { h with
        mem := setLinkNext pxBlock 0 (setLinkSize pxBlock (size ||| h.xBlockAllocatedBit) mem)
        xFreeBytesRemaining := free
        xMinimumEverFreeBytesRemaining :=
          if free < h.xMinimumEverFreeBytesRemaining then free
          else h.xMinimumEverFreeBytesRemaining })

/-- `pvPortMalloc`. -/
def pvPortMalloc (l : HeapLayout) (xWantedSize : UInt32) (h : Heap4) : Option (Nat × Heap4) :=
  let h := if h.pxEnd = 0 then prvHeapInit l h else h
  if xWantedSize &&& h.xBlockAllocatedBit = 0 then
    let xWantedSize := mallocWanted xWantedSize
    if 0 < xWantedSize ∧ xWantedSize ≤ h.xFreeBytesRemaining then
      (mallocLoop h.mem xWantedSize heapWalk l.xStart (linkNext h.mem l.xStart)).bind
        fun (pxPreviousBlock, pxBlock) =>
          if pxBlock ≠ h.pxEnd then mallocTake l xWantedSize pxPreviousBlock pxBlock h
          else some (0, h)
    else some (0, h)
  else some (0, h)

/-- `vPortFree` up to the point where it masks interrupts: `pxLink` where it goes on. -/
def vPortFreeMark (pv : Nat) (h : Heap4) : Option Nat × Heap4 :=
  if pv ≠ 0 then
    let pxLink := pv - xHeapStructSize.toNat
    if linkSize h.mem pxLink &&& h.xBlockAllocatedBit ≠ 0 then
      if linkNext h.mem pxLink = 0 then
        (some pxLink,
          { h with
            mem := setLinkSize pxLink (linkSize h.mem pxLink &&& ~~~h.xBlockAllocatedBit) h.mem })
      else (none, h)
    else (none, h)
  else (none, h)

/-- `vPortFree` with interrupts masked. -/
def vPortFreeInsert (l : HeapLayout) (pxLink : Nat) (h : Heap4) : Option Heap4 :=
  (prvInsertBlockIntoFreeList l h.pxEnd pxLink h.mem).map fun mem =>
    { h with
      mem := mem, xFreeBytesRemaining := h.xFreeBytesRemaining + linkSize h.mem pxLink }

/-- `xPortGetFreeHeapSize`. -/
def xPortGetFreeHeapSize (h : Heap4) : UInt32 := h.xFreeBytesRemaining

/-- `xPortGetMinimumEverFreeHeapSize`. -/
def xPortGetMinimumEverFreeHeapSize (h : Heap4) : UInt32 := h.xMinimumEverFreeBytesRemaining

/-! ## reading what was written -/

section Links

variable {mem mem' : Nat → UInt8} {p q : Nat} {n : UInt32}

theorem linkNext_congr (h : ∀ i < 4, mem' (p + i) = mem (p + i)) :
    linkNext mem' p = linkNext mem p := by
  rw [linkNext, linkNext, word32_congr h]

theorem linkSize_congr (h : ∀ i < 4, mem' (p + 4 + i) = mem (p + 4 + i)) :
    linkSize mem' p = linkSize mem p := by
  rw [linkSize, linkSize, word32_congr h]

theorem setLinkNext_of_apart {x : Nat} (h : x < p ∨ p + 4 ≤ x) : setLinkNext p q mem x = mem x :=
  store_of_not_mem _ _ _ _ (by rwa [length_bytes32])

theorem setLinkSize_of_apart {x : Nat} (h : x < p + 4 ∨ p + 8 ≤ x) :
    setLinkSize p n mem x = mem x :=
  store_of_not_mem _ _ _ _ (by rwa [length_bytes32])

/-- A word that was stored is read. -/
theorem word32_store (mem : Nat → UInt8) (p : Nat) (n : UInt32) :
    word32 (store mem p (bytes32 n)) p = n := by
  have h := word32_store_bytes32 mem p [] [] n
  rwa [List.nil_append, List.append_nil, List.length_nil, Nat.add_zero] at h

@[simp] theorem linkSize_setLinkSize : linkSize (setLinkSize p n mem) p = n :=
  word32_store mem (p + 4) n

theorem linkNext_setLinkNext (hq : q < 2 ^ 32) : linkNext (setLinkNext p q mem) p = q := by
  rw [linkNext, setLinkNext, word32_store]
  exact UInt32.toNat_ofNat_of_lt' hq

@[simp] theorem linkSize_setLinkNext : linkSize (setLinkNext p q mem) p = linkSize mem p :=
  linkSize_congr fun _ _ => setLinkNext_of_apart (by omega)

@[simp] theorem linkNext_setLinkSize : linkNext (setLinkSize p n mem) p = linkNext mem p :=
  linkNext_congr fun _ _ => setLinkSize_of_apart (by omega)

end Links

/-! ## the blocks in memory -/

/-- Who has a block that is not free: the owner, with what stands in it, or nobody, while it is
on its way into the list. -/
inductive HeapHolder
  | live (bytes : List UInt8)
  | marked
deriving DecidableEq

/-- The memory at `a` is the block; `next` is the next free block. -/
def BlockAt (mem : Nat → UInt8) (next a : Nat) (s : Segment HeapHolder) : Prop :=
  match s.holder with
  | none => (linkSize mem a).toNat = s.size ∧ linkNext mem a = next
  | some (.live bytes) =>
      (linkSize mem a).toNat = s.size + 2 ^ 31 ∧ linkNext mem a = 0 ∧
        slice mem (a + 8) (s.size - 8) = bytes
  | some .marked => (linkSize mem a).toNat = s.size

/-- The memory from `a` on is the blocks; the free block behind them is `tl`. -/
def Laid (mem : Nat → UInt8) (tl : Nat) : Nat → List (Segment HeapHolder) → Prop
  | _, [] => True
  | a, s :: segs => BlockAt mem (firstFree tl (a + s.size) segs) a s ∧ Laid mem tl (a + s.size) segs

/-- The list of free blocks starts with the link `d`. -/
def Chained (mem : Nat → UInt8) (tl d a : Nat) (segs : List (Segment HeapHolder)) : Prop :=
  linkNext mem d = firstFree tl a segs ∧ Laid mem tl a segs

/-- The size of a block. -/
abbrev BlockSizes (segs : List (Segment HeapHolder)) : Prop :=
  ∀ s ∈ segs, 16 ≤ s.size ∧ 8 ∣ s.size

variable {mem mem' : Nat → UInt8} {segs pre post : List (Segment HeapHolder)}
  {s : Segment HeapHolder} {tl d a next : Nat}

theorem BlockAt.congr (h : BlockAt mem next a s) (hsize : 8 ≤ s.size)
    (hmem : ∀ x, a ≤ x → x < a + s.size → mem' x = mem x) : BlockAt mem' next a s := by
  have hlinkSize : linkSize mem' a = linkSize mem a :=
    linkSize_congr fun i hi => hmem _ (by omega) (by omega)
  have hlinkNext : linkNext mem' a = linkNext mem a :=
    linkNext_congr fun i hi => hmem _ (by omega) (by omega)
  have hbytes : slice mem' (a + 8) (s.size - 8) = slice mem (a + 8) (s.size - 8) :=
    slice_eq_slice_iff.mpr fun i hi => hmem _ (by omega) (by omega)
  unfold BlockAt at h ⊢
  rw [hlinkSize, hlinkNext, hbytes]
  exact h

/-- A block that is held does not tell where the free ones are. -/
theorem BlockAt.next_irrel (h : BlockAt mem next a s) (hheld : s.isFree = false) (next' : Nat) :
    BlockAt mem next' a s := by
  obtain ⟨n, _ | _ | _⟩ := s
  · cases hheld
  · exact h
  · exact h

theorem Laid.congr (h : Laid mem tl a segs) (hsizes : BlockSizes segs)
    (hmem : ∀ x, a ≤ x → x < a + extent segs → mem' x = mem x) : Laid mem' tl a segs := by
  induction segs generalizing a with
  | nil => trivial
  | cons s segs ih =>
      obtain ⟨hs, hsegs⟩ := List.forall_mem_cons.mp hsizes
      rw [extent_cons] at hmem
      exact ⟨h.1.congr (by omega) fun x hlo hhi => hmem x hlo (by omega),
        ih h.2 hsegs fun x hlo hhi => hmem x (by omega) (by omega)⟩

/-- Blocks behind others. -/
theorem laid_append :
    Laid mem tl a (pre ++ post) ↔
      Laid mem (firstFree tl (a + extent pre) post) a pre ∧ Laid mem tl (a + extent pre) post := by
  induction pre generalizing a with
  | nil => simp [Laid]
  | cons s pre ih =>
      simp only [List.cons_append, Laid, ih, firstFree_append, extent_cons, Nat.add_assoc, and_assoc]

/-- Blocks behind others, and the pointer to the first free one. -/
theorem chained_append :
    Chained mem tl d a (pre ++ post) ↔
      Chained mem (firstFree tl (a + extent pre) post) d a pre ∧
        Laid mem tl (a + extent pre) post := by
  rw [Chained, Chained, laid_append, firstFree_append, and_assoc]

theorem Chained.congr (h : Chained mem tl d a segs) (hsizes : BlockSizes segs)
    (hd : ∀ x, d ≤ x → x < d + 4 → mem' x = mem x)
    (hmem : ∀ x, a ≤ x → x < a + extent segs → mem' x = mem x) : Chained mem' tl d a segs := by
  refine ⟨?_, h.2.congr hsizes hmem⟩
  rw [← h.1]
  exact linkNext_congr fun i hi => hd _ (by omega) (by omega)

/-- Where the last link is. -/
theorem lastFree_bounds (hsizes : BlockSizes segs) :
    lastFree d a segs = d ∨ a ≤ lastFree d a segs ∧ lastFree d a segs + 16 ≤ a + extent segs := by
  induction segs generalizing d a with
  | nil => exact Or.inl rfl
  | cons s segs ih =>
      obtain ⟨hs, hsegs⟩ := List.forall_mem_cons.mp hsizes
      rw [lastFree_cons, extent_cons]
      cases s.isFree
      · have := @ih d (a + s.size) hsegs
        rw [if_neg Bool.false_ne_true]
        omega
      · have := @ih a (a + s.size) hsegs
        rw [if_pos rfl]
        omega

/-- The list of free blocks up to the last one. -/
theorem Chained.next_lastFree (h : Chained mem tl d a segs) :
    linkNext mem (lastFree d a segs) = tl := by
  induction segs generalizing d a with
  | nil => exact h.1
  | cons s segs ih =>
      obtain ⟨hnext, hblock, hlaid⟩ := h
      obtain ⟨n, _ | k⟩ := s
      · exact ih ⟨hblock.2, hlaid⟩
      · exact ih ⟨hnext, hlaid⟩

/-- The last link is set to `q`. -/
theorem Chained.retarget (h : Chained mem tl d a segs) (hsizes : BlockSizes segs)
    (hd : d + 8 ≤ a ∨ a + extent segs ≤ d) {q : Nat} (hq : q < 2 ^ 32) :
    Chained (setLinkNext (lastFree d a segs) q mem) q d a segs := by
  induction segs generalizing d a with
  | nil => exact ⟨linkNext_setLinkNext hq, trivial⟩
  | cons s segs ih =>
      obtain ⟨hnext, hblock, hlaid⟩ := h
      obtain ⟨hs, hsegs⟩ := List.forall_mem_cons.mp hsizes
      rw [extent_cons] at hd
      obtain ⟨n, _ | k⟩ := s
      · -- the link of this block takes the place of `d`
        simp only at hs hd
        have hrest := @ih a (a + n) ⟨hblock.2, hlaid⟩ hsegs (by omega)
        have hlast := lastFree_bounds (d := a) (a := a + n) hsegs
        rw [firstFree_cons, Segment.isFree_none, if_pos rfl] at hnext
        change Chained (setLinkNext (lastFree a (a + n) segs) q mem) q d a _
        refine ⟨?_, ⟨?_, hrest.1⟩, hrest.2⟩
        · rw [firstFree_cons, Segment.isFree_none, if_pos rfl]
          refine Eq.trans (linkNext_congr fun i hi => setLinkNext_of_apart ?_) hnext
          omega
        · rw [linkSize_congr fun i hi => setLinkNext_of_apart (by omega)]
          exact hblock.1
      · simp only at hs hd
        have hrest := @ih d (a + n) ⟨hnext, hlaid⟩ hsegs (by omega)
        have hlast := lastFree_bounds (d := d) (a := a + n) hsegs
        change Chained (setLinkNext (lastFree d (a + n) segs) q mem) q d a _
        refine ⟨hrest.1, ?_, hrest.2⟩
        refine (hblock.next_irrel rfl _).congr (Nat.le_trans (by decide) hs.1) fun x hlo hhi => ?_
        exact setLinkNext_of_apart (by simp only at hhi; omega)

/-! ## the loops -/

/-- A block is larger than its number. -/
theorem length_lt_heapWalk (hsizes : BlockSizes segs) (hend : extent segs < 2 ^ 32) :
    segs.length < heapWalk := by
  have hle : segs.length ≤ extent segs := by
    clear hend
    induction segs with
    | nil => exact Nat.le_refl 0
    | cons s segs ih =>
        obtain ⟨hs, hsegs⟩ := List.forall_mem_cons.mp hsizes
        have := ih hsegs
        rw [List.length_cons, extent_cons]
        omega
  unfold heapWalk
  omega

/-- The loop of `prvInsertBlockIntoFreeList` finds the last free block below. -/
theorem prvInsertLoop_eq {b n : Nat} (h : Chained mem tl d a pre) (hsizes : BlockSizes pre)
    (hb : a + extent pre = b) (htl : b ≤ tl) (hn : pre.length < n) :
    prvInsertLoop mem b n d = some (lastFree d a pre) := by
  induction pre generalizing d a n with
  | nil =>
      obtain ⟨n, rfl⟩ := Nat.exists_eq_add_one.mpr hn
      have hnext : linkNext mem d = tl := h.1
      rw [prvInsertLoop, if_neg (by omega)]
      rfl
  | cons s pre ih =>
      obtain ⟨hnext, hblock, hlaid⟩ := h
      obtain ⟨hs, hpre⟩ := List.forall_mem_cons.mp hsizes
      rw [extent_cons] at hb
      obtain ⟨size, _ | k⟩ := s
      · obtain ⟨n, rfl⟩ := Nat.exists_eq_add_one.mpr (Nat.zero_lt_of_lt hn)
        simp only at hs hb
        have hnext' : linkNext mem d = a := hnext
        rw [prvInsertLoop, hnext', if_pos (by omega)]
        exact ih ⟨hblock.2, hlaid⟩ hpre (by rw [← hb, Nat.add_assoc]) (Nat.lt_of_succ_lt_succ hn)
      · exact ih ⟨hnext, hlaid⟩ hpre (by rw [← hb, Nat.add_assoc]) (Nat.lt_of_succ_lt hn)

/-- The loop of `pvPortMalloc` walks first fit. -/
theorem mallocLoop_eq {w : UInt32} {n : Nat} (h : Chained mem tl d a segs)
    (hsizes : BlockSizes segs) (ha : 0 < a) (hn : segs.length < n)
    (htl : tl = a + extent segs) (hend : linkNext mem tl = 0) :
    mallocLoop mem w n d (linkNext mem d) = some
      (match firstFit w.toNat segs with
      | some (pre, _, _) => (lastFree d a pre, a + extent pre)
      | none => (lastFree d a segs, tl)) := by
  induction segs generalizing d a n with
  | nil =>
      obtain ⟨n, rfl⟩ := Nat.exists_eq_add_one.mpr hn
      have hnext : linkNext mem d = tl := h.1
      rw [mallocLoop, hnext, if_neg fun hcond => hcond.2 hend]
      rfl
  | cons s segs ih =>
      obtain ⟨hnext, hblock, hlaid⟩ := h
      obtain ⟨hs, hsegs⟩ := List.forall_mem_cons.mp hsizes
      rw [extent_cons] at htl
      obtain ⟨size, _ | k⟩ := s
      · obtain ⟨n, rfl⟩ := Nat.exists_eq_add_one.mpr (Nat.zero_lt_of_lt hn)
        simp only at hs htl
        have hnext' : linkNext mem d = a := hnext
        have hsize : (linkSize mem a).toNat = size := hblock.1
        rw [mallocLoop, hnext', firstFit]
        by_cases hfit : w.toNat ≤ size
        · rw [if_neg fun hcond => ?_, if_pos ⟨rfl, hfit⟩]
          · rfl
          · have := UInt32.lt_iff_toNat_lt.mp hcond.1
            omega
        · have hlt : linkSize mem a < w := UInt32.lt_iff_toNat_lt.mpr (by omega)
          have hne : linkNext mem a ≠ 0 := by
            have hfirst := firstFree_bounds tl (a + size) segs
            rw [hblock.2]
            simp only at hfirst ⊢
            omega
          have hrest := ih ⟨hblock.2, hlaid⟩ hsegs (by omega) (Nat.lt_of_succ_lt_succ hn)
            (by rw [htl, Nat.add_assoc])
          rw [if_pos ⟨hlt, hne⟩, if_neg fun hcond => hfit hcond.2, hrest]
          cases firstFit w.toNat segs <;> simp [Nat.add_assoc]
      · have hrest := ih ⟨hnext, hlaid⟩ hsegs (by omega) (Nat.lt_of_succ_lt hn)
          (by rw [htl, Nat.add_assoc])
        rw [firstFit, if_neg (by simp), hrest]
        cases firstFit w.toNat segs <;> simp [Nat.add_assoc]

/-! ## a block is put into the list -/

/-- Outside of the link at `c` nothing has changed. -/
def SameBut (c : Nat) (mem mem' : Nat → UInt8) : Prop := ∀ x, x < c ∨ c + 8 ≤ x → mem' x = mem x

theorem SameBut.setLinkNext {c q : Nat} (h : SameBut c mem mem') :
    SameBut c mem (setLinkNext c q mem') := fun x hx => by
  rw [setLinkNext_of_apart (by omega), h x hx]

theorem SameBut.setLinkSize {c : Nat} {n : UInt32} (h : SameBut c mem mem') :
    SameBut c mem (setLinkSize c n mem') := fun x hx => by
  rw [setLinkSize_of_apart (by omega), h x hx]

theorem SameBut.refl (c : Nat) (mem : Nat → UInt8) : SameBut c mem mem := fun _ _ => rfl

/-- The pointers of the other blocks are the same. -/
theorem SameBut.linkNext {c p : Nat} (h : SameBut c mem mem') (hp : p + 8 ≤ c ∨ c + 8 ≤ p) :
    linkNext mem' p = linkNext mem p := linkNext_congr fun i hi => h _ (by omega)

/-- So are their sizes. -/
theorem SameBut.linkSize {c p : Nat} (h : SameBut c mem mem') (hp : p + 8 ≤ c ∨ c + 8 ≤ p) :
    linkSize mem' p = linkSize mem p := linkSize_congr fun i hi => h _ (by omega)

/-- Blocks elsewhere are the same. -/
theorem Laid.sameBut {c : Nat} (h : Laid mem tl a segs) (hsizes : BlockSizes segs)
    (hsame : SameBut c mem mem') (hc : c + 8 ≤ a ∨ a + extent segs ≤ c) : Laid mem' tl a segs :=
  h.congr hsizes fun x hlo hhi => hsame x (by omega)

/-- Chained blocks elsewhere are the same. -/
theorem Chained.sameBut {c : Nat} (h : Chained mem tl d a segs) (hsizes : BlockSizes segs)
    (hsame : SameBut c mem mem') (hd : d + 8 ≤ c ∨ c + 8 ≤ d)
    (hc : c + 8 ≤ a ∨ a + extent segs ≤ c) : Chained mem' tl d a segs :=
  h.congr hsizes (fun x hlo hhi => hsame x (by omega)) fun x hlo hhi => hsame x (by omega)

/-- The second half of `prvInsertBlockIntoFreeList` joins the block with the one behind it. -/
theorem prvJoinAfter_eq {it c k : Nat} (hsize : (linkSize mem c).toNat = k)
    (hnext : linkNext mem it = firstFree tl (c + k) post) (hpost : Laid mem tl (c + k) post)
    (hsizes : BlockSizes post) (hk : 8 ≤ k) (htl : c + k + extent post = tl) (hlt : tl < 2 ^ 32)
    (hit : it = c ∨ it + 8 ≤ c ∨ c + 8 ≤ it) :
    Laid (prvJoinAfter tl it c mem) tl c (joinNext k post) ∧
      SameBut c mem (prvJoinAfter tl it c mem) := by
  have hsame := SameBut.refl c mem
  rw [prvJoinAfter]
  simp only
  rw [hsize, hnext]
  match post, hnext, hpost, hsizes, htl with
  | [], hnext, hpost, _, htl =>
      rw [extent_nil, Nat.add_zero] at htl
      rw [firstFree_nil, if_pos htl, if_neg (not_not.mpr rfl)]
      refine ⟨⟨⟨?_, linkNext_setLinkNext hlt⟩, trivial⟩, hsame.setLinkNext⟩
      rw [linkSize_setLinkNext]
      exact hsize
  | ⟨n, none⟩ :: post, hnext, ⟨hblock, hlaid⟩, hsizes, htl =>
      obtain ⟨hs, hsegs⟩ := List.forall_mem_cons.mp hsizes
      simp only [extent_cons] at hs htl
      have hfirst := firstFree_bounds tl (c + k + n) post
      have hnext' : linkNext mem it = c + k := hnext
      rw [firstFree_cons, Segment.isFree_none, if_pos rfl, if_pos rfl, if_pos (by omega)]
      -- the link that is read has not been changed before
      have hread : linkNext (setLinkSize c (linkSize mem c + linkSize mem (c + k)) mem) it =
          c + k := by
        obtain rfl | hapart := hit
        · rw [linkNext_setLinkSize, hnext']
        · rw [hsame.setLinkSize.linkNext hapart, hnext']
      have hbehind : linkNext (setLinkSize c (linkSize mem c + linkSize mem (c + k)) mem) (c + k) =
          firstFree tl (c + k + n) post := by
        rw [hsame.setLinkSize.linkNext (by omega), hblock.2]
      rw [hread, hbehind]
      refine ⟨⟨⟨?_, ?_⟩, ?_⟩, hsame.setLinkSize.setLinkNext⟩
      · have hn := hblock.1
        rw [linkSize_setLinkNext, linkSize_setLinkSize, UInt32.toNat_add, hsize, hn]
        simp only
        omega
      · rw [linkNext_setLinkNext (by omega), Nat.add_assoc]
      · rw [← Nat.add_assoc]
        exact hlaid.sameBut hsegs hsame.setLinkSize.setLinkNext (by omega)
  | ⟨n, some holder⟩ :: post, hnext, hlaid, hsizes, htl =>
      obtain ⟨hs, -⟩ := List.forall_mem_cons.mp hsizes
      simp only [extent_cons] at hs htl
      have hfirst := firstFree_bounds tl (c + k + n) post
      rw [firstFree_cons, Segment.isFree_some, if_neg Bool.false_ne_true, if_neg (by simp only; omega)]
      refine ⟨⟨⟨?_, linkNext_setLinkNext (by simp only; omega)⟩, ?_⟩, hsame.setLinkNext⟩
      · rw [linkSize_setLinkNext]
        exact hsize
      · exact hlaid.sameBut hsizes hsame.setLinkNext (by omega)

/-- The joined block is free. -/
theorem firstFree_joinNext (n : Nat) (post : List (Segment HeapHolder)) :
    firstFree tl a (joinNext n post) = a := by
  match post with
  | [] => rfl
  | ⟨_, none⟩ :: _ => rfl
  | ⟨_, some _⟩ :: _ => rfl

/-- The joined block has a size that a block may have. -/
theorem blockSizes_joinNext {n : Nat} (hn : 16 ≤ n ∧ 8 ∣ n) (hpost : BlockSizes post) :
    BlockSizes (joinNext n post) := by
  match post, hpost with
  | [], _ => exact List.forall_mem_singleton.mpr hn
  | ⟨k, none⟩ :: post, hpost =>
      obtain ⟨hk, hrest⟩ := List.forall_mem_cons.mp hpost
      exact List.forall_mem_cons.mpr ⟨⟨by simp only; omega, Nat.dvd_add hn.2 hk.2⟩, hrest⟩
  | ⟨k, some _⟩ :: post, hpost => exact List.forall_mem_cons.mpr ⟨hn, hpost⟩

/-- Releasing a block leaves sizes that blocks may have. -/
theorem blockSizes_release {n : Nat} (hpre : BlockSizes pre) (hn : 16 ≤ n ∧ 8 ∣ n)
    (hpost : BlockSizes post) : BlockSizes (release pre n post) := by
  induction pre using segments_cases with
  | nil => exact blockSizes_joinNext hn hpost
  | free pre k =>
      obtain ⟨hpre', hk⟩ := List.forall_mem_append.mp hpre
      have hk := List.forall_mem_singleton.mp hk
      simp only at hk
      rw [release_concat_free]
      exact List.forall_mem_append.mpr
        ⟨hpre', blockSizes_joinNext ⟨by omega, Nat.dvd_add hk.2 hn.2⟩ hpost⟩
  | held pre k holder =>
      rw [release_concat_held, List.append_cons]
      exact List.forall_mem_append.mpr ⟨hpre, blockSizes_joinNext hn hpost⟩

/-- The last free block ends inside of the region. -/
theorem Chained.lastFree_end (h : Chained mem tl d a segs) :
    lastFree d a segs = d ∨
      lastFree d a segs + (linkSize mem (lastFree d a segs)).toNat ≤ a + extent segs := by
  induction segs generalizing d a with
  | nil => exact Or.inl rfl
  | cons s segs ih =>
      obtain ⟨hnext, hblock, hlaid⟩ := h
      obtain ⟨n, _ | k⟩ := s
      · have hsize : (linkSize mem a).toNat = n := hblock.1
        obtain hlast | hlast := @ih a (a + n) ⟨hblock.2, hlaid⟩
        · refine Or.inr ?_
          simp only [lastFree_cons, Segment.isFree_none, if_true, extent_cons, hlast, hsize]
          omega
        · refine Or.inr ?_
          simp only [lastFree_cons, Segment.isFree_none, if_true, extent_cons]
          omega
      · have := @ih d (a + n) ⟨hnext, hlaid⟩
        rw [lastFree_cons, Segment.isFree_some, if_neg Bool.false_ne_true, extent_cons]
        simp only
        omega

section Insert

variable {l : HeapLayout} {n : Nat}

/-- `prvInsertBlockIntoFreeList` behind its loop. -/
theorem prvInsertBlockIntoFreeList_of_loop {it b c : Nat} {mem₁ : Nat → UInt8}
    (hloop : prvInsertLoop mem b heapWalk l.xStart = some it)
    (hbefore : prvJoinBefore it b mem = (c, mem₁)) :
    prvInsertBlockIntoFreeList l tl b mem =
      some (if it ≠ c then setLinkNext it c (prvJoinAfter tl it c mem₁)
        else prvJoinAfter tl it c mem₁) := by
  rw [prvInsertBlockIntoFreeList, hloop, Option.map_some, hbefore]

/-- What `prvInsertBlockIntoFreeList` finds: the block between `pre` and `post`. -/
structure Insertable (l : HeapLayout) (mem : Nat → UInt8) (tl a : Nat)
    (pre : List (Segment HeapHolder)) (n : Nat) (post : List (Segment HeapHolder)) : Prop where
  chained : Chained mem tl l.xStart a (pre ++ ⟨n, some .marked⟩ :: post)
  sizes : BlockSizes (pre ++ ⟨n, some .marked⟩ :: post)
  start : linkSize mem l.xStart = 0
  apart : l.xStart + 8 ≤ a ∨ tl ≤ l.xStart
  pos : 0 < a
  tl_eq : a + extent pre + n + extent post = tl
  tl_lt : tl < 2 ^ 32

/-- What it leaves: the blocks `segs`, and nothing else has changed but `xStart`. -/
def Relisted (l : HeapLayout) (mem : Nat → UInt8) (tl a : Nat)
    (segs : List (Segment HeapHolder)) (mem' : Nat → UInt8) : Prop :=
  Chained mem' tl l.xStart a segs ∧ linkSize mem' l.xStart = 0 ∧
    ∀ x, x < a ∨ tl ≤ x → x < l.xStart ∨ l.xStart + 8 ≤ x → mem' x = mem x

namespace Insertable

variable (h : Insertable l mem tl a pre n post)
include h

/-- The sizes in front of a block, of the block and behind it. -/
theorem sizes_split : BlockSizes pre ∧ (16 ≤ n ∧ 8 ∣ n) ∧ BlockSizes post := by
  obtain ⟨hpre, hrest⟩ := List.forall_mem_append.mp h.sizes
  exact ⟨hpre, List.forall_mem_cons.mp hrest⟩

/-- The chain in front of a block, its size and the blocks behind it. -/
theorem split :
    Chained mem (firstFree tl (a + extent pre + n) post) l.xStart a pre ∧
      (linkSize mem (a + extent pre)).toNat = n ∧ Laid mem tl (a + extent pre + n) post := by
  obtain ⟨hpre, hblock, hpost⟩ := chained_append.mp h.chained
  exact ⟨hpre, hblock, hpost⟩

/-- The loop ends at the last free block before the block. -/
theorem loop_eq :
    prvInsertLoop mem (a + extent pre) heapWalk l.xStart = some (lastFree l.xStart a pre) := by
  obtain ⟨hpre, hn, hpost⟩ := h.sizes_split
  have htl := h.tl_eq
  have hfirst := firstFree_bounds tl (a + extent pre + n) post
  refine prvInsertLoop_eq h.split.1 hpre rfl (by omega) (length_lt_heapWalk hpre ?_)
  have := h.tl_lt
  omega

/-- The block before it is not free. -/
theorem insert_apart (hne : lastFree l.xStart a pre +
      (linkSize mem (lastFree l.xStart a pre)).toNat ≠ a + extent pre) :
    ∃ mem', prvInsertBlockIntoFreeList l tl (a + extent pre) mem = some mem' ∧
      Relisted l mem tl a (pre ++ joinNext n post) mem' := by
  obtain ⟨hpre, hn, hpost⟩ := h.sizes_split
  obtain ⟨hchained, hsize, hlaid⟩ := h.split
  have htl := h.tl_eq
  have hlt := h.tl_lt
  have hapart := h.apart
  have hlast := lastFree_bounds (d := l.xStart) (a := a) hpre
  obtain ⟨hjoined, hsame⟩ := prvJoinAfter_eq hsize hchained.next_lastFree hlaid hpost (by omega)
    (by omega) hlt (by omega)
  have hlink : lastFree l.xStart a pre ≠ a + extent pre := by omega
  refine ⟨_, prvInsertBlockIntoFreeList_of_loop h.loop_eq (if_neg hne), ?_⟩
  rw [if_pos hlink]
  generalize prvJoinAfter tl (lastFree l.xStart a pre) (a + extent pre) mem = mem₁
    at hjoined hsame ⊢
  have hchained₁ := (hchained.sameBut hpre hsame (by omega) (by omega)).retarget hpre (by omega)
    (show a + extent pre < 2 ^ 32 by omega)
  refine ⟨chained_append.mpr ⟨?_, ?_⟩, ?_, fun x hx hxStart => ?_⟩
  · rw [firstFree_joinNext]
    exact hchained₁
  · refine hjoined.congr (blockSizes_joinNext hn hpost) fun x hlo hhi => ?_
    rw [extent_joinNext] at hhi
    exact setLinkNext_of_apart (by omega)
  · refine Eq.trans ?_ h.start
    refine linkSize_congr fun i hi => ?_
    rw [setLinkNext_of_apart (by omega), hsame _ (by omega)]
  · rw [setLinkNext_of_apart (by omega), hsame _ (by omega)]

end Insertable

/-- The block before it is free. -/
theorem Insertable.insert_joined {k : Nat}
    (h : Insertable l mem tl a (pre ++ [⟨k, none⟩]) n post) :
    ∃ mem', prvInsertBlockIntoFreeList l tl (a + extent (pre ++ [⟨k, none⟩])) mem = some mem' ∧
      Relisted l mem tl a (pre ++ joinNext (k + n) post) mem' := by
  obtain ⟨hpre, hn, hpost⟩ := h.sizes_split
  obtain ⟨hchained, hsize, hlaid⟩ := h.split
  have htl := h.tl_eq
  have hlt := h.tl_lt
  have hapart := h.apart
  have hloop := h.loop_eq
  have hnext := hchained.next_lastFree
  obtain ⟨hpre', hk⟩ := List.forall_mem_append.mp hpre
  have hk := List.forall_mem_singleton.mp hk
  obtain ⟨hchained', hblock, -⟩ := chained_append.mp hchained
  have hlink : lastFree l.xStart a (pre ++ [⟨k, none⟩]) = a + extent pre := by
    rw [lastFree_append]
    rfl
  have hsizek : (linkSize mem (a + extent pre)).toNat = k := hblock.1
  have hext : a + extent (pre ++ [⟨k, none⟩]) = a + extent pre + k := by
    simp [Nat.add_assoc]
  rw [hlink] at hloop hnext
  rw [hext] at hloop hnext hsize hlaid htl ⊢
  simp only at hk
  -- the block before takes the size of both
  have hsame := (SameBut.refl (a + extent pre) mem).setLinkSize
    (n := linkSize mem (a + extent pre) + linkSize mem (a + extent pre + k))
  have hsize' : (linkSize mem (a + extent pre) + linkSize mem (a + extent pre + k)).toNat =
      k + n := by
    rw [UInt32.toNat_add, hsizek, hsize]
    omega
  have hnext' : linkNext (setLinkSize (a + extent pre)
      (linkSize mem (a + extent pre) + linkSize mem (a + extent pre + k)) mem) (a + extent pre) =
      firstFree tl (a + extent pre + (k + n)) post := by
    rw [linkNext_setLinkSize, hnext, Nat.add_assoc (a + extent pre) k n]
  obtain ⟨hjoined, hsame'⟩ := prvJoinAfter_eq (by rw [linkSize_setLinkSize]; exact hsize') hnext'
    (by rw [← Nat.add_assoc]; exact hlaid.sameBut hpost hsame (by omega)) hpost (by omega)
    (by omega) hlt (Or.inl rfl)
  refine ⟨_, prvInsertBlockIntoFreeList_of_loop hloop (if_pos (by rw [hsizek])), ?_⟩
  rw [if_neg (not_not.mpr rfl)]
  generalize prvJoinAfter tl (a + extent pre) (a + extent pre) (setLinkSize (a + extent pre)
    (linkSize mem (a + extent pre) + linkSize mem (a + extent pre + k)) mem) = mem'
    at hjoined hsame' ⊢
  have hall : SameBut (a + extent pre) mem mem' := fun x hx => by rw [hsame' x hx, hsame x hx]
  refine ⟨chained_append.mpr ⟨?_, hjoined⟩, ?_, fun x hx hxStart => hall x (by omega)⟩
  · rw [firstFree_joinNext]
    exact hchained'.sameBut hpre' hall (by omega) (by omega)
  · rw [hall.linkSize (by omega)]
    exact h.start

/-- `prvInsertBlockIntoFreeList` gives the block back: it is joined with its free neighbours,
and the list of the free blocks stays in order. -/
theorem Insertable.insert_eq (h : Insertable l mem tl a pre n post) :
    ∃ mem', prvInsertBlockIntoFreeList l tl (a + extent pre) mem = some mem' ∧
      Relisted l mem tl a (release pre n post) mem' := by
  have htl := h.tl_eq
  have hapart := h.apart
  have hn := h.sizes_split.2.1
  induction pre using segments_cases with
  | nil =>
      refine h.insert_apart ?_
      rw [lastFree_nil, h.start, extent_nil]
      simp only [extent_nil] at htl
      simp only [UInt32.toNat_zero]
      omega
  | free pre k =>
      rw [release_concat_free]
      exact h.insert_joined
  | held pre k holder =>
      rw [release_concat_held, List.append_cons pre ⟨k, some holder⟩ (joinNext n post)]
      refine h.insert_apart ?_
      obtain ⟨hpre, -⟩ := h.sizes_split
      obtain ⟨hpre', hk⟩ := List.forall_mem_append.mp hpre
      have hk := List.forall_mem_singleton.mp hk
      obtain ⟨hchained, -⟩ := chained_append.mp h.split.1
      have hend := hchained.lastFree_end
      have hlink : lastFree l.xStart a (pre ++ [⟨k, some holder⟩]) = lastFree l.xStart a pre := by
        rw [lastFree_append]
        rfl
      simp only [extent_append, extent_cons, extent_nil] at htl hk ⊢
      rw [hlink]
      obtain heq | hle := hend
      · rw [heq, h.start]
        simp only [UInt32.toNat_zero]
        omega
      · omega

end Insert

end Fr5080
