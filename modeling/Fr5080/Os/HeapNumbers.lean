import Fr5080.Embedded.Heap
import Fr5080.Os.HeapRun

/-!
# Fr5080.Os.HeapNumbers

The heap of `heap_4.c` is one where blocks are known by numbers (`Embedded.Heap`), the heap that
the sessions of the decoders and encoders are modelled over: `pvPortMalloc` is its `malloc`, with
the answer that the blocks leave, and a pointer may be used exactly where its number is
allocated (`heap_run_allocated_iff`).
-/

namespace Fr5080

open Embedded

/-- Both heaps, and the pointer to each block. -/
structure HeapNumbers where
  sys : HeapSys
  heap : Heap
  pointer : Nat → Nat

/-- What `pvPortMalloc` returns. -/
def mallocPointer (l : HeapLayout) (xWantedSize : UInt32) (h : Heap4) : Nat :=
  (pvPortMalloc l xWantedSize h).elim 0 Prod.fst

/-- What the step to `sys` is in numbers. -/
def numberEvent (l : HeapLayout) (s : HeapNumbers) (sys : HeapSys) : HeapEvent → HeapNumbers
  | .malloc xWantedSize =>
      { sys := sys
        heap := (s.heap.malloc (mallocPointer l xWantedSize s.sys.heap ≠ 0)).2
        pointer :=
          Function.update s.pointer s.heap.next (mallocPointer l xWantedSize s.sys.heap) }
  | .freeMark pv =>
      { s with sys := sys, heap := s.heap.free (s.heap.live.find? fun b => s.pointer b = pv) }
  | .freeInsert _ => { s with sys := sys }
  | .write _ _ _ => { s with sys := sys }
  | .elsewhere _ _ => { s with sys := sys }

/-- A step in both. -/
def numberStep (l : HeapLayout) (s : HeapNumbers) (e : HeapEvent) : Option HeapNumbers :=
  (heapStep l s.sys e).map fun sys => numberEvent l s sys e

/-- At start-up. -/
def numberStart (mem : Nat → UInt8) : HeapNumbers := ⟨heapStart mem, .empty, fun _ => 0⟩

/-- The blocks that are allocated are those that somebody has. -/
structure HeapNumbers.Denotes (s : HeapNumbers) : Prop where
  inj : ∀ b ∈ s.heap.live, ∀ b' ∈ s.heap.live, s.pointer b = s.pointer b' → b = b'
  live : ∀ pv, s.sys.Live pv ↔ ∃ b ∈ s.heap.live, s.pointer b = pv

variable {l : HeapLayout} {s s' : HeapSys} {t t' : HeapNumbers}

/-! ## the blocks that somebody has -/

/-- No two blocks have one address. -/
theorem HeapSys.Safe.eq_of_address (hsafe : s.Safe l) {p q : Nat × Segment HeapHolder}
    (hp : p ∈ s.held) (hq : q ∈ s.held) (heq : p.1 = q.1) : p = q := by
  by_contra hne
  have : Std.Symm fun p q : Nat × Segment HeapHolder =>
      p.1 + p.2.size ≤ q.1 ∨ q.1 + q.2.size ≤ p.1 := ⟨fun _ _ => Or.symm⟩
  have hapart := hsafe.apart.forall hp hq hne
  have hp16 := (hsafe.inside p hp).2.2.2
  have hq16 := (hsafe.inside q hq).2.2.2
  omega

/-- The pointer that is returned is that of a new block. -/
theorem HeapSys.Inv.live_malloc (hinv : s.Inv l) {xWantedSize : UInt32}
    (hstep : heapStep l s (.malloc xWantedSize) = some s') :
    (mallocPointer l xWantedSize s.heap = 0 ∧ ∀ pv, s'.Live pv ↔ s.Live pv) ∨
      (mallocPointer l xWantedSize s.heap ≠ 0 ∧
        ¬ s.Live (mallocPointer l xWantedSize s.heap) ∧
        ∀ pv, s'.Live pv ↔ pv = mallocPointer l xWantedSize s.heap ∨ s.Live pv) := by
  obtain ⟨s'', hstep', hinv', -⟩ := hinv.malloc xWantedSize
  cases hstep.symm.trans hstep'
  obtain ⟨segs, hheap, -⟩ := hinv.ready
  rw [heapStep] at hstep
  obtain ⟨-, hmalloc⟩ | ⟨-, a, h', segs', hmalloc, hhands⟩ := hheap.malloc_cases xWantedSize
  · rw [pvPortMalloc_ready] at hmalloc
    rw [hmalloc] at hstep
    cases hstep
    exact Or.inl ⟨by rw [mallocPointer, hmalloc]; rfl, fun pv => Iff.rfl⟩
  · rw [pvPortMalloc_ready] at hmalloc
    rw [hmalloc, Option.map_some] at hstep
    simp only at hstep
    rw [if_pos (Nat.succ_ne_zero _), Nat.add_sub_cancel] at hstep
    have hpointer : mallocPointer l xWantedSize s.heap = a + 8 := by
      rw [mallocPointer, hmalloc]
      rfl
    rw [hpointer]
    cases hstep
    refine Or.inr ⟨Nat.succ_ne_zero _, ?_, fun pv => ?_⟩
    · rintro ⟨p, hp, haddr, -⟩
      have hsafe := hinv'.safe
      have hnew := hsafe.inside _ List.mem_cons_self
      have hold := hsafe.inside p (List.mem_cons_of_mem _ hp)
      have hapart := (List.pairwise_cons.mp hsafe.apart).1 p hp
      simp only [ownedBlock] at hnew hapart
      omega
    · simp only [HeapSys.Live, List.exists_mem_cons_iff]
      refine or_congr ⟨fun h => h.1.symm, fun h => ⟨h.symm, _, rfl⟩⟩ Iff.rfl

/-- The mark takes the block that `pv` points to from its owner, and no other. -/
theorem live_markBlock {pv : Nat} {p : Nat × Segment HeapHolder} :
    (markBlock pv p).1 = p.1 ∧ ((∃ bytes, (markBlock pv p).2.holder = some (.live bytes)) ↔
      p.1 + 8 ≠ pv ∧ ∃ bytes, p.2.holder = some (.live bytes)) := by
  rw [markBlock]
  split
  · next heq => simp [heq]
  · next hne => simp [hne]

/-- An owner that writes stays the owner. -/
theorem live_writeBlock {pv i : Nat} {b : UInt8} {p : Nat × Segment HeapHolder} :
    (writeBlock pv i b p).1 = p.1 ∧
      ((∃ bytes, (writeBlock pv i b p).2.holder = some (.live bytes)) ↔
        ∃ bytes, p.2.holder = some (.live bytes)) := by
  rw [writeBlock]
  split
  · split
    · next bytes hlive => simp [hlive]
    · exact ⟨rfl, Iff.rfl⟩
  · exact ⟨rfl, Iff.rfl⟩

/-- Nobody has a block once it is on its way back. -/
theorem HeapSys.live_freeMark {pv : Nat} (hstep : heapStep l s (.freeMark pv) = some s') (q : Nat) :
    s'.Live q ↔ s.Live q ∧ q ≠ pv := by
  cases hstep
  simp only [HeapSys.Live, List.mem_map, exists_exists_and_eq_and, live_markBlock]
  constructor
  · rintro ⟨p, hp, rfl, hne, hlive⟩
    exact ⟨⟨p, hp, rfl, hlive⟩, hne⟩
  · rintro ⟨⟨p, hp, rfl, hlive⟩, hne⟩
    exact ⟨p, hp, rfl, hne, hlive⟩

/-- A write changes no owner. -/
theorem HeapSys.live_write {pv i : Nat} {b : UInt8}
    (hstep : heapStep l s (.write pv i b) = some s') (q : Nat) : s'.Live q ↔ s.Live q := by
  cases hstep
  simp only [HeapSys.Live, List.mem_map, exists_exists_and_eq_and, live_writeBlock]

/-- A block that is put into the list had no owner any more. -/
theorem HeapSys.Inv.live_freeInsert (hinv : s.Inv l) {pxLink : Nat}
    (hallowed : s.Allowed l (.freeInsert pxLink))
    (hstep : heapStep l s (.freeInsert pxLink) = some s') (q : Nat) : s'.Live q ↔ s.Live q := by
  obtain ⟨p, hp, rfl, hmarked⟩ := hallowed
  rw [heapStep, Option.map_eq_some_iff] at hstep
  obtain ⟨h', -, rfl⟩ := hstep
  simp only [HeapSys.Live, List.mem_filter]
  constructor
  · rintro ⟨p', ⟨hp', -⟩, haddr, hlive⟩
    exact ⟨p', hp', haddr, hlive⟩
  · rintro ⟨p', hp', haddr, bytes, hlive⟩
    refine ⟨p', ⟨hp', decide_eq_true fun heq => ?_⟩, haddr, bytes, hlive⟩
    -- the block that is put into the list has no owner
    rw [hinv.safe.eq_of_address hp' hp heq, hmarked] at hlive
    cases hlive

/-! ## the simulation -/

/-- The new block gets the next number, if there is one. -/
theorem HeapNumbers.Denotes.malloc (h : t.Denotes) (hinv : t.sys.Inv l) {xWantedSize : UInt32}
    (hstep : heapStep l t.sys (.malloc xWantedSize) = some s) :
    (numberEvent l t s (.malloc xWantedSize)).Denotes := by
  have hlt := t.heap.lt_next
  have hsame : ∀ pv, ∀ b ∈ t.heap.live, Function.update t.pointer t.heap.next pv b = t.pointer b :=
    fun pv b hb => Function.update_of_ne (Nat.ne_of_lt (hlt b hb)) _ _
  simp only [numberEvent]
  obtain ⟨hnull, hlive⟩ | ⟨hpv, hfresh, hlive⟩ := hinv.live_malloc hstep
  · rw [hnull]
    refine ⟨fun b hb b' hb' heq => ?_, fun pv => ?_⟩
    · refine h.inj b hb b' hb' ?_
      rwa [← hsame 0 b hb, ← hsame 0 b' hb']
    · change s.Live pv ↔ ∃ b ∈ t.heap.live, Function.update t.pointer t.heap.next 0 b = pv
      rw [hlive, h.live]
      exact exists_congr fun b => and_congr_right fun hb => by rw [hsame 0 b hb]
  · generalize mallocPointer l xWantedSize t.sys.heap = pv at *
    have hnew : Function.update t.pointer t.heap.next pv t.heap.next = pv := Function.update_self ..
    have hold : ∀ b ∈ t.heap.live, t.pointer b ≠ pv := fun b hb heq =>
      hfresh ((h.live pv).mpr ⟨b, hb, heq⟩)
    rw [decide_eq_true hpv]
    refine ⟨fun b hb b' hb' heq => ?_, fun q => ?_⟩
    · change Function.update t.pointer t.heap.next pv b =
        Function.update t.pointer t.heap.next pv b' at heq
      obtain rfl | hb := List.mem_cons.mp hb
      · obtain rfl | hb' := List.mem_cons.mp hb'
        · rfl
        · rw [hnew, hsame pv b' hb'] at heq
          exact absurd heq.symm (hold b' hb')
      · obtain rfl | hb' := List.mem_cons.mp hb'
        · rw [hnew, hsame pv b hb] at heq
          exact absurd heq (hold b hb)
        · rw [hsame pv b hb, hsame pv b' hb'] at heq
          exact h.inj b hb b' hb' heq
    · change s.Live q ↔ ∃ b ∈ t.heap.next :: t.heap.live,
        Function.update t.pointer t.heap.next pv b = q
      rw [hlive, List.exists_mem_cons_iff, hnew, h.live]
      refine or_congr ⟨Eq.symm, Eq.symm⟩ (exists_congr fun b => and_congr_right fun hb => ?_)
      rw [hsame pv b hb]

/-- The number whose block is freed is that of the pointer. -/
theorem HeapNumbers.Denotes.freeMark (h : t.Denotes) {pv : Nat}
    (hstep : heapStep l t.sys (.freeMark pv) = some s) :
    (numberEvent l t s (.freeMark pv)).Denotes := by
  -- the number of the block, where it has one
  have hfree : ∀ b, b ∈ (t.heap.free (t.heap.live.find? fun b => t.pointer b = pv)).live ↔
      b ∈ t.heap.live ∧ t.pointer b ≠ pv := by
    intro b
    rw [Heap.free, List.mem_filter, decide_eq_true_iff]
    refine and_congr_right fun hb => ?_
    cases hfind : t.heap.live.find? fun b => t.pointer b = pv with
    | none =>
        have := List.find?_eq_none.mp hfind b hb
        simpa using this
    | some c =>
        have hc := List.find?_some hfind
        have hc := of_decide_eq_true hc
        have hmem := List.mem_of_find?_eq_some hfind
        rw [ne_eq, Option.some_inj, ne_eq, not_iff_not]
        exact ⟨fun heq => heq ▸ hc, fun heq => h.inj b hb c hmem (heq.trans hc.symm)⟩
  refine ⟨fun b hb b' hb' heq => h.inj b ((hfree b).mp hb).1 b' ((hfree b').mp hb').1 heq,
    fun q => ?_⟩
  change s.Live q ↔ _
  rw [HeapSys.live_freeMark hstep, h.live]
  constructor
  · rintro ⟨⟨b, hb, rfl⟩, hne⟩
    exact ⟨b, (hfree b).mpr ⟨hb, hne⟩, rfl⟩
  · rintro ⟨b, hb, rfl⟩
    exact ⟨⟨b, ((hfree b).mp hb).1, rfl⟩, ((hfree b).mp hb).2⟩

/-- The owners are what counts. -/
theorem HeapNumbers.Denotes.congr (h : t.Denotes) (hheap : t'.heap = t.heap)
    (hpointer : t'.pointer = t.pointer) (hlive : ∀ pv, t'.sys.Live pv ↔ t.sys.Live pv) :
    t'.Denotes := by
  refine ⟨?_, fun pv => ?_⟩
  · rw [hheap, hpointer]
    exact h.inj
  · rw [hheap, hpointer, hlive]
    exact h.live pv

/-- The first component is the heap of `heap_4.c`. -/
@[simp] theorem numberEvent_sys (e : HeapEvent) : (numberEvent l t s e).sys = s := by
  cases e <;> rfl

/-- Every event that is allowed is possible in both, and they still agree. -/
theorem HeapNumbers.Denotes.step (h : t.Denotes) (hinv : t.sys.Inv l) {e : HeapEvent}
    (hallowed : t.sys.Allowed l e) :
    ∃ t', numberStep l t e = some t' ∧ heapStep l t.sys e = some t'.sys ∧ t'.sys.Inv l ∧
      t'.Denotes := by
  obtain ⟨s', hstep, hinv', -⟩ := hinv.step hallowed
  refine ⟨numberEvent l t s' e, by rw [numberStep, hstep]; rfl, by rw [numberEvent_sys, hstep],
    by rw [numberEvent_sys]; exact hinv', ?_⟩
  cases e with
  | malloc xWantedSize => exact h.malloc hinv hstep
  | freeMark pv => exact h.freeMark hstep
  | freeInsert pxLink => exact h.congr rfl rfl (hinv.live_freeInsert hallowed hstep)
  | write pv i b => exact h.congr rfl rfl (HeapSys.live_write hstep)
  | elsewhere x b =>
      cases hstep
      exact h.congr rfl rfl fun _ => Iff.rfl

/-- **Refinement**: the heap is one of numbers.  In every run the pointers that may be used are
those of the numbers that are allocated, and no two numbers have one pointer. -/
theorem heap_run_allocated_iff {mem : Nat → UInt8} {es : List HeapEvent}
    (hallowed : Along (heapStep l) (HeapSys.Allowed l) (heapStart mem) es) :
    ∃ t, run (numberStep l) (numberStart mem) es = some t ∧
      run (heapStep l) (heapStart mem) es = some t.sys ∧
      (∀ pv, t.sys.Live pv ↔ ∃ b, t.heap.Allocated (some b) ∧ t.pointer b = pv) ∧
      ∀ b b', t.heap.Allocated (some b) → t.heap.Allocated (some b') →
        t.pointer b = t.pointer b' → b = b' := by
  suffices hrun : ∀ s : HeapNumbers, s.Denotes → s.sys.Inv l →
      Along (heapStep l) (HeapSys.Allowed l) s.sys es →
      ∃ t, run (numberStep l) s es = some t ∧ run (heapStep l) s.sys es = some t.sys ∧
        t.Denotes by
    obtain ⟨t, hnumber, hheap, hdenotes⟩ := hrun (numberStart mem)
      ⟨fun b hb => absurd hb List.not_mem_nil, fun pv => by simp [HeapSys.Live, numberStart,
        heapStart, Heap.empty]⟩ (heapStart_inv l mem) hallowed
    refine ⟨t, hnumber, hheap, fun pv => ?_, fun b b' hb hb' heq => ?_⟩
    · rw [hdenotes.live]
      simp [Heap.Allocated]
    · simp only [Heap.Allocated, Option.some_inj, exists_eq_right'] at hb hb'
      exact hdenotes.inj b hb b' hb' heq
  clear hallowed
  induction es with
  | nil => exact fun s hs _ _ => ⟨s, rfl, rfl, hs⟩
  | cons e es ih =>
      intro s hs hinv hallowed
      obtain ⟨s', hnumber, hheap, hinv', hs'⟩ := hs.step hinv hallowed.1
      obtain ⟨t, hnumbers, hheaps, ht⟩ := ih s' hs' hinv' (hallowed.2 _ hheap)
      exact ⟨t, run_cons_eq_some.mpr ⟨s', hnumber, hnumbers⟩,
        run_cons_eq_some.mpr ⟨s'.sys, hheap, hheaps⟩, ht⟩

/-- The run of `heapExample`. -/
theorem heapExample_allocated_iff :
    ∃ t, run (numberStep heapExampleLayout) (numberStart fun _ => 0) heapExample = some t ∧
      run (heapStep heapExampleLayout) (heapStart fun _ => 0) heapExample = some t.sys ∧
      (∀ pv, t.sys.Live pv ↔ ∃ b, t.heap.Allocated (some b) ∧ t.pointer b = pv) ∧
      ∀ b b', t.heap.Allocated (some b) → t.heap.Allocated (some b') →
        t.pointer b = t.pointer b' → b = b' :=
  heap_run_allocated_iff heapExample_allowed

end Fr5080
