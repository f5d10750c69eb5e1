import Mathlib.Data.List.TakeWhile
import Fr5080.Embedded.Rings
import Fr5080.Embedded.Turns

/-!
# Fr5080.Kernel.List

The lists of the FreeRTOS kernel (`list.c` and the macros of `list.h`,
`fr5080_basic_freertos`).  A list is circular and doubly linked, and its head is
the marker `xListEnd`; `pxIndex` walks through it.

A list is named by `κ` and an item by `ι`; a pointer to an item or a marker is a
`RingNode`.  All lists and items are in one memory, `ListMem`, with one field for
each field of `List_t` and `ListItem_t`.  `pvOwner` is left to the users of the
lists, and the number of items is a natural number.  The loop of `vListInsert` goes
round the list; a walk that has not ended after as many steps as the list has items
has missed its end (`none`).

`Lists m Z` says what the memory stands for: list `k` has the items `(Z k).items`
and `pxIndex` is the mark.  There is a lemma for each function.
-/

namespace Fr5080

open Embedded Embedded.RingNode

/-- `portMAX_DELAY`. -/
def portMaxDelay : UInt32 := 0xffffffff

/-- No value is behind that of the end marker. -/
theorem le_portMaxDelay {value : UInt32} : value ≤ portMaxDelay :=
  UInt32.le_iff_toNat_le.mpr (Nat.le_pred_of_lt value.toNat_lt)

/-- The fields of all `List_t` and `ListItem_t`. -/
structure ListMem (κ ι : Type*) where
  pxNext : RingNode κ ι → RingNode κ ι
  pxPrevious : RingNode κ ι → RingNode κ ι
  xItemValue : ι → UInt32
  pxContainer : ι → Option κ
  pxIndex : κ → RingNode κ ι
  uxNumberOfItems : κ → Nat

variable {κ ι : Type*}

/-! ## the functions -/

/-- `xItemValue` of an item or of `xListEnd`. -/
def ListMem.valueAt (m : ListMem κ ι) : RingNode κ ι → UInt32
  | .head _ => portMaxDelay
  | .item x => m.xItemValue x

@[simp] theorem valueAt_head {m : ListMem κ ι} {k : κ} : m.valueAt (.head k) = portMaxDelay := rfl

@[simp] theorem valueAt_item {m : ListMem κ ι} {x : ι} : m.valueAt (.item x) = m.xItemValue x := rfl

/-- `listLIST_IS_EMPTY`. -/
def listIsEmpty (k : κ) (m : ListMem κ ι) : Bool := m.uxNumberOfItems k == 0

/-- `listGET_OWNER_OF_HEAD_ENTRY`; the marker has no owner. -/
def listGetHeadEntry (k : κ) (m : ListMem κ ι) : Option ι :=
  match m.pxNext (.head k) with
  | .head _ => none
  | .item x => some x

/-- The loop of `vListInsert`, from `pxIterator` on. -/
def vListInsertLoop (m : ListMem κ ι) (xValueOfInsertion : UInt32) :
    Nat → RingNode κ ι → Option (RingNode κ ι)
  | 0, _ => none
  | n + 1, pxIterator =>
      if m.valueAt (m.pxNext pxIterator) ≤ xValueOfInsertion then
        vListInsertLoop m xValueOfInsertion n (m.pxNext pxIterator)
      else some pxIterator

section

variable [DecidableEq κ] [DecidableEq ι]

/-- `vListInitialise`. -/
def vListInitialise (k : κ) (m : ListMem κ ι) : ListMem κ ι :=
  { m with
    pxIndex := Function.update m.pxIndex k (.head k)
    pxNext := Function.update m.pxNext (.head k) (.head k)
    pxPrevious := Function.update m.pxPrevious (.head k) (.head k)
    uxNumberOfItems := Function.update m.uxNumberOfItems k 0 }

/-- `vListInitialiseItem`. -/
def vListInitialiseItem (x : ι) (m : ListMem κ ι) : ListMem κ ι :=
  { m with pxContainer := Function.update m.pxContainer x none }

/-- `listSET_LIST_ITEM_VALUE`. -/
def listSetItemValue (x : ι) (value : UInt32) (m : ListMem κ ι) : ListMem κ ι :=
  { m with xItemValue := Function.update m.xItemValue x value }

/-- `vListInsertEnd`. -/
def vListInsertEnd (k : κ) (x : ι) (m : ListMem κ ι) : ListMem κ ι :=
  let pxIndex := m.pxIndex k
  let m := { m with
    pxNext := Function.update m.pxNext (.item x) pxIndex
    pxPrevious := Function.update m.pxPrevious (.item x) (m.pxPrevious pxIndex) }
  let m := { m with pxNext := Function.update m.pxNext (m.pxPrevious pxIndex) (.item x) }
  let m := { m with pxPrevious := Function.update m.pxPrevious pxIndex (.item x) }
  { m with
    pxContainer := Function.update m.pxContainer x (some k)
    uxNumberOfItems := Function.update m.uxNumberOfItems k (m.uxNumberOfItems k + 1) }

/-- `pxIterator` of `vListInsert`. -/
def vListInsertIterator (k : κ) (x : ι) (m : ListMem κ ι) : Option (RingNode κ ι) :=
  if m.xItemValue x = portMaxDelay then some (m.pxPrevious (.head k))
  else vListInsertLoop m (m.xItemValue x) (m.uxNumberOfItems k + 1) (.head k)

/-- The end of `vListInsert`: the item is put behind `pxIterator`. -/
def vListInsertBehind (k : κ) (x : ι) (pxIterator : RingNode κ ι) (m : ListMem κ ι) :
    ListMem κ ι :=
  let m := { m with pxNext := Function.update m.pxNext (.item x) (m.pxNext pxIterator) }
  let m := { m with pxPrevious := Function.update m.pxPrevious (m.pxNext (.item x)) (.item x) }
  let m := { m with pxPrevious := Function.update m.pxPrevious (.item x) pxIterator }
  let m := { m with pxNext := Function.update m.pxNext pxIterator (.item x) }
  { m with
    pxContainer := Function.update m.pxContainer x (some k)
    uxNumberOfItems := Function.update m.uxNumberOfItems k (m.uxNumberOfItems k + 1) }

/-- `vListInsert`. -/
def vListInsert (k : κ) (x : ι) (m : ListMem κ ι) : Option (ListMem κ ι) :=
  (vListInsertIterator k x m).map fun pxIterator => vListInsertBehind k x pxIterator m

/-- `uxListRemove`: the number of items that are left, and the memory.  An item that is in no
list has no container to look into. -/
def uxListRemove (x : ι) (m : ListMem κ ι) : Option (Nat × ListMem κ ι) :=
  match m.pxContainer x with
  | none => none
  | some k =>
      let m := { m with
        pxPrevious := Function.update m.pxPrevious (m.pxNext (.item x)) (m.pxPrevious (.item x)) }
      let m := { m with
        pxNext := Function.update m.pxNext (m.pxPrevious (.item x)) (m.pxNext (.item x)) }
      let m :=
        if m.pxIndex k = .item x then
          { m with pxIndex := Function.update m.pxIndex k (m.pxPrevious (.item x)) }
        else m
      let m := { m with
        pxContainer := Function.update m.pxContainer x none
        uxNumberOfItems := Function.update m.uxNumberOfItems k (m.uxNumberOfItems k - 1) }
      some (m.uxNumberOfItems k, m)

/-- `listGET_OWNER_OF_NEXT_ENTRY`: `pxIndex` goes on, past the marker; the marker has no owner. -/
def listGetNextEntry (k : κ) (m : ListMem κ ι) : Option (ι × ListMem κ ι) :=
  let m := { m with pxIndex := Function.update m.pxIndex k (m.pxNext (m.pxIndex k)) }
  let m :=
    if m.pxIndex k = .head k then
      { m with pxIndex := Function.update m.pxIndex k (m.pxNext (m.pxIndex k)) }
    else m
  match m.pxIndex k with
  | .head _ => none
  | .item x => some (x, m)

end

/-! ## what the memory stands for -/

/-- The lists in memory. -/
structure Lists (m : ListMem κ ι) (Z : κ → Turns ι) : Prop where
  rings : Rings m.pxNext m.pxPrevious fun k => (Z k).items
  index : ∀ k, m.pxIndex k = before k (Z k).passed
  container : ∀ x k, m.pxContainer x = some k ↔ x ∈ (Z k).items
  count : ∀ k, m.uxNumberOfItems k = (Z k).items.length

variable {m m' : ListMem κ ι} {Z : κ → Turns ι} {k k' : κ} {x y : ι} {l l₁ l₂ : List ι}

/-- An item is in a list once. -/
theorem Lists.nodup (h : Lists m Z) (k : κ) : (Z k).items.Nodup := h.rings.apart.nodup k

/-- An item is in no list. -/
theorem Lists.not_mem (h : Lists m Z) (hx : m.pxContainer x = none) (k : κ) :
    x ∉ (Z k).items := fun hmem => by
  rw [← h.container, hx] at hmem
  cases hmem

/-- Values are no part of the lists. -/
theorem Lists.congr (h : Lists m Z) (hnext : m'.pxNext = m.pxNext)
    (hprev : m'.pxPrevious = m.pxPrevious) (hindex : m'.pxIndex = m.pxIndex)
    (hcontainer : m'.pxContainer = m.pxContainer)
    (hcount : m'.uxNumberOfItems = m.uxNumberOfItems) : Lists m' Z := by
  refine ⟨?_, ?_, ?_, ?_⟩
  · rw [hnext, hprev]
    exact h.rings
  · rw [hindex]
    exact h.index
  · rw [hcontainer]
    exact h.container
  · rw [hcount]
    exact h.count

/-! ### reads -/

/-- `listLIST_IS_EMPTY` is right. -/
theorem Lists.isEmpty (h : Lists m Z) : listIsEmpty k m = true ↔ (Z k).items = [] := by
  rw [listIsEmpty, beq_iff_eq, h.count, List.length_eq_zero_iff]

/-- The first item. -/
theorem Lists.headEntry (h : Lists m Z) : listGetHeadEntry k m = (Z k).items.head? := by
  have hnext := h.rings.next_eq (k := k) (List.nil_append (Z k).items).symm
  rw [before_nil] at hnext
  rw [listGetHeadEntry, hnext]
  cases (Z k).items with
  | nil => rfl
  | cons x l => rfl

section

variable [DecidableEq κ] [DecidableEq ι]

@[simp] theorem xItemValue_vListInsertEnd :
    (vListInsertEnd k x m).xItemValue = m.xItemValue := rfl

@[simp] theorem pxContainer_vListInsertEnd :
    (vListInsertEnd k x m).pxContainer = Function.update m.pxContainer x (some k) := rfl

/-! ### insertion -/

/-- A new item at a gap; the mark stays where it is. -/
theorem Lists.insert {t : Turns ι} (h : Lists m Z) (hx : m.pxContainer x = none)
    (hL : (Z k).items = l₁ ++ l₂) (ht : t.items = l₁ ++ x :: l₂)
    (hmark : before k t.passed = before k (Z k).passed)
    (hnext : m'.pxNext = Function.update (Function.update m.pxNext (.item x) (behind k l₂))
      (before k l₁) (.item x))
    (hprev : m'.pxPrevious = Function.update (Function.update m.pxPrevious (.item x) (before k l₁))
      (behind k l₂) (.item x))
    (hindex : m'.pxIndex = m.pxIndex)
    (hcontainer : m'.pxContainer = Function.update m.pxContainer x (some k))
    (hcount : m'.uxNumberOfItems = Function.update m.uxNumberOfItems k (m.uxNumberOfItems k + 1)) :
    Lists m' (Function.update Z k t) := by
  have hitems : (fun k' => (Function.update Z k t k').items) =
      Function.update (fun k => (Z k).items) k (l₁ ++ x :: l₂) := by
    funext k'
    by_cases hk : k' = k
    · subst hk
      rw [Function.update_self, Function.update_self, ht]
    · rw [Function.update_of_ne hk, Function.update_of_ne hk]
  have hmem : ∀ k', x ∉ (Z k').items := h.not_mem hx
  refine ⟨?_, fun k' => ?_, fun y k' => ?_, fun k' => ?_⟩
  · rw [hnext, hprev, hitems]
    exact h.rings.insert hL hmem
  · rw [hindex, h.index]
    by_cases hk : k' = k
    · subst hk
      rw [Function.update_self, hmark]
    · rw [Function.update_of_ne hk]
  · rw [hcontainer]
    by_cases hy : y = x
    · subst hy
      rw [Function.update_self, Option.some_inj]
      by_cases hk : k' = k
      · subst hk
        rw [Function.update_self, ht]
        simp
      · rw [Function.update_of_ne hk]
        exact iff_of_false (Ne.symm hk) (hmem k')
    · rw [Function.update_of_ne hy, h.container]
      by_cases hk : k' = k
      · subst hk
        rw [Function.update_self, ht, hL]
        simp [hy]
      · rw [Function.update_of_ne hk]
  · rw [hcount]
    by_cases hk : k' = k
    · subst hk
      rw [Function.update_self, Function.update_self, h.count, ht, hL]
      simp only [List.length_append, List.length_cons]
      omega
    · rw [Function.update_of_ne hk, Function.update_of_ne hk, h.count]

/-- **`vListInsertEnd`**: the new item comes in before the mark. -/
theorem Lists.insertEnd (h : Lists m Z) (hx : m.pxContainer x = none) (k : κ) :
    Lists (vListInsertEnd k x m) (Function.update Z k ((Z k).add x)) := by
  -- the gap is the one before the node at `pxIndex`
  have hgap : ∃ l₁ l₂, (Z k).items = l₁ ++ l₂ ∧ ((Z k).add x).items = l₁ ++ x :: l₂ ∧
      m.pxIndex k = behind k l₂ ∧ before k ((Z k).add x).passed = before k (Z k).passed := by
    rw [h.index]
    generalize Z k = t
    obtain ⟨p, a⟩ := t
    rcases List.eq_nil_or_concat' p with rfl | ⟨p, i, rfl⟩
    · exact ⟨a, [], by simp [Turns.items], by simp [Turns.items], rfl, rfl⟩
    · refine ⟨p, i :: a, by simp [Turns.items], by simp [Turns.items], ?_, ?_⟩
      · rw [before_concat, behind_cons]
      · have hmark : before k (p ++ [x] ++ [i]) = .item i := before_concat
        rw [Turns.add_concat, before_concat, ← hmark, List.append_assoc]
        rfl
  obtain ⟨l₁, l₂, hL, ht, hindex, hmark⟩ := hgap
  have hne : m.pxIndex k ≠ .item x := by
    rw [hindex]
    refine behind_ne_item fun hmem => h.not_mem hx k ?_
    rw [hL]
    exact List.mem_append_right l₁ hmem
  have hprev := h.rings.prev_eq hL
  rw [hindex] at hne
  refine h.insert hx hL ht hmark ?_ ?_ rfl rfl rfl
  · simp only [vListInsertEnd, hindex, Function.update_of_ne hne, hprev]
  · simp only [vListInsertEnd, hindex, hprev]

/-- Where `vListInsert` puts an item: behind all that are not larger. -/
def insertSorted (value : ι → UInt32) (x : ι) (l : List ι) : List ι :=
  l.takeWhile (fun y => value y ≤ value x) ++ x :: l.dropWhile (fun y => value y ≤ value x)

omit [DecidableEq ι] in
/-- The item is added, and nothing else changes. -/
theorem insertSorted_perm {value : ι → UInt32} : (insertSorted value x l).Perm (x :: l) := by
  refine List.perm_middle.trans ?_
  rw [List.takeWhile_append_dropWhile]

omit [DecidableEq ι] in
/-- The order that `vListInsert` keeps: `R` goes by the values, and the new item comes behind those
of its own value. -/
theorem pairwise_insertSorted {value : ι → UInt32} {R : ι → ι → Prop}
    (hR : ∀ y z, R y z → value y ≤ value z) (hl : l.Pairwise R)
    (hbefore : ∀ y ∈ l, value y ≤ value x → R y x) (hafter : ∀ y ∈ l, value x < value y → R x y) :
    (insertSorted value x l).Pairwise R := by
  induction l with
  | nil => exact List.pairwise_singleton R x
  | cons y l ih =>
      obtain ⟨hy, hl⟩ := List.pairwise_cons.mp hl
      by_cases hle : value y ≤ value x
      · have hrest := ih hl (fun z hz => hbefore z (List.mem_cons_of_mem y hz))
          fun z hz => hafter z (List.mem_cons_of_mem y hz)
        have hcons : insertSorted value x (y :: l) = y :: insertSorted value x l := by
          simp [insertSorted, hle]
        rw [hcons, List.pairwise_cons]
        refine ⟨fun z hz => ?_, hrest⟩
        obtain rfl | hz := List.mem_cons.mp (insertSorted_perm.mem_iff.mp hz)
        · exact hbefore y List.mem_cons_self hle
        · exact hy z hz
      · have hlt : value x < value y := UInt32.not_le.mp hle
        have hcons : insertSorted value x (y :: l) = x :: y :: l := by
          simp [insertSorted, hle]
        rw [hcons, List.pairwise_cons, List.pairwise_cons]
        refine ⟨fun z hz => ?_, hy, hl⟩
        obtain rfl | hz := List.mem_cons.mp hz
        · exact hafter z List.mem_cons_self hlt
        · exact hafter z (List.mem_cons_of_mem y hz)
            (UInt32.lt_of_lt_of_le hlt (hR y z (hy z hz)))

omit [DecidableEq κ] [DecidableEq ι] in
/-- The walk of `vListInsert` comes to the last item that is not larger. -/
theorem Lists.insertLoop (h : Lists m Z) {value : UInt32} (hvalue : value ≠ portMaxDelay)
    (hL : (Z k).items = l₁ ++ l₂) {n : Nat} (hn : l₂.length < n) :
    vListInsertLoop m value n (before k l₁) =
      some (before k (l₁ ++ l₂.takeWhile fun y => m.xItemValue y ≤ value)) := by
  induction l₂ generalizing l₁ n with
  | nil =>
      obtain ⟨n, rfl⟩ := Nat.exists_eq_succ_of_ne_zero (Nat.ne_of_gt hn)
      have hmax : ¬ portMaxDelay ≤ value := fun hle =>
        hvalue (UInt32.le_antisymm le_portMaxDelay hle)
      rw [vListInsertLoop, h.rings.next_eq hL, behind_nil, valueAt_head, if_neg hmax]
      simp
  | cons y l₂ ih =>
      obtain ⟨n, rfl⟩ := Nat.exists_eq_succ_of_ne_zero (Nat.ne_of_gt (Nat.zero_lt_of_lt hn))
      rw [vListInsertLoop, h.rings.next_eq hL, behind_cons, valueAt_item]
      by_cases hle : m.xItemValue y ≤ value
      · have hrest := @ih (l₁ ++ [y]) (by rw [hL]; simp) n (by simpa using hn)
        rw [before_concat] at hrest
        rw [if_pos hle, hrest, List.takeWhile_cons_of_pos (by simpa using hle)]
        simp
      · rw [if_neg hle, List.takeWhile_cons_of_neg (by simpa using hle), List.append_nil]

/-- **`vListInsert`**: the new item comes in behind all that are not larger. -/
theorem Lists.insertValue (h : Lists m Z) (hx : m.pxContainer x = none) (k : κ)
    (hmark : (Z k).passed = []) :
    ∃ m', vListInsert k x m = some m' ∧
      Lists m' (Function.update Z k ⟨[], insertSorted m.xItemValue x (Z k).items⟩) ∧
      m'.xItemValue = m.xItemValue ∧
      m'.pxContainer = Function.update m.pxContainer x (some k) := by
  have hL : (Z k).items = (Z k).items.takeWhile (fun y => m.xItemValue y ≤ m.xItemValue x) ++
      (Z k).items.dropWhile (fun y => m.xItemValue y ≤ m.xItemValue x) :=
    List.takeWhile_append_dropWhile.symm
  have hiterator : vListInsertIterator k x m = some (before k
      ((Z k).items.takeWhile fun y => m.xItemValue y ≤ m.xItemValue x)) := by
    rw [vListInsertIterator]
    split
    · next hmax =>
      have hall : ((Z k).items.takeWhile fun y => m.xItemValue y ≤ m.xItemValue x) =
          (Z k).items := by
        refine List.takeWhile_eq_self_iff.mpr fun y _ => decide_eq_true ?_
        rw [hmax]
        exact le_portMaxDelay
      have hprev := h.rings.prev_eq (k := k) (List.append_nil (Z k).items).symm
      rw [behind_nil] at hprev
      rw [hprev, hall]
    · next hmax =>
      have hloop := h.insertLoop hmax (k := k) (List.nil_append (Z k).items).symm
        (n := m.uxNumberOfItems k + 1) (by rw [h.count]; exact Nat.lt_succ_self _)
      rwa [before_nil, List.nil_append] at hloop
  generalize hl₁ : (Z k).items.takeWhile (fun y => m.xItemValue y ≤ m.xItemValue x) = l₁ at *
  generalize hl₂ : (Z k).items.dropWhile (fun y => m.xItemValue y ≤ m.xItemValue x) = l₂ at *
  have hmem := h.not_mem hx k
  rw [hL, List.mem_append, not_or] at hmem
  have hbefore : before k l₁ ≠ .item x := before_ne_item hmem.1
  have hbehind : behind k l₂ ≠ .item x := behind_ne_item hmem.2
  refine ⟨vListInsertBehind k x (before k l₁) m, by rw [vListInsert, hiterator]; rfl, ?_, rfl, rfl⟩
  refine h.insert hx hL ?_ (by rw [hmark]) ?_ ?_ rfl rfl rfl
  · rw [insertSorted, hl₁, hl₂]
    rfl
  · simp only [vListInsertBehind, h.rings.next_eq hL]
  · simp only [vListInsertBehind, h.rings.next_eq hL, Function.update_self]
    exact Function.update_comm hbehind _ _ _

/-! ### removal -/

/-- **`uxListRemove`**: an item is taken out. -/
theorem Lists.listRemove (h : Lists m Z) (hx : x ∈ (Z k).items) :
    ∃ m', uxListRemove x m = some ((Z k).items.length - 1, m') ∧
      Lists m' (Function.update Z k ((Z k).drop x)) ∧ m'.xItemValue = m.xItemValue ∧
      m'.pxContainer = Function.update m.pxContainer x none := by
  obtain ⟨l₁, l₂, hL⟩ := List.append_of_mem hx
  have hnodup := h.nodup k
  have hnot : x ∉ l₁ ∧ x ∉ l₂ := by
    rw [hL, List.nodup_middle, List.nodup_cons, List.mem_append, not_or] at hnodup
    exact hnodup.1
  have hdrop : ((Z k).drop x).items = l₁ ++ l₂ := by
    rw [Turns.items_drop (h.nodup k), hL, List.erase_append_right _ hnot.1, List.erase_cons_head]
  have hcontainer : m.pxContainer x = some k := (h.container x k).mpr hx
  have hL' : (Z k).items = (l₁ ++ [x]) ++ l₂ := by simp [hL]
  have hnext : m.pxNext (.item x) = behind k l₂ := by
    have := h.rings.next_eq hL'
    rwa [before_concat] at this
  have hprev : m.pxPrevious (.item x) = before k l₁ := by
    have := h.rings.prev_eq hL
    rwa [behind_cons] at this
  have hne : behind k l₂ ≠ .item x := behind_ne_item hnot.2
  -- the mark goes back where it was at the item
  have hmark : (if m.pxIndex k = .item x then before k l₁ else m.pxIndex k) =
      before k ((Z k).drop x).passed := by
    rw [h.index]
    generalize Z k = t at hL hnodup
    obtain ⟨p, a⟩ := t
    rcases List.eq_nil_or_concat' p with rfl | ⟨q, i, rfl⟩
    · rw [before_nil, if_neg (by simp)]
      rfl
    · rw [before_concat]
      by_cases hi : i = x
      · subst hi
        rw [if_pos rfl]
        simp only [Turns.items, List.append_assoc, List.singleton_append] at hL
        obtain ⟨rfl, -⟩ := (List.append_cons_inj_of_notMem hnot.1 hnot.2).mp hL.symm
        simp only [Turns.drop, List.erase_append_right _ hnot.1, List.erase_cons_head,
          List.append_nil]
      · rw [if_neg (by simpa using hi)]
        have herase : (q ++ [i]).erase x = q.erase x ++ [i] := by
          rw [List.erase_append]
          split
          · rfl
          · next hq =>
              rw [List.erase_of_not_mem hq, List.erase_of_not_mem (by simpa using Ne.symm hi)]
        simp only [Turns.drop, herase, before_concat]
  have hremove : uxListRemove x m = some ((Z k).items.length - 1, { m with
      pxNext := Function.update m.pxNext (before k l₁) (behind k l₂)
      pxPrevious := Function.update m.pxPrevious (behind k l₂) (before k l₁)
      pxContainer := Function.update m.pxContainer x none
      pxIndex := Function.update m.pxIndex k (before k ((Z k).drop x).passed)
      uxNumberOfItems := Function.update m.uxNumberOfItems k ((Z k).items.length - 1) }) := by
    rw [← hmark]
    simp only [uxListRemove, hcontainer, hnext, hprev, Function.update_of_ne hne.symm]
    by_cases hi : m.pxIndex k = .item x
    · simp only [if_pos hi, Function.update_self, h.count]
    · simp only [if_neg hi, Function.update_eq_self, Function.update_self, h.count]
  refine ⟨_, hremove, ⟨?_, fun k' => ?_, fun y k' => ?_, fun k' => ?_⟩, rfl, rfl⟩
  · have hitems : (fun k' => (Function.update Z k ((Z k).drop x) k').items) =
        Function.update (fun k => (Z k).items) k (l₁ ++ l₂) := by
      funext k'
      by_cases hk : k' = k
      · subst hk
        rw [Function.update_self, Function.update_self, hdrop]
      · rw [Function.update_of_ne hk, Function.update_of_ne hk]
    rw [hitems]
    exact h.rings.remove hL
  · by_cases hk : k' = k
    · subst hk
      simp only [Function.update_self]
    · simp only [Function.update_of_ne hk, h.index]
  · by_cases hy : y = x
    · subst hy
      simp only [Function.update_self]
      refine iff_of_false (by simp) fun hmem => ?_
      by_cases hk : k' = k
      · subst hk
        rw [Function.update_self, hdrop, List.mem_append] at hmem
        exact hmem.elim hnot.1 hnot.2
      · rw [Function.update_of_ne hk] at hmem
        exact hk (h.rings.apart.eq_of_mem hmem hx)
    · simp only [Function.update_of_ne hy, h.container]
      by_cases hk : k' = k
      · subst hk
        rw [Function.update_self, hdrop, hL]
        simp [hy]
      · rw [Function.update_of_ne hk]
  · by_cases hk : k' = k
    · subst hk
      simp only [Function.update_self, hdrop, hL, List.length_append, List.length_cons]
      omega
    · simp only [Function.update_of_ne hk, h.count]

/-! ### turns -/

/-- **`listGET_OWNER_OF_NEXT_ENTRY`**: the item whose turn is next. -/
theorem Lists.nextEntry (h : Lists m Z) {t : Turns ι} (hnext : (Z k).next = some (y, t)) :
    ∃ m', listGetNextEntry k m = some (y, m') ∧ Lists m' (Function.update Z k t) ∧
      m'.xItemValue = m.xItemValue ∧ m'.pxContainer = m.pxContainer := by
  have hindex := h.index k
  have hitems := Turns.items_next hnext
  have hentry : listGetNextEntry k m =
      some (y, { m with pxIndex := Function.update m.pxIndex k (before k t.passed) }) := by
    have hwalk : ∀ l₁ l₂, (Z k).items = l₁ ++ l₂ → m.pxNext (before k l₁) = behind k l₂ :=
      fun _ _ hL => h.rings.next_eq hL
    generalize Z k = s at hnext hindex hwalk
    obtain ⟨p, _ | ⟨z, a⟩⟩ := s
    · cases p with
      | nil => cases hnext
      | cons z p =>
          cases hnext
          -- past the marker
          have hend := hwalk (y :: p) [] rfl
          have hfirst := hwalk [] (y :: p) (by simp [Turns.items])
          rw [behind_nil] at hend
          rw [before_nil, behind_cons] at hfirst
          have hone : before k [y] = .item y := @before_concat _ _ k y []
          simp only [listGetNextEntry, hindex, hend, Function.update_self, if_true, hfirst,
            Function.update_idem, hone]
    · cases hnext
      have hstep := hwalk p (y :: a) rfl
      rw [behind_cons] at hstep
      simp only [listGetNextEntry, hindex, hstep, Function.update_self, reduceCtorEq, if_false,
        before_concat]
  refine ⟨_, hentry, ⟨?_, fun k' => ?_, fun z k' => ?_, fun k' => ?_⟩, rfl, rfl⟩
  · have hsame : (fun k' => (Function.update Z k t k').items) = fun k => (Z k).items := by
      funext k'
      by_cases hk : k' = k
      · subst hk
        rw [Function.update_self, hitems]
      · rw [Function.update_of_ne hk]
    rw [hsame]
    exact h.rings
  · by_cases hk : k' = k
    · subst hk
      simp only [Function.update_self]
    · simp only [Function.update_of_ne hk, h.index]
  · rw [h.container]
    by_cases hk : k' = k
    · subst hk
      rw [Function.update_self, hitems]
    · rw [Function.update_of_ne hk]
  · rw [h.count]
    by_cases hk : k' = k
    · subst hk
      rw [Function.update_self, hitems]
    · rw [Function.update_of_ne hk]

end

end Fr5080
