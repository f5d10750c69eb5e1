import Fr5080.Embedded.Chain
import Fr5080.Embedded.Run

/-!
# Fr5080.Os.Timer

The soft timers (`os_timer.c` of `fr5080_user_code_xip`): a singly linked list
of timers that a tick of 1 ms goes through.

A timer is named by its address.  The field `next` of all timers is kept in
`OsTimers.next`, the other fields in `OsTimers.timers`.  All functions mask
interrupts, so each is one step.  The loops walk the list for as long as there
are addresses; a walk that has not ended by then never ends (`none`).
`task_msg_alloc` is assumed to succeed; `posted` are the timers of all
messages `OS_TIMER_TRIGGER` so far.
-/

namespace Fr5080

open Embedded

/-! ## data -/

/-- The address of a timer, which is not `NULL`. -/
abbrev OsTimerAddr := { a : UInt32 // a ≠ 0 }

/-- `os_timer_type_t`. -/
inductive OsTimerType
  | typeSingle
  | typeRepeat
deriving DecidableEq, Repr

/-- `struct os_timer_t` without its field `next`. -/
structure OsTimer where
  callback : Nat
  arg : Nat
  lastPeriod : UInt32
  initialPeriod : UInt32
  running : Bool
  type : OsTimerType

/-- The timers in memory. -/
structure OsTimers where
  timerList : Option OsTimerAddr
  next : OsTimerAddr → Option OsTimerAddr
  timers : OsTimerAddr → OsTimer
  posted : List OsTimerAddr

/-- The length of a walk that does not end. -/
def osTimerWalk : Nat := 0x100000000

/-- `OS_TIMER_PRECISION`. -/
def osTimerPrecision : UInt32 := 1

/-! ## the functions -/

/-- The loop of `is_timer_in_list`. -/
def isTimerInListLoop (next : OsTimerAddr → Option OsTimerAddr) (ptimer : OsTimerAddr) :
    Nat → Option OsTimerAddr → Option Bool
  | 0, _ => none
  | _ + 1, none => some false
  | n + 1, some curr =>
      if curr = ptimer then some true else isTimerInListLoop next ptimer n (next curr)

/-- `is_timer_in_list`. -/
def isTimerInList (ptimer : OsTimerAddr) (s : OsTimers) : Option Bool :=
  isTimerInListLoop s.next ptimer osTimerWalk s.timerList

/-- `os_timer_init`. -/
def osTimerInit (timer : OsTimerAddr) (callback parg : Nat) (s : OsTimers) : Option OsTimers :=
  match isTimerInList timer s with
  | none => none
  | some true => some s
  | some false => some
      { s with
        timers := Function.update s.timers timer
          { s.timers timer with callback := callback, arg := parg, running := false }
        next := Function.update s.next timer s.timerList
        timerList := some timer }

/-- The loop of `os_timer_destroy`. -/
def osTimerDestroyLoop (ptimer : OsTimerAddr) (s : OsTimers) :
    Nat → Option OsTimerAddr → Option OsTimerAddr → Option OsTimers
  | 0, _, _ => none
  | _ + 1, none, _ => some s
  | n + 1, some curr, prev =>
      if curr = ptimer then
        match prev with
        | some prev => some { s with next := Function.update s.next prev (s.next curr) }
        | none => some { s with timerList := s.timerList.bind s.next }
      else osTimerDestroyLoop ptimer s n (s.next curr) (some curr)

/-- `os_timer_destroy`. -/
def osTimerDestroy (ptimer : OsTimerAddr) (s : OsTimers) : Option OsTimers :=
  osTimerDestroyLoop ptimer s osTimerWalk s.timerList none

/-- `os_timer_start`. -/
def osTimerStart (timer : OsTimerAddr) (periodMs : UInt32) (type : OsTimerType) (s : OsTimers) :
    Option OsTimers :=
  match isTimerInList timer s with
  | none => none
  | some false => some s
  | some true =>
      let periodMs := periodMs / osTimerPrecision
      let periodMs := if periodMs = 0 then 1 else periodMs
      some { s with
        timers := Function.update s.timers timer
          { s.timers timer with
            initialPeriod := periodMs, lastPeriod := periodMs, type := type, running := true } }

/-- `os_timer_stop`. -/
def osTimerStop (timer : OsTimerAddr) (s : OsTimers) : OsTimers :=
  { s with timers := Function.update s.timers timer { s.timers timer with running := false } }

/-- The body of the loop of `os_timer_check_list`. -/
def osTimerCheckOne (curr : OsTimerAddr) (s : OsTimers) : OsTimers :=
  if (s.timers curr).running then
    let timer := { s.timers curr with lastPeriod := (s.timers curr).lastPeriod - 1 }
    if timer.lastPeriod = 0 then
      { s with
        posted := s.posted ++ [curr]
        timers := Function.update s.timers curr
          (if timer.type = .typeRepeat then
            { timer with lastPeriod := timer.initialPeriod, running := true }
          else { timer with running := false }) }
    else { s with timers := Function.update s.timers curr timer }
  else s

/-- The loop of `os_timer_check_list`. -/
def osTimerCheckLoop : Nat → Option OsTimerAddr → OsTimers → Option OsTimers
  | 0, _, _ => none
  | _ + 1, none, s => some s
  | n + 1, some curr, s => osTimerCheckLoop n (s.next curr) (osTimerCheckOne curr s)

/-- `os_timer_check_list`. -/
def osTimerCheckList (s : OsTimers) : Option OsTimers :=
  osTimerCheckLoop osTimerWalk s.timerList s

/-! ## runs -/

/-- A call of one of the functions, or a tick. -/
inductive OsTimerOp
  | init (timer : OsTimerAddr) (callback parg : Nat)
  | destroy (timer : OsTimerAddr)
  | start (timer : OsTimerAddr) (periodMs : UInt32) (type : OsTimerType)
  | stop (timer : OsTimerAddr)
  | tick
deriving DecidableEq

/-- One step. -/
def osTimerStep (s : OsTimers) : OsTimerOp → Option OsTimers
  | .init timer callback parg => osTimerInit timer callback parg s
  | .destroy timer => osTimerDestroy timer s
  | .start timer periodMs type => osTimerStart timer periodMs type s
  | .stop timer => some (osTimerStop timer s)
  | .tick => osTimerCheckList s

/-- The empty list, over any contents of the memory. -/
def OsTimers.boot (next : OsTimerAddr → Option OsTimerAddr) (timers : OsTimerAddr → OsTimer) :
    OsTimers := ⟨none, next, timers, []⟩

/-! ## what the functions do -/

variable {s : OsTimers} {timer : OsTimerAddr} {head : Option OsTimerAddr} {l : List OsTimerAddr}

/-- A walk over timers ends before the addresses do. -/
theorem length_lt_osTimerWalk {next : OsTimerAddr → Option OsTimerAddr}
    (h : Linked next head l) : l.length < osTimerWalk := by
  have hpos : ∀ a : OsTimerAddr, 0 < a.1.toNat := fun a =>
    Nat.pos_of_ne_zero fun hzero => a.2 (UInt32.toNat_inj.mp hzero)
  have hinj : Function.Injective
      fun a : OsTimerAddr => (⟨a.1.toNat - 1, by have := a.1.toNat_lt; have := hpos a; omega⟩ :
        Fin (2 ^ 32 - 1)) := by
    intro a b hab
    have hval := congrArg Fin.val hab
    have := hpos a
    have := hpos b
    exact Subtype.ext (UInt32.toNat_inj.mp (by simp at hval; omega))
  have hle := h.length_le hinj
  rw [Fintype.card_fin] at hle
  unfold osTimerWalk
  omega

/-- The loop finds a timer exactly if it is in the list. -/
theorem isTimerInListLoop_eq {next : OsTimerAddr → Option OsTimerAddr} {n : Nat}
    (h : Linked next head l) (hn : l.length < n) :
    isTimerInListLoop next timer n head = some (decide (timer ∈ l)) := by
  induction l generalizing head n with
  | nil =>
      obtain ⟨n, rfl⟩ := Nat.exists_eq_succ_of_ne_zero (Nat.ne_zero_of_lt hn)
      rw [linked_nil.mp h]
      simp [isTimerInListLoop]
  | cons a l ih =>
      obtain ⟨n, rfl⟩ := Nat.exists_eq_succ_of_ne_zero (Nat.ne_zero_of_lt hn)
      rw [h.1, isTimerInListLoop]
      by_cases heq : a = timer
      · simp [heq]
      · rw [if_neg heq, ih h.2 (by simpa using hn)]
        simp [Ne.symm heq]

/-- `is_timer_in_list` returns, with whether the timer is in the list. -/
theorem isTimerInList_eq (h : Linked s.next s.timerList l) :
    isTimerInList timer s = some (decide (timer ∈ l)) :=
  isTimerInListLoop_eq h (length_lt_osTimerWalk h)

/-- A timer that is not in the list becomes its head, not running. -/
theorem osTimerInit_of_not_mem (h : Linked s.next s.timerList l) (ht : timer ∉ l)
    (callback parg : Nat) :
    osTimerInit timer callback parg s = some
      { s with
        timers := Function.update s.timers timer
          { s.timers timer with callback := callback, arg := parg, running := false }
        next := Function.update s.next timer s.timerList
        timerList := some timer } := by
  rw [osTimerInit, isTimerInList_eq h, decide_eq_false ht]

/-- A timer that is in the list is not initialised again. -/
theorem osTimerInit_of_mem (h : Linked s.next s.timerList l) (ht : timer ∈ l)
    (callback parg : Nat) : osTimerInit timer callback parg s = some s := by
  rw [osTimerInit, isTimerInList_eq h, decide_eq_true ht]

/-- `period_ms`, where a period of 0 is a period of 1. -/
def osTimerPeriod (periodMs : UInt32) : UInt32 :=
  if periodMs / osTimerPrecision = 0 then 1 else periodMs / osTimerPrecision

/-- A timer in the list gets its period and runs. -/
theorem osTimerStart_of_mem (h : Linked s.next s.timerList l) (ht : timer ∈ l)
    (periodMs : UInt32) (type : OsTimerType) :
    osTimerStart timer periodMs type s = some
      { s with
        timers := Function.update s.timers timer
          { s.timers timer with
            initialPeriod := osTimerPeriod periodMs
            lastPeriod := osTimerPeriod periodMs
            type := type
            running := true } } := by
  rw [osTimerStart, isTimerInList_eq h, decide_eq_true ht]
  rfl

/-- A timer that is not in the list is not started. -/
theorem osTimerStart_of_not_mem (h : Linked s.next s.timerList l) (ht : timer ∉ l)
    (periodMs : UInt32) (type : OsTimerType) : osTimerStart timer periodMs type s = some s := by
  rw [osTimerStart, isTimerInList_eq h, decide_eq_false ht]

/-- The loop of `os_timer_destroy` behind the nodes `before`, which are not the timer. -/
theorem osTimerDestroyLoop_eq {before : List OsTimerAddr} {n : Nat}
    (h : Linked s.next s.timerList (before ++ l)) (hn : l.length < n) (hbefore : timer ∉ before) :
    ∃ s', osTimerDestroyLoop timer s n l.head? before.getLast? = some s' ∧
      Linked s'.next s'.timerList (before ++ l.erase timer) ∧
      s'.timers = s.timers ∧ s'.posted = s.posted := by
  induction l generalizing before n with
  | nil =>
      obtain ⟨n, rfl⟩ := Nat.exists_eq_succ_of_ne_zero (Nat.ne_zero_of_lt hn)
      exact ⟨s, rfl, h, rfl, rfl⟩
  | cons a l ih =>
      obtain ⟨n, rfl⟩ := Nat.exists_eq_succ_of_ne_zero (Nat.ne_zero_of_lt hn)
      simp only [List.head?_cons, osTimerDestroyLoop]
      by_cases heq : a = timer
      · subst heq
        rw [if_pos rfl, List.erase_cons_head]
        cases List.eq_nil_or_concat' before with
        | inl hnil =>
            subst hnil
            refine ⟨_, rfl, ?_, rfl, rfl⟩
            rw [List.nil_append] at h
            rw [h.1]
            exact h.2
        | inr hlast =>
            obtain ⟨before, b, rfl⟩ := hlast
            rw [List.append_assoc] at h
            simp only [List.getLast?_concat]
            exact ⟨_, rfl, by simpa using h.unlink, rfl, rfl⟩
      · have hnext : s.next a = l.head? := h.drop.2.head_eq
        have hsplit : before ++ a :: l = before ++ [a] ++ l := by simp
        rw [hsplit] at h
        obtain ⟨s', hloop, hlist, hrest⟩ := ih h (by simpa using hn)
          (by simp [hbefore, Ne.symm heq])
        rw [List.getLast?_concat, ← hnext] at hloop
        rw [if_neg heq, List.erase_cons_tail (beq_eq_false_iff_ne.mpr heq ▸ Bool.false_ne_true)]
        exact ⟨s', hloop, by simpa using hlist, hrest⟩

/-- `os_timer_destroy` takes the timer out of the list and leaves everything else. -/
theorem osTimerDestroy_eq (h : Linked s.next s.timerList l) :
    ∃ s', osTimerDestroy timer s = some s' ∧ Linked s'.next s'.timerList (l.erase timer) ∧
      s'.timers = s.timers ∧ s'.posted = s.posted := by
  have hloop := @osTimerDestroyLoop_eq s timer l [] osTimerWalk h (length_lt_osTimerWalk h)
    List.not_mem_nil
  rwa [← h.head_eq] at hloop

/-! ## the tick -/

/-- Whether a tick posts the message of a timer. -/
def OsTimer.expires (timer : OsTimer) : Bool := timer.running && timer.lastPeriod == 1

/-- A timer after a tick. -/
def OsTimer.ticked (timer : OsTimer) : OsTimer :=
  if timer.expires then
    match timer.type with
    | .typeRepeat => { timer with lastPeriod := timer.initialPeriod }
    | .typeSingle => { timer with lastPeriod := 0, running := false }
  else if timer.running then { timer with lastPeriod := timer.lastPeriod - 1 }
  else timer

/-- What a tick does to one timer. -/
theorem osTimerCheckOne_eq (curr : OsTimerAddr) (s : OsTimers) :
    osTimerCheckOne curr s =
      { s with
        timers := Function.update s.timers curr (s.timers curr).ticked
        posted := s.posted ++ if (s.timers curr).expires then [curr] else [] } := by
  have hzero : (s.timers curr).lastPeriod - 1 = 0 ↔ (s.timers curr).lastPeriod = 1 := by
    rw [UInt32.sub_eq_iff_eq_add, UInt32.zero_add]
  by_cases hrunning : (s.timers curr).running
  · by_cases hlast : (s.timers curr).lastPeriod = 1
    · cases htype : (s.timers curr).type with
      | typeSingle =>
          simp [osTimerCheckOne, OsTimer.ticked, OsTimer.expires, hrunning, hlast, htype]
      | typeRepeat =>
          simp [osTimerCheckOne, OsTimer.ticked, OsTimer.expires, hrunning, hlast, htype]
    · simp [osTimerCheckOne, OsTimer.ticked, OsTimer.expires, hrunning, hlast, hzero]
  · simp [osTimerCheckOne, OsTimer.ticked, OsTimer.expires, hrunning]

/-- The loop of `os_timer_check_list` ticks the timers of the list. -/
theorem osTimerCheckLoop_eq {n : Nat} (h : Linked s.next head l) (hn : l.length < n) :
    osTimerCheckLoop n head s = some
      { s with
        timers := fun a => if a ∈ l then (s.timers a).ticked else s.timers a
        posted := s.posted ++ l.filter fun a => (s.timers a).expires } := by
  have hnodup := h.nodup
  induction l generalizing head n s with
  | nil =>
      obtain ⟨n, rfl⟩ := Nat.exists_eq_succ_of_ne_zero (Nat.ne_zero_of_lt hn)
      rw [linked_nil.mp h]
      simp [osTimerCheckLoop]
  | cons a l ih =>
      obtain ⟨n, rfl⟩ := Nat.exists_eq_succ_of_ne_zero (Nat.ne_zero_of_lt hn)
      obtain ⟨ha, hnodup⟩ := List.nodup_cons.mp hnodup
      have hother : ∀ b ∈ l, Function.update s.timers a (s.timers a).ticked b = s.timers b := by
        intro b hb
        refine Function.update_of_ne ?_ _ _
        rintro rfl
        exact ha hb
      rw [h.1, osTimerCheckLoop, osTimerCheckOne_eq, ih (s := { s with
          timers := Function.update s.timers a (s.timers a).ticked
          posted := s.posted ++ if (s.timers a).expires then [a] else [] })
        h.2 (by simpa using hn) hnodup]
      have hposted : l.filter (fun b =>
          (Function.update s.timers a (s.timers a).ticked b).expires) =
            l.filter fun b => (s.timers b).expires :=
        List.filter_congr fun b hb => by rw [hother b hb]
      have htimers : ∀ b, (if b ∈ l then (Function.update s.timers a (s.timers a).ticked b).ticked
          else Function.update s.timers a (s.timers a).ticked b) =
            if b ∈ a :: l then (s.timers b).ticked else s.timers b := by
        intro b
        by_cases hb : b ∈ l
        · simp [hb, hother b hb]
        · by_cases heq : b = a
          · subst heq
            simp [hb]
          · simp [hb, heq]
      simp only [hposted, htimers, List.append_assoc]
      by_cases hexpires : (s.timers a).expires
      · simp [hexpires]
      · simp [hexpires]

/-- `os_timer_check_list`. -/
theorem osTimerCheckList_eq (h : Linked s.next s.timerList l) :
    osTimerCheckList s = some
      { s with
        timers := fun a => if a ∈ l then (s.timers a).ticked else s.timers a
        posted := s.posted ++ l.filter fun a => (s.timers a).expires } :=
  osTimerCheckLoop_eq h (length_lt_osTimerWalk h)

end Fr5080
