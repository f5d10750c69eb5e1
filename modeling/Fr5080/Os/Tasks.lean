import Fr5080.Embedded.Deque
import Fr5080.Embedded.Mem
import Fr5080.Embedded.Run

/-!
# Fr5080.Os.Tasks

The task queue (`tasks.c` and `co_list.c` of `fr5080_user_code_xip`): a list of
messages that interrupts and handlers put messages into, at its end or at its
front, and that `task_schedule` takes them out of.

A message is named by its address.  The functions of the queue mask interrupts,
so each is one step; between two steps of `task_schedule` anything may be
inserted, also by the handler that runs.
-/

namespace Fr5080

open Embedded

/-! ## `co_list.c` -/

/-- `struct co_list`, and the field `next` of all list headers. -/
structure CoList (α : Type*) where
  first : Option α
  last : Option α
  next : α → Option α

section CoList

variable {α : Type*}

/-- `co_list_init`. -/
def coListInit (list : CoList α) : CoList α := { list with first := none, last := none }

/-- `co_list_is_empty`. -/
def coListIsEmpty (list : CoList α) : Bool := list.first.isNone

/-- `co_list_pop_front`. -/
def coListPopFront (list : CoList α) : Option α × CoList α :=
  match list.first with
  | none => (none, list)
  | some element =>
      let list := { list with first := list.next element }
      (some element, if list.first.isNone then { list with last := list.first } else list)

variable [DecidableEq α]

/-- `co_list_push_back`, which faults where `last` is `NULL` and `first` is not. -/
def coListPushBack (listHdr : α) (list : CoList α) : Option (CoList α) :=
  (if coListIsEmpty list then some { list with first := some listHdr }
    else list.last.map fun last =>
      { list with next := Function.update list.next last (some listHdr) }).map fun list =>
        { list with last := some listHdr, next := Function.update list.next listHdr none }

/-- `co_list_push_front`. -/
def coListPushFront (listHdr : α) (list : CoList α) : CoList α :=
  let list := if coListIsEmpty list then { list with last := some listHdr } else list
  { list with next := Function.update list.next listHdr list.first, first := some listHdr }

end CoList

/-! ## `tasks.c` -/

/-- The address of a message, which is not `NULL`. -/
abbrev TaskMsgAddr := { a : UInt32 // a ≠ 0 }

/-- `TASK_ID_DEFAULT`. -/
def taskIdDefault : UInt32 := 0xFFFFFFFF

/-- `struct task_msg_handler_t`; a function is `none` where the pointer is `NULL`. -/
structure TaskMsgHandler (φ : Type*) where
  id : UInt32
  func : Option φ

/-- `task_init`. -/
def taskInit (taskList : CoList TaskMsgAddr) : CoList TaskMsgAddr := coListInit taskList

/-- `task_msg_insert`. -/
def taskMsgInsert (taskMsg : TaskMsgAddr) (taskList : CoList TaskMsgAddr) :
    Option (CoList TaskMsgAddr) :=
  coListPushBack taskMsg taskList

/-- `task_msg_insert_front`. -/
def taskMsgInsertFront (taskMsg : TaskMsgAddr) (taskList : CoList TaskMsgAddr) :
    CoList TaskMsgAddr :=
  coListPushFront taskMsg taskList

/-- `task_msg_get`. -/
def taskMsgGet (taskList : CoList TaskMsgAddr) : Option TaskMsgAddr × CoList TaskMsgAddr :=
  coListPopFront taskList

/-- The loop of `task_get_handler` from `func_table` on, with `n` entries to go. -/
def taskGetHandlerLoop {φ : Type*} (taskId : UInt32) (table : Nat → TaskMsgHandler φ) :
    Nat → Nat → Option φ
  | _, 0 => none
  | funcTable, n + 1 =>
      if (table funcTable).id = taskId ∨ (table funcTable).id = taskIdDefault then
        (table funcTable).func
      else taskGetHandlerLoop taskId table (funcTable + 1) n

/-- `task_get_handler`. -/
def taskGetHandler {φ : Type*} (taskId : UInt32) (funcTable : Nat → TaskMsgHandler φ)
    (tableSize : UInt32) : Option φ :=
  taskGetHandlerLoop taskId funcTable 0 tableSize.toNat

/-! ## `task_schedule` -/

/-- A message as it is inserted. -/
structure TaskMsg where
  addr : TaskMsgAddr
  id : UInt32
deriving DecidableEq

/-- Where `task_schedule` is: before the next message is taken, before the handler of
`msg` is looked up, before `func` is called, and before `msg` is freed.  The handler runs
before the last. -/
inductive SchedulePoint (φ : Type*)
  | get
  | lookup (msg : TaskMsgAddr)
  | call (func : φ) (msg : TaskMsgAddr)
  | free (msg : TaskMsgAddr)

/-- The message that `task_schedule` works on. -/
def SchedulePoint.msg {φ : Type*} : SchedulePoint φ → Option TaskMsgAddr
  | .get => none
  | .lookup msg => some msg
  | .call _ msg => some msg
  | .free msg => some msg

/-- What is done with messages. -/
inductive ScheduleAction (φ : Type*)
  | inserted (m : TaskMsg)
  | insertedFront (m : TaskMsg)
  | got (m : TaskMsg)
  | handed (func : φ) (m : TaskMsg)
  | freed (m : TaskMsg)

/-- The queue with the field `id` of all messages, and `task_schedule`.  `log` is a history
variable, all that has been done with messages. -/
structure TaskSchedule (φ : Type*) where
  taskList : CoList TaskMsgAddr
  id : TaskMsgAddr → UInt32
  point : SchedulePoint φ
  log : List (ScheduleAction φ)

/-- What can happen: a message is allocated with an id, or inserted; `task_schedule` goes on. -/
inductive ScheduleEvent
  | alloc (msg : TaskMsgAddr) (id : UInt32)
  | insert (msg : TaskMsgAddr)
  | insertFront (msg : TaskMsgAddr)
  | schedule

section Schedule

variable {φ : Type*} (funcTable : Nat → TaskMsgHandler φ) (tableSize : UInt32)

/-- A message, with the id that it has now. -/
def TaskSchedule.read (s : TaskSchedule φ) (msg : TaskMsgAddr) : TaskMsg := ⟨msg, s.id msg⟩

/-- The next step of `task_schedule`. -/
def taskSchedule (s : TaskSchedule φ) : TaskSchedule φ :=
  match s.point with
  | .get => match taskMsgGet s.taskList with
    | (none, taskList) => { s with taskList := taskList }
    | (some msg, taskList) =>
        { s with
          taskList := taskList, point := .lookup msg, log := s.log ++ [.got (s.read msg)] }
  | .lookup msg => match taskGetHandler (s.id msg) funcTable tableSize with
    | some func => { s with point := .call func msg }
    | none => { s with point := .free msg }
  | .call func msg =>
      { s with point := .free msg, log := s.log ++ [.handed func (s.read msg)] }
  | .free msg => { s with point := .get, log := s.log ++ [.freed (s.read msg)] }

/-- One step of the system. -/
def scheduleStep (s : TaskSchedule φ) : ScheduleEvent → Option (TaskSchedule φ)
  | .alloc msg id => some { s with id := Function.update s.id msg id }
  | .insert msg => (taskMsgInsert msg s.taskList).map fun taskList =>
      { s with taskList := taskList, log := s.log ++ [.inserted (s.read msg)] }
  | .insertFront msg => some
      { s with
        taskList := taskMsgInsertFront msg s.taskList
        log := s.log ++ [.insertedFront (s.read msg)] }
  | .schedule => some (taskSchedule funcTable tableSize s)

/-- `task_schedule` is started behind `task_init`. -/
def scheduleStart (taskList : CoList TaskMsgAddr) (id : TaskMsgAddr → UInt32) : TaskSchedule φ :=
  ⟨taskInit taskList, id, .get, []⟩

end Schedule

/-! ## the queue is a deque -/

/-- What a list denotes. -/
def CoList.Denotes {α : Type*} (list : CoList α) (l : List α) : Prop :=
  LinkedDeque list.next list.first list.last l

section CoList

variable {α : Type*} {list : CoList α} {l : List α} {a : α}

/-- `co_list_init` makes the empty list. -/
theorem coListInit_denotes (list : CoList α) : (coListInit list).Denotes [] :=
  linkedDeque_nil list.next

/-- `co_list_pop_front` returns the head and leaves the tail. -/
theorem coListPopFront_denotes (h : list.Denotes l) :
    (coListPopFront list).1 = l.head? ∧ (coListPopFront list).2.Denotes l.tail := by
  have hfirst := h.first_eq
  rw [coListPopFront]
  cases hlist : list.first with
  | none =>
      obtain rfl : l = [] := h.first_eq_none_iff.mp hlist
      exact ⟨rfl, h⟩
  | some a =>
      rw [CoList.Denotes, hlist] at h
      obtain ⟨l', rfl, hrest⟩ := h.popFront
      refine ⟨rfl, ?_⟩
      cases hnext : list.next a with
      | none => simpa [CoList.Denotes, hnext] using hrest
      | some b => simpa [CoList.Denotes, hnext] using hrest

variable [DecidableEq α]

/-- `co_list_push_back` appends an element that is not in the list. -/
theorem coListPushBack_denotes (h : list.Denotes l) (ha : a ∉ l) :
    ∃ list', coListPushBack a list = some list' ∧ list'.Denotes (l ++ [a]) := by
  cases hlist : list.first with
  | none =>
      obtain rfl : l = [] := h.first_eq_none_iff.mp hlist
      refine ⟨⟨some a, some a, Function.update list.next a none⟩, ?_, linkedDeque_singleton _ a⟩
      rw [coListPushBack, coListIsEmpty, hlist]
      rfl
  | some first =>
      have hne : l ≠ [] := by
        rintro rfl
        rw [h.first_eq_none_iff.mpr rfl] at hlist
        cases hlist
      have hlast : list.last = some (l.getLast hne) := by
        rw [h.last_eq, List.getLast?_eq_some_getLast hne]
      rw [CoList.Denotes, hlist, hlast] at h
      refine ⟨_, by rw [coListPushBack, coListIsEmpty, hlist, hlast]; rfl, ?_⟩
      exact h.pushBack ha

/-- `co_list_push_front` puts one in front. -/
theorem coListPushFront_denotes (h : list.Denotes l) (ha : a ∉ l) :
    (coListPushFront a list).Denotes (a :: l) := by
  have hpush := h.pushFront ha
  rw [CoList.Denotes, coListPushFront, coListIsEmpty]
  cases hlist : list.first with
  | none => simpa [hlist] using hpush
  | some first => simpa [hlist] using hpush

end CoList

/-- An operation of the deque on the queue, with the answers so far. -/
def taskListStep : CoList TaskMsgAddr × List (Option TaskMsgAddr) → DequeOp TaskMsgAddr →
    Option (CoList TaskMsgAddr × List (Option TaskMsgAddr))
  | (taskList, answers), .pushBack msg =>
      (taskMsgInsert msg taskList).map fun taskList => (taskList, answers)
  | (taskList, answers), .pushFront msg => some (taskMsgInsertFront msg taskList, answers)
  | (taskList, answers), .popFront =>
      some ((taskMsgGet taskList).2, answers ++ [(taskMsgGet taskList).1])

section TaskList

variable {taskList : CoList TaskMsgAddr} {l : List TaskMsgAddr}

/-- Each operation does what it does to the list. -/
theorem taskListStep_denotes (h : taskList.Denotes l) {op : DequeOp TaskMsgAddr}
    (hop : op.Fresh l) (answers : List (Option TaskMsgAddr)) :
    ∃ taskList', taskListStep (taskList, answers) op =
      some (taskList', answers ++ op.answer l) ∧ taskList'.Denotes (op.apply l) := by
  cases op with
  | pushBack msg =>
      obtain ⟨taskList', hpush, hdenotes⟩ := coListPushBack_denotes h hop
      refine ⟨taskList', ?_, hdenotes⟩
      rw [taskListStep, taskMsgInsert, hpush, DequeOp.answer, List.append_nil]
      · rfl
      · intro h
        cases h
  | pushFront msg =>
      refine ⟨_, ?_, coListPushFront_denotes h hop⟩
      rw [taskListStep, DequeOp.answer, List.append_nil]
      · rfl
      · intro h
        cases h
  | popFront =>
      obtain ⟨hanswer, hdenotes⟩ := coListPopFront_denotes h
      refine ⟨_, ?_, hdenotes⟩
      rw [taskListStep, taskMsgGet, hanswer]
      rfl

/-- And so does each sequence of operations. -/
theorem run_taskListStep {ops : List (DequeOp TaskMsgAddr)} (h : taskList.Denotes l)
    (hops : FreshOps l ops) (answers : List (Option TaskMsgAddr)) :
    ∃ taskList', run taskListStep (taskList, answers) ops =
      some (taskList', answers ++ dequeAnswers l ops) ∧ taskList'.Denotes (dequeAfter l ops) := by
  induction ops generalizing taskList l answers with
  | nil => exact ⟨taskList, by rw [dequeAnswers, List.append_nil]; rfl, h⟩
  | cons op ops ih =>
      obtain ⟨taskList₁, hstep, hdenotes⟩ := taskListStep_denotes h hops.1 answers
      obtain ⟨taskList', hrun, hdenotes'⟩ := ih hdenotes hops.2 (answers ++ op.answer l)
      rw [List.append_assoc] at hrun
      exact ⟨taskList', run_cons_eq_some.mpr ⟨_, hstep, hrun⟩, hdenotes'⟩

/-- There is nothing to get from an empty queue. -/
theorem taskMsgGet_nil (h : taskList.Denotes []) : taskMsgGet taskList = (none, taskList) := by
  rw [taskMsgGet, coListPopFront, h.first_eq_none_iff.mpr rfl]

/-- The first message is taken from the queue. -/
theorem taskMsgGet_cons {msg : TaskMsgAddr} (h : taskList.Denotes (msg :: l)) :
    ∃ taskList', taskMsgGet taskList = (some msg, taskList') ∧ taskList'.Denotes l := by
  obtain ⟨hfront, hrest⟩ := coListPopFront_denotes h
  exact ⟨_, Prod.ext hfront rfl, hrest⟩

/-- `task_msg_get` returns `NULL` exactly when there is no message. -/
theorem taskMsgGet_eq_none_iff (h : taskList.Denotes l) :
    (taskMsgGet taskList).1 = none ↔ l = [] := by
  rw [taskMsgGet, (coListPopFront_denotes h).1, List.head?_eq_none_iff]

end TaskList

/-! ## what has been done with messages -/

section Log

variable {φ : Type*}

/-- What an action does to the queue. -/
def ScheduleAction.deque : ScheduleAction φ → List (DequeOp TaskMsg)
  | .inserted m => [.pushBack m]
  | .insertedFront m => [.pushFront m]
  | .got _ => [.popFront]
  | _ => []

/-- The message that an action takes out of the queue. -/
def ScheduleAction.gotten : ScheduleAction φ → List TaskMsg
  | .got m => [m]
  | _ => []

/-- An action of `task_schedule`. -/
def ScheduleAction.own : ScheduleAction φ → List (ScheduleAction φ)
  | .inserted _ => []
  | .insertedFront _ => []
  | action => [action]

/-- The operations on the queue, as a deque. -/
def dequeOps (log : List (ScheduleAction φ)) : List (DequeOp TaskMsg) :=
  log.flatMap ScheduleAction.deque

/-- The messages that have been inserted. -/
def inserted (log : List (ScheduleAction φ)) : List TaskMsg :=
  (dequeOps log).flatMap DequeOp.added

/-- The messages that a deque has now. -/
def queued (log : List (ScheduleAction φ)) : List TaskMsg := dequeAfter [] (dequeOps log)

/-- The messages that `task_schedule` has taken, in order. -/
def gotten (log : List (ScheduleAction φ)) : List TaskMsg := log.flatMap ScheduleAction.gotten

/-- What `task_schedule` has done. -/
def scheduled (log : List (ScheduleAction φ)) : List (ScheduleAction φ) :=
  log.flatMap ScheduleAction.own

/-- The function of the first entry with the id or with `TASK_ID_DEFAULT`. -/
def firstHandler (funcTable : Nat → TaskMsgHandler φ) (tableSize id : UInt32) : Option φ :=
  ((slice funcTable 0 tableSize.toNat).find? fun entry =>
    entry.id = id ∨ entry.id = taskIdDefault).bind TaskMsgHandler.func

/-- What is to be done with a message: it is taken, handed to its handler, and freed. -/
def served (funcTable : Nat → TaskMsgHandler φ) (tableSize : UInt32) (m : TaskMsg) :
    List (ScheduleAction φ) :=
  .got m :: ((firstHandler funcTable tableSize m.id).toList.map (.handed · m) ++ [.freed m])

theorem queued_append (log log' : List (ScheduleAction φ)) :
    queued (log ++ log') = dequeAfter (queued log) (dequeOps log') := by
  rw [queued, dequeOps, List.flatMap_append, dequeAfter_append]
  rfl

theorem gotten_append (log log' : List (ScheduleAction φ)) :
    gotten (log ++ log') = gotten log ++ gotten log' :=
  List.flatMap_append

theorem scheduled_concat (log : List (ScheduleAction φ)) (action : ScheduleAction φ) :
    scheduled (log ++ [action]) = scheduled log ++ action.own := by
  rw [scheduled, List.flatMap_append, List.flatMap_singleton]
  rfl

section

variable {action : ScheduleAction φ}

/-- An action that is none on the queue. -/
theorem dequeOps_concat (h : action.deque = []) (log : List (ScheduleAction φ)) :
    dequeOps (log ++ [action]) = dequeOps log := by
  rw [dequeOps, List.flatMap_append, List.flatMap_singleton, h, List.append_nil]
  rfl

/-- Such an action leaves the queue as it is. -/
theorem queued_concat (h : action.deque = []) (log : List (ScheduleAction φ)) :
    queued (log ++ [action]) = queued log := by
  rw [queued, dequeOps_concat h, queued]

/-- An action that takes no message. -/
theorem gotten_concat (h : action.gotten = []) (log : List (ScheduleAction φ)) :
    gotten (log ++ [action]) = gotten log := by
  rw [gotten, List.flatMap_append, List.flatMap_singleton, h, List.append_nil]
  rfl

end

theorem dequeAnswers_append_log (log log' : List (ScheduleAction φ)) :
    dequeAnswers [] (dequeOps (log ++ log')) =
      dequeAnswers [] (dequeOps log) ++ dequeAnswers (queued log) (dequeOps log') := by
  rw [dequeOps, List.flatMap_append, dequeAnswers_append]
  rfl

/-- The loop finds the first entry for the message, or for all messages. -/
theorem taskGetHandlerLoop_eq (id : UInt32) (table : Nat → TaskMsgHandler φ) (i n : Nat) :
    taskGetHandlerLoop id table i n =
      ((slice table i n).find? fun entry =>
        entry.id = id ∨ entry.id = taskIdDefault).bind TaskMsgHandler.func := by
  induction n generalizing i with
  | zero => rfl
  | succ n ih =>
      rw [taskGetHandlerLoop, slice_succ, List.find?_cons]
      by_cases hid : (table i).id = id ∨ (table i).id = taskIdDefault
      · rw [if_pos hid, decide_eq_true hid]
        rfl
      · rw [if_neg hid, decide_eq_false hid]
        exact ih (i + 1)

/-- `task_get_handler` finds the first entry. -/
theorem taskGetHandler_eq (id : UInt32) (funcTable : Nat → TaskMsgHandler φ)
    (tableSize : UInt32) :
    taskGetHandler id funcTable tableSize = firstHandler funcTable tableSize id :=
  taskGetHandlerLoop_eq id funcTable 0 tableSize.toNat

end Log

/-! ## `task_schedule` serves the deque -/

section Schedule

variable {φ : Type*} (funcTable : Nat → TaskMsgHandler φ) (tableSize : UInt32)

/-- A message that is inserted is not in the queue, and one that is allocated is not in use. -/
def TaskSchedule.Allowed (s : TaskSchedule φ) : ScheduleEvent → Prop
  | .alloc msg _ => msg ∉ (queued s.log).map TaskMsg.addr ∧ s.point.msg ≠ some msg
  | .insert msg => msg ∉ (queued s.log).map TaskMsg.addr
  | .insertFront msg => msg ∉ (queued s.log).map TaskMsg.addr
  | .schedule => True

instance TaskSchedule.Allowed.decidable (s : TaskSchedule φ) :
    ∀ e, Decidable (s.Allowed e)
  | .alloc _ _ => inferInstanceAs (Decidable (_ ∧ _))
  | .insert _ => inferInstanceAs (Decidable (_ ∉ _))
  | .insertFront _ => inferInstanceAs (Decidable (_ ∉ _))
  | .schedule => isTrue trivial

/-- The message that `task_schedule` works on. -/
def TaskSchedule.held (s : TaskSchedule φ) : List TaskMsg := (s.point.msg.map s.read).toList

/-- What has been done with it. -/
def TaskSchedule.progress (s : TaskSchedule φ) : List (ScheduleAction φ) :=
  match s.point with
  | .get => []
  | .lookup msg => [.got (s.read msg)]
  | .call _ msg => [.got (s.read msg)]
  | .free msg => .got (s.read msg) ::
      (firstHandler funcTable tableSize (s.id msg)).toList.map (.handed · (s.read msg))

/-- The linked list denotes the deque, and what `task_schedule` has done is to serve the
messages that the deque gave it, in this order. -/
structure TaskSchedule.Refines (s : TaskSchedule φ) : Prop where
  denotes : s.taskList.Denotes ((queued s.log).map TaskMsg.addr)
  ids : ∀ m ∈ queued s.log, s.read m.addr = m
  answers : dequeAnswers [] (dequeOps s.log) = (gotten s.log).map some
  serves : ∃ done, gotten s.log = done ++ s.held ∧
    scheduled s.log = done.flatMap (served funcTable tableSize) ++ s.progress funcTable tableSize
  handler : ∀ func msg, s.point = .call func msg →
    firstHandler funcTable tableSize (s.id msg) = some func

variable {funcTable tableSize} {s : TaskSchedule φ}

theorem scheduleStart_refines (taskList : CoList TaskMsgAddr) (id : TaskMsgAddr → UInt32) :
    (scheduleStart taskList id : TaskSchedule φ).Refines funcTable tableSize where
  denotes := coListInit_denotes taskList
  ids := fun m hm => absurd hm List.not_mem_nil
  answers := rfl
  serves := ⟨[], rfl, rfl⟩
  handler := fun func msg h => by cases h

/-- An allocation writes a message that is not in use. -/
theorem TaskSchedule.Refines.alloc (h : s.Refines funcTable tableSize) {msg : TaskMsgAddr}
    (hqueued : msg ∉ (queued s.log).map TaskMsg.addr) (hpoint : s.point.msg ≠ some msg)
    (id : UInt32) :
    TaskSchedule.Refines funcTable tableSize
      { s with id := Function.update s.id msg id } := by
  obtain ⟨taskList, id₀, point, log⟩ := s
  have hid : ∀ msg', msg' ≠ msg → Function.update id₀ msg id msg' = id₀ msg' :=
    fun msg' hne => Function.update_of_ne hne _ _
  have hids : ∀ m ∈ queued log, (⟨m.addr, Function.update id₀ msg id m.addr⟩ : TaskMsg) = m := by
    intro m hm
    rw [hid m.addr fun heq => hqueued (heq ▸ List.mem_map_of_mem hm)]
    exact h.ids m hm
  have hserves := h.serves
  have hhandler := h.handler
  refine ⟨h.denotes, hids, h.answers, ?_, ?_⟩
  · cases point with
    | get => exact hserves
    | lookup msg' =>
        have hne : msg' ≠ msg := fun heq => hpoint (congrArg some heq)
        simpa [held, progress, read, SchedulePoint.msg, hid msg' hne] using hserves
    | call func msg' =>
        have hne : msg' ≠ msg := fun heq => hpoint (congrArg some heq)
        simpa [held, progress, read, SchedulePoint.msg, hid msg' hne] using hserves
    | free msg' =>
        have hne : msg' ≠ msg := fun heq => hpoint (congrArg some heq)
        simpa [held, progress, read, SchedulePoint.msg, hid msg' hne] using hserves
  · intro func msg' hcall
    subst hcall
    have hne : msg' ≠ msg := fun heq => hpoint (congrArg some heq)
    simpa [hid msg' hne] using hhandler func msg' rfl

/-- An action on the queue that `task_schedule` has no part in. -/
theorem TaskSchedule.Refines.queueAction (h : s.Refines funcTable tableSize)
    {taskList : CoList TaskMsgAddr} {action : ScheduleAction φ} {op : DequeOp TaskMsg}
    (hop : action.deque = [op]) (hgotten : action.gotten = []) (hown : action.own = [])
    (hanswer : op.answer (queued s.log) = [])
    (hdenotes : taskList.Denotes ((op.apply (queued s.log)).map TaskMsg.addr))
    (hids : ∀ m ∈ op.apply (queued s.log), s.read m.addr = m) :
    TaskSchedule.Refines funcTable tableSize
      { s with taskList := taskList, log := s.log ++ [action] } := by
  have hops : dequeOps [action] = [op] := by
    rw [dequeOps, List.flatMap_singleton, hop]
  have hqueued : queued (s.log ++ [action]) = op.apply (queued s.log) := by
    rw [queued_append, hops]
    rfl
  refine ⟨?_, ?_, ?_, ?_, h.handler⟩
  · rw [hqueued]
    exact hdenotes
  · rw [hqueued]
    exact hids
  · rw [gotten_concat hgotten, ← h.answers, dequeAnswers_append_log, hops, dequeAnswers, hanswer,
      dequeAnswers, List.append_nil, List.append_nil]
  · rw [gotten_concat hgotten, scheduled_concat, hown, List.append_nil]
    exact h.serves

/-- A message is appended. -/
theorem TaskSchedule.Refines.insert (h : s.Refines funcTable tableSize) {msg : TaskMsgAddr}
    (hmsg : msg ∉ (queued s.log).map TaskMsg.addr) :
    ∃ t, scheduleStep funcTable tableSize s (.insert msg) = some t ∧
      t.Refines funcTable tableSize := by
  obtain ⟨taskList, hpush, hdenotes⟩ := coListPushBack_denotes h.denotes hmsg
  refine ⟨{ s with taskList := taskList, log := s.log ++ [.inserted (s.read msg)] }, ?_,
    h.queueAction rfl rfl rfl rfl ?_ ?_⟩
  · rw [scheduleStep, taskMsgInsert, hpush]
    rfl
  · rw [DequeOp.apply, List.map_append]
    exact hdenotes
  · intro m hm
    obtain hm | hm := List.mem_append.mp hm
    · exact h.ids m hm
    · rw [List.mem_singleton.mp hm]
      rfl

/-- A message is prepended. -/
theorem TaskSchedule.Refines.insertFront (h : s.Refines funcTable tableSize) {msg : TaskMsgAddr}
    (hmsg : msg ∉ (queued s.log).map TaskMsg.addr) :
    ∃ t, scheduleStep funcTable tableSize s (.insertFront msg) = some t ∧
      t.Refines funcTable tableSize := by
  refine ⟨_, rfl, h.queueAction rfl rfl rfl rfl ?_ ?_⟩
  · exact coListPushFront_denotes h.denotes hmsg
  · intro m hm
    obtain rfl | hm := List.mem_cons.mp hm
    · rfl
    · exact h.ids m hm

/-- `task_schedule` waits while the deque is empty. -/
theorem TaskSchedule.Refines.get_nil (h : s.Refines funcTable tableSize) (hpoint : s.point = .get)
    (hqueued : queued s.log = []) : taskSchedule funcTable tableSize s = s := by
  have hdenotes := h.denotes
  rw [hqueued] at hdenotes
  rw [taskSchedule, hpoint]
  simp only [taskMsgGet_nil hdenotes]
  rw [← hpoint]

/-- `task_schedule` takes the front of the deque. -/
theorem TaskSchedule.Refines.get_cons (h : s.Refines funcTable tableSize) (hpoint : s.point = .get)
    {m : TaskMsg} {rest : List TaskMsg} (hqueued : queued s.log = m :: rest) :
    (taskSchedule funcTable tableSize s).Refines funcTable tableSize ∧
      (taskSchedule funcTable tableSize s).point = .lookup m.addr ∧
      (taskSchedule funcTable tableSize s).log = s.log ++ [.got m] := by
  have hdenotes := h.denotes
  rw [hqueued] at hdenotes
  obtain ⟨taskList, hget, hdenotes'⟩ := taskMsgGet_cons hdenotes
  have hread : s.read m.addr = m := h.ids m (by rw [hqueued]; exact List.mem_cons_self)
  have hstep : taskSchedule funcTable tableSize s =
      { s with taskList := taskList, point := .lookup m.addr, log := s.log ++ [.got m] } := by
    rw [taskSchedule, hpoint]
    simp only [hget, hread]
  have hqueued' : queued (s.log ++ [.got m]) = rest := by
    rw [queued_append, hqueued]
    rfl
  obtain ⟨done, hgotten, hscheduled⟩ := h.serves
  rw [held, hpoint] at hgotten
  rw [progress, hpoint] at hscheduled
  rw [hstep]
  refine ⟨⟨?_, ?_, ?_, ⟨done, ?_, ?_⟩, fun func msg hcall => by cases hcall⟩, rfl, rfl⟩
  · rw [hqueued']
    exact hdenotes'
  · rw [hqueued']
    exact fun m' hm' => h.ids m' (by rw [hqueued]; exact List.mem_cons_of_mem m hm')
  · rw [dequeAnswers_append_log, hqueued, h.answers, gotten_append, List.map_append]
    rfl
  · show gotten (s.log ++ [.got m]) = done ++ [s.read m.addr]
    rw [gotten_append, hgotten, hread]
    simp [gotten, ScheduleAction.gotten, SchedulePoint.msg]
  · show scheduled (s.log ++ [.got m]) =
      done.flatMap (served funcTable tableSize) ++ [.got (s.read m.addr)]
    rw [scheduled_concat, hscheduled, List.append_nil, hread]
    rfl

/-- The handler is looked up. -/
theorem TaskSchedule.Refines.lookup (h : s.Refines funcTable tableSize) {msg : TaskMsgAddr}
    (hpoint : s.point = .lookup msg) :
    (taskSchedule funcTable tableSize s).Refines funcTable tableSize ∧
      (taskSchedule funcTable tableSize s).log = s.log ∧
      ((taskSchedule funcTable tableSize s).point = .free msg ∨
        ∃ func, (taskSchedule funcTable tableSize s).point = .call func msg) := by
  obtain ⟨done, hgotten, hscheduled⟩ := h.serves
  rw [held, hpoint] at hgotten
  rw [progress, hpoint] at hscheduled
  rw [taskSchedule, hpoint]
  simp only [taskGetHandler_eq]
  cases hfunc : firstHandler funcTable tableSize (s.id msg) with
  | some func =>
      refine ⟨⟨h.denotes, h.ids, h.answers, ⟨done, hgotten, hscheduled⟩, ?_⟩, rfl,
        Or.inr ⟨func, rfl⟩⟩
      intro func' msg' hcall
      cases hcall
      exact hfunc
  | none =>
      refine ⟨⟨h.denotes, h.ids, h.answers, ⟨done, hgotten, ?_⟩, fun func' msg' hcall => ?_⟩, rfl,
        Or.inl rfl⟩
      · show scheduled s.log = done.flatMap (served funcTable tableSize) ++
          .got (s.read msg) :: (firstHandler funcTable tableSize (s.id msg)).toList.map
            (.handed · (s.read msg))
        rw [hfunc]
        exact hscheduled
      · cases hcall

/-- An action of `task_schedule` on the message that it works on. -/
theorem TaskSchedule.Refines.ownAction (h : s.Refines funcTable tableSize)
    {point : SchedulePoint φ} {action : ScheduleAction φ} (hop : action.deque = [])
    (hgotten : action.gotten = []) (hcall : ∀ func msg, point ≠ .call func msg)
    (hserves : ∃ done, gotten s.log = done ++ (point.msg.map s.read).toList ∧
      scheduled s.log ++ action.own = done.flatMap (served funcTable tableSize) ++
        TaskSchedule.progress funcTable tableSize { s with point := point }) :
    TaskSchedule.Refines funcTable tableSize
      { s with point := point, log := s.log ++ [action] } := by
  refine ⟨?_, ?_, ?_, ?_, fun func msg hpoint => absurd hpoint (hcall func msg)⟩
  · rw [queued_concat hop]
    exact h.denotes
  · rw [queued_concat hop]
    exact h.ids
  · rw [dequeOps_concat hop, gotten_concat hgotten]
    exact h.answers
  · rw [gotten_concat hgotten, scheduled_concat]
    exact hserves

/-- The handler is called. -/
theorem TaskSchedule.Refines.call (h : s.Refines funcTable tableSize) {func : φ}
    {msg : TaskMsgAddr} (hpoint : s.point = .call func msg) :
    (taskSchedule funcTable tableSize s).Refines funcTable tableSize ∧
      (taskSchedule funcTable tableSize s).point = .free msg ∧
      (taskSchedule funcTable tableSize s).log = s.log ++ [.handed func (s.read msg)] := by
  obtain ⟨done, hgotten, hscheduled⟩ := h.serves
  have hfunc := h.handler func msg hpoint
  rw [held, hpoint] at hgotten
  rw [progress, hpoint] at hscheduled
  rw [taskSchedule, hpoint]
  refine ⟨h.ownAction rfl rfl (fun _ _ hcall => by cases hcall) ⟨done, hgotten, ?_⟩, rfl, rfl⟩
  rw [hscheduled, List.append_assoc]
  simp only [progress, hfunc]
  rfl

/-- The message is freed, and with this it is served. -/
theorem TaskSchedule.Refines.free (h : s.Refines funcTable tableSize) {msg : TaskMsgAddr}
    (hpoint : s.point = .free msg) :
    (taskSchedule funcTable tableSize s).Refines funcTable tableSize ∧
      (taskSchedule funcTable tableSize s).point = .get ∧
      (taskSchedule funcTable tableSize s).log = s.log ++ [.freed (s.read msg)] := by
  obtain ⟨done, hgotten, hscheduled⟩ := h.serves
  rw [held, hpoint] at hgotten
  rw [progress, hpoint] at hscheduled
  rw [taskSchedule, hpoint]
  refine ⟨h.ownAction rfl rfl (fun _ _ hcall => by cases hcall)
    ⟨done ++ [s.read msg], ?_, ?_⟩, rfl, rfl⟩
  · rw [hgotten]
    exact (List.append_nil _).symm
  · rw [hscheduled, List.flatMap_append, List.flatMap_singleton, served, List.append_assoc]
    exact (List.append_nil _).symm

/-- An allowed step does not fault. -/
theorem scheduleStep_refines (h : s.Refines funcTable tableSize) {e : ScheduleEvent}
    (he : s.Allowed e) :
    ∃ t, scheduleStep funcTable tableSize s e = some t ∧ t.Refines funcTable tableSize := by
  cases e with
  | alloc msg id => exact ⟨_, rfl, h.alloc he.1 he.2 id⟩
  | insert msg => exact h.insert he
  | insertFront msg => exact h.insertFront he
  | schedule =>
      refine ⟨_, rfl, ?_⟩
      cases hpoint : s.point with
      | get =>
          cases hqueued : queued s.log with
          | nil =>
              rw [h.get_nil hpoint hqueued]
              exact h
          | cons m rest => exact (h.get_cons hpoint hqueued).1
      | lookup msg => exact (h.lookup hpoint).1
      | call func msg => exact (h.call hpoint).1
      | free msg => exact (h.free hpoint).1

/-! ## the queue is emptied -/

/-- `task_schedule` gets from `s` to `t` without an interrupt. -/
def Schedules (funcTable : Nat → TaskMsgHandler φ) (tableSize : UInt32) (s t : TaskSchedule φ) :
    Prop :=
  ∃ n, run (scheduleStep funcTable tableSize) s (List.replicate n .schedule) = some t

theorem Schedules.refl (s : TaskSchedule φ) : Schedules funcTable tableSize s s := ⟨0, rfl⟩

theorem Schedules.step {t : TaskSchedule φ}
    (h : Schedules funcTable tableSize (taskSchedule funcTable tableSize s) t) :
    Schedules funcTable tableSize s t := by
  obtain ⟨n, hrun⟩ := h
  exact ⟨n + 1, run_cons_eq_some.mpr ⟨_, rfl, hrun⟩⟩

theorem Schedules.trans {t u : TaskSchedule φ} (h : Schedules funcTable tableSize s t)
    (h' : Schedules funcTable tableSize t u) : Schedules funcTable tableSize s u := by
  obtain ⟨n, hrun⟩ := h
  obtain ⟨n', hrun'⟩ := h'
  refine ⟨n + n', ?_⟩
  rw [List.replicate_add, run_append_eq_some]
  exact ⟨t, hrun, hrun'⟩

/-- `task_schedule` takes the messages `ms` and is ready for the next one. -/
def Takes (funcTable : Nat → TaskMsgHandler φ) (tableSize : UInt32) (s : TaskSchedule φ)
    (ms rest : List TaskMsg) : Prop :=
  ∃ t, Schedules funcTable tableSize s t ∧ t.Refines funcTable tableSize ∧ t.point = .get ∧
    gotten t.log = gotten s.log ++ ms ∧ queued t.log = rest

/-- A step in front of a run that takes messages. -/
theorem Takes.step {ms ms' rest : List TaskMsg}
    (h : Takes funcTable tableSize (taskSchedule funcTable tableSize s) ms' rest)
    (hgotten : gotten (taskSchedule funcTable tableSize s).log ++ ms' = gotten s.log ++ ms) :
    Takes funcTable tableSize s ms rest := by
  obtain ⟨t, hreach, hrefines, hpoint, hms, hrest⟩ := h
  exact ⟨t, hreach.step, hrefines, hpoint, hms.trans hgotten, hrest⟩

/-- A message that is to be freed is freed, and the task goes on. -/
theorem TaskSchedule.Refines.takes_free (h : s.Refines funcTable tableSize) {msg : TaskMsgAddr}
    (hpoint : s.point = .free msg) : Takes funcTable tableSize s [] (queued s.log) := by
  obtain ⟨hrefines, hget, hlog⟩ := h.free hpoint
  refine ⟨_, (Schedules.refl _).step, hrefines, hget, ?_, ?_⟩
  · rw [hlog, gotten_concat rfl, List.append_nil]
  · rw [hlog, queued_concat rfl]

/-- The handler is called, and the task goes on. -/
theorem TaskSchedule.Refines.takes_call (h : s.Refines funcTable tableSize) {func : φ}
    {msg : TaskMsgAddr} (hpoint : s.point = .call func msg) :
    Takes funcTable tableSize s [] (queued s.log) := by
  obtain ⟨hrefines, hfree, hlog⟩ := h.call hpoint
  have htakes := hrefines.takes_free hfree
  rw [hlog, queued_concat rfl] at htakes
  exact htakes.step (by rw [hlog, gotten_concat rfl])

/-- The handler is looked up, and the task goes on. -/
theorem TaskSchedule.Refines.takes_lookup (h : s.Refines funcTable tableSize)
    {msg : TaskMsgAddr} (hpoint : s.point = .lookup msg) :
    Takes funcTable tableSize s [] (queued s.log) := by
  obtain ⟨hrefines, hlog, hnext⟩ := h.lookup hpoint
  have htakes : Takes funcTable tableSize (taskSchedule funcTable tableSize s) []
      (queued (taskSchedule funcTable tableSize s).log) := by
    obtain hfree | ⟨func, hcall⟩ := hnext
    · exact hrefines.takes_free hfree
    · exact hrefines.takes_call hcall
  rw [hlog] at htakes
  exact htakes.step (by rw [hlog])

theorem Takes.trans {ms ms' rest rest' : List TaskMsg}
    (h : Takes funcTable tableSize s ms rest)
    (h' : ∀ t : TaskSchedule φ, t.Refines funcTable tableSize → t.point = .get →
      queued t.log = rest → Takes funcTable tableSize t ms' rest') :
    Takes funcTable tableSize s (ms ++ ms') rest' := by
  obtain ⟨t, hreach, hrefines, hpoint, hms, hrest⟩ := h
  obtain ⟨u, hreach', hrefines', hpoint', hms', hrest'⟩ := h' t hrefines hpoint hrest
  refine ⟨u, hreach.trans hreach', hrefines', hpoint', ?_, hrest'⟩
  rw [hms', hms, List.append_assoc]

/-- The message at hand is served first. -/
theorem TaskSchedule.Refines.takes_nil (h : s.Refines funcTable tableSize) :
    Takes funcTable tableSize s [] (queued s.log) := by
  cases hpoint : s.point with
  | get => exact ⟨s, Schedules.refl s, h, hpoint, (List.append_nil _).symm, rfl⟩
  | lookup msg => exact h.takes_lookup hpoint
  | call func msg => exact h.takes_call hpoint
  | free msg => exact h.takes_free hpoint

/-- Then the messages of the queue, in its order. -/
theorem takes_queued (q : List TaskMsg) :
    ∀ s : TaskSchedule φ, s.Refines funcTable tableSize → s.point = .get → queued s.log = q →
      Takes funcTable tableSize s q [] := by
  induction q with
  | nil => exact fun s h hpoint hq => ⟨s, Schedules.refl s, h, hpoint, (List.append_nil _).symm, hq⟩
  | cons m q ih =>
      intro s h hpoint hq
      obtain ⟨hrefines, hlookup, hlog⟩ := h.get_cons hpoint hq
      have hqueued : queued (taskSchedule funcTable tableSize s).log = q := by
        rw [hlog, queued_append, hq]
        rfl
      have hgotten : gotten (taskSchedule funcTable tableSize s).log = gotten s.log ++ [m] := by
        rw [hlog, gotten_append]
        rfl
      have hone := hrefines.takes_lookup hlookup
      rw [hqueued] at hone
      have htakes : Takes funcTable tableSize s [m] q :=
        hone.step (by rw [hgotten, List.append_nil])
      exact htakes.trans ih

/-- What has been inserted has been taken or is in the queue, each message as often. -/
theorem TaskSchedule.Refines.inserted_perm (h : s.Refines funcTable tableSize) :
    (inserted s.log).Perm (gotten s.log ++ queued s.log) := by
  have hperm := dequeAdded_perm [] (dequeOps s.log)
  have hgotten : ((gotten s.log).map some).reduceOption = gotten s.log := by
    simp [List.reduceOption]
  rw [List.nil_append, h.answers, hgotten] at hperm
  exact hperm

/-- The task queue is a deque, and `task_schedule` serves its messages in order: each is taken,
handed to the handler of the first entry for it, and freed. -/
theorem task_queue_deque (funcTable : Nat → TaskMsgHandler φ) (tableSize : UInt32)
    (taskList : CoList TaskMsgAddr) (id : TaskMsgAddr → UInt32) :
    (∀ ops, FreshOps [] ops →
      ∃ taskList', run taskListStep (taskInit taskList, []) ops =
          some (taskList', dequeAnswers [] ops) ∧
        taskList'.Denotes (dequeAfter [] ops) ∧
        ((taskMsgGet taskList').1 = none ↔ dequeAfter [] ops = [])) ∧
      ∀ es, Along (scheduleStep funcTable tableSize) TaskSchedule.Allowed
          (scheduleStart taskList id) es →
        ∃ s, run (scheduleStep funcTable tableSize) (scheduleStart taskList id) es = some s ∧
          s.Refines funcTable tableSize ∧
          (inserted s.log).Perm (gotten s.log ++ queued s.log) ∧
          Takes funcTable tableSize s (queued s.log) [] := by
  constructor
  · intro ops hops
    obtain ⟨taskList', hrun, hdenotes⟩ := run_taskListStep (coListInit_denotes taskList) hops []
    exact ⟨taskList', hrun, hdenotes, taskMsgGet_eq_none_iff hdenotes⟩
  · intro es hes
    obtain ⟨s, hrun, hrefines⟩ := run_total_of_along (fun _ _ h he => scheduleStep_refines h he)
      (scheduleStart_refines taskList id) hes
    refine ⟨s, hrun, hrefines, hrefines.inserted_perm, ?_⟩
    exact hrefines.takes_nil.trans (takes_queued (queued s.log))

end Schedule

/-- A message that is appended, and one that overtakes it. -/
theorem task_queue_deque_two :
    (∃ taskList', run taskListStep (taskInit ⟨none, none, fun _ => none⟩, [])
        [.pushBack ⟨1, by decide⟩, .pushFront ⟨2, by decide⟩, .popFront] =
      some (taskList', [some ⟨2, by decide⟩])) ∧
      ∃ s : TaskSchedule Nat, run (scheduleStep (fun _ => ⟨taskIdDefault, some 7⟩) 1)
          (scheduleStart ⟨none, none, fun _ => none⟩ fun _ => 0)
          [.alloc ⟨1, by decide⟩ 5, .insert ⟨1, by decide⟩, .alloc ⟨2, by decide⟩ 6,
            .insertFront ⟨2, by decide⟩, .schedule] =
        some s ∧ s.Refines (fun _ => ⟨taskIdDefault, some 7⟩) 1 := by
  obtain ⟨hqueue, hschedule⟩ := task_queue_deque (fun _ => ⟨taskIdDefault, some 7⟩) 1
    ⟨none, none, fun _ => none⟩ fun _ => 0
  have hfresh : (⟨2, by decide⟩ : TaskMsgAddr) ∉ [(⟨1, by decide⟩ : TaskMsgAddr)] := by decide
  constructor
  · obtain ⟨taskList', hrun, -⟩ := hqueue
      [.pushBack ⟨1, by decide⟩, .pushFront ⟨2, by decide⟩, .popFront]
      ⟨List.not_mem_nil, hfresh, trivial, trivial⟩
    exact ⟨taskList', hrun⟩
  · obtain ⟨s, hrun, hrefines, -⟩ := hschedule [.alloc ⟨1, by decide⟩ 5, .insert ⟨1, by decide⟩,
      .alloc ⟨2, by decide⟩ 6, .insertFront ⟨2, by decide⟩, .schedule] (by decide)
    exact ⟨s, hrun, hrefines⟩

end Fr5080
