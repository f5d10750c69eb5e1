import Fr5080.Kernel.List

/-!
# Fr5080.Kernel.Tasks

The scheduler of the FreeRTOS kernel (`tasks.c` of `fr5080_basic_freertos`), as
`FreeRTOSConfig.h` configures it: preemptive with time slices, seven priorities,
32-bit ticks, no port-optimised selection and no tickless idle.

A task is named by its control block.  It has two list items: `xStateListItem` is in
the list of the state of the task, and `xEventListItem` in the list of what it waits
for.  Each function is one step, as its critical section or the suspended scheduler
makes it; `none` means that a `configASSERT` fails, that a walk through a list does
not end, or that a pointer is followed that points to nothing.

Where a function asks for a context switch (`taskYIELD_IF_USING_PREEMPTION`), or tells its
caller to do so, the second part of its result is `true`.  A function with two critical
sections is two steps (`vTaskSuspend`).  The tick hook, notifications, deletion and changes
of priority are left out.
-/

namespace Fr5080

open Embedded

/-! ## data -/

/-- `configMAX_PRIORITIES`. -/
def configMaxPriorities : Nat := 7

/-- The lists: `pxReadyTasksLists`, `xDelayedTaskList1`, `xDelayedTaskList2`, `xPendingReadyList`,
`xSuspendedTaskList`, and the event lists of queues and others. -/
inductive TaskList (ε : Type*)
  | ready (uxPriority : Nat)
  | delayed1
  | delayed2
  | pendingReady
  | suspended
  | event (e : ε)
deriving DecidableEq, Repr

/-- `xStateListItem` and `xEventListItem` of a task. -/
inductive TaskItem (τ : Type*)
  | state (t : τ)
  | event (t : τ)
deriving DecidableEq, Repr

/-- `pvOwner`. -/
def TaskItem.pvOwner {τ : Type*} : TaskItem τ → τ
  | .state t => t
  | .event t => t

/-- The variables of `tasks.c`, and the fields of the control blocks. -/
structure Kernel (τ ε : Type*) where
  lists : ListMem (TaskList ε) (TaskItem τ)
  uxPriority : τ → Nat
  ucDelayAborted : τ → Bool
  pxCurrentTCB : τ
  pxDelayedTaskList : TaskList ε
  pxOverflowDelayedTaskList : TaskList ε
  uxCurrentNumberOfTasks : Nat
  xTickCount : UInt32
  uxTopReadyPriority : Nat
  xPendedTicks : UInt32
  xYieldPending : Bool
  xNumOfOverflows : UInt32
  xNextTaskUnblockTime : UInt32
  uxSchedulerSuspended : Nat

variable {τ ε : Type*}

/-! ## lists -/

/-- `prvResetNextTaskUnblockTime`. -/
def prvResetNextTaskUnblockTime (s : Kernel τ ε) : Kernel τ ε :=
  if listIsEmpty s.pxDelayedTaskList s.lists then { s with xNextTaskUnblockTime := portMaxDelay }
  else
    { s with
      xNextTaskUnblockTime := s.lists.valueAt (s.lists.pxNext (.head s.pxDelayedTaskList)) }

/-- `taskSWITCH_DELAYED_LISTS`. -/
def taskSwitchDelayedLists (s : Kernel τ ε) : Option (Kernel τ ε) :=
  if listIsEmpty s.pxDelayedTaskList s.lists then
    some (prvResetNextTaskUnblockTime
      { s with
        pxDelayedTaskList := s.pxOverflowDelayedTaskList
        pxOverflowDelayedTaskList := s.pxDelayedTaskList
        xNumOfOverflows := s.xNumOfOverflows + 1 })
  else none

section

variable [DecidableEq τ] [DecidableEq ε]

/-- `( void ) uxListRemove( … )`. -/
def taskListRemove (x : TaskItem τ) (s : Kernel τ ε) : Option (Kernel τ ε) :=
  (uxListRemove x s.lists).map fun r => { s with lists := r.2 }

/-- `if( listLIST_ITEM_CONTAINER( &( pxTCB->xEventListItem ) ) != NULL )` and the removal. -/
def taskEventRemove (t : τ) (s : Kernel τ ε) : Option (Kernel τ ε) :=
  if s.lists.pxContainer (.event t) = none then some s else taskListRemove (.event t) s

/-- `prvAddTaskToReadyList`, with `taskRECORD_READY_PRIORITY`. -/
def prvAddTaskToReadyList (t : τ) (s : Kernel τ ε) : Kernel τ ε :=
  { s with
    uxTopReadyPriority :=
      if s.uxPriority t > s.uxTopReadyPriority then s.uxPriority t else s.uxTopReadyPriority
    lists := vListInsertEnd (.ready (s.uxPriority t)) (.state t) s.lists }

/-- The priority of a new task, "used as an array index so must ensure it's not too large". -/
def clipPriority (uxPriority : Nat) : Nat :=
  if uxPriority ≥ configMaxPriorities then configMaxPriorities - 1 else uxPriority

/-- The priority of a task is the index of a ready list. -/
theorem clipPriority_lt (p : Nat) : clipPriority p < configMaxPriorities := by
  rw [clipPriority]
  split
  · decide
  · omega

@[simp] theorem clipPriority_zero : clipPriority 0 = 0 := rfl

/-- `prvInitialiseNewTask`, as far as lists and priority are concerned. -/
def prvInitialiseNewTask (t : τ) (uxPriority : Nat) (s : Kernel τ ε) : Kernel τ ε :=
  let uxPriority := clipPriority uxPriority
  { s with
    uxPriority := Function.update s.uxPriority t uxPriority
    ucDelayAborted := Function.update s.ucDelayAborted t false
    lists := listSetItemValue (.event t) (UInt32.ofNat (configMaxPriorities - uxPriority))
      (vListInitialiseItem (.event t) (vListInitialiseItem (.state t) s.lists)) }

/-- `prvAddNewTaskToReadyList`; the scheduler is running. -/
def prvAddNewTaskToReadyList (t : τ) (s : Kernel τ ε) : Kernel τ ε × Bool :=
  (prvAddTaskToReadyList t { s with uxCurrentNumberOfTasks := s.uxCurrentNumberOfTasks + 1 },
    decide (s.uxPriority s.pxCurrentTCB < s.uxPriority t))

/-! ## ticks -/

/-- `for( ; ; )` in `xTaskIncrementTick`, with `xSwitchRequired`; the loop takes a task out of the
list in each round but its last. -/
def xTaskIncrementTickLoop : Nat → Kernel τ ε → Bool → Option (Kernel τ ε × Bool)
  | 0, _, _ => none
  | n + 1, s, xSwitchRequired =>
      if listIsEmpty s.pxDelayedTaskList s.lists then
        some ({ s with xNextTaskUnblockTime := portMaxDelay }, xSwitchRequired)
      else
        (listGetHeadEntry s.pxDelayedTaskList s.lists).bind fun item =>
          let pxTCB := item.pvOwner
          let xItemValue := s.lists.xItemValue (.state pxTCB)
          if s.xTickCount < xItemValue then
            some ({ s with xNextTaskUnblockTime := xItemValue }, xSwitchRequired)
          else
            (taskListRemove (.state pxTCB) s).bind fun s =>
              (taskEventRemove pxTCB s).bind fun s =>
                xTaskIncrementTickLoop n (prvAddTaskToReadyList pxTCB s)
                  (if s.uxPriority pxTCB ≥ s.uxPriority s.pxCurrentTCB then true
                    else xSwitchRequired)

/-- The end of `xTaskIncrementTick`: time slices, and a yield that is pending. -/
def xTaskIncrementTickSwitch (s : Kernel τ ε) (xSwitchRequired : Bool) : Bool :=
  xSwitchRequired || decide (s.lists.uxNumberOfItems (.ready (s.uxPriority s.pxCurrentTCB)) > 1) ||
    s.xYieldPending

/-- `xTaskIncrementTick`. -/
def xTaskIncrementTick (s : Kernel τ ε) : Option (Kernel τ ε × Bool) :=
  if s.uxSchedulerSuspended = 0 then
    let s := { s with xTickCount := s.xTickCount + 1 }
    (if s.xTickCount = 0 then taskSwitchDelayedLists s else some s).bind fun s =>
      (if s.xTickCount ≥ s.xNextTaskUnblockTime then
        xTaskIncrementTickLoop (s.lists.uxNumberOfItems s.pxDelayedTaskList + 1) s false
      else some (s, false)).map fun r => (r.1, xTaskIncrementTickSwitch r.1 r.2)
  else some ({ s with xPendedTicks := s.xPendedTicks + 1 }, false)

/-! ## selection -/

/-- The loop of `taskSELECT_HIGHEST_PRIORITY_TASK`. -/
def taskTopPriority (s : Kernel τ ε) : Nat → Option Nat
  | 0 => if listIsEmpty (.ready 0) s.lists then none else some 0
  | uxTopPriority + 1 =>
      if listIsEmpty (.ready (uxTopPriority + 1)) s.lists then taskTopPriority s uxTopPriority
      else some (uxTopPriority + 1)

/-- `taskSELECT_HIGHEST_PRIORITY_TASK`. -/
def taskSelectHighestPriorityTask (s : Kernel τ ε) : Option (Kernel τ ε) :=
  (taskTopPriority s s.uxTopReadyPriority).bind fun uxTopPriority =>
    (listGetNextEntry (.ready uxTopPriority) s.lists).map fun r =>
      { s with pxCurrentTCB := r.1.pvOwner, lists := r.2, uxTopReadyPriority := uxTopPriority }

/-- `vTaskSwitchContext`. -/
def vTaskSwitchContext (s : Kernel τ ε) : Option (Kernel τ ε) :=
  if s.uxSchedulerSuspended ≠ 0 then some { s with xYieldPending := true }
  else taskSelectHighestPriorityTask { s with xYieldPending := false }

/-! ## the suspended scheduler -/

/-- `vTaskSuspendAll`. -/
def vTaskSuspendAll (s : Kernel τ ε) : Kernel τ ε :=
  { s with uxSchedulerSuspended := s.uxSchedulerSuspended + 1 }

/-- `while( listLIST_IS_EMPTY( &xPendingReadyList ) == pdFALSE )`, and whether `pxTCB` has been
set. -/
def xTaskResumeAllPending : Nat → Kernel τ ε → Bool → Option (Kernel τ ε × Bool)
  | 0, _, _ => none
  | n + 1, s, found =>
      if listIsEmpty .pendingReady s.lists then some (s, found)
      else
        (listGetHeadEntry .pendingReady s.lists).bind fun item =>
          let pxTCB := item.pvOwner
          (taskListRemove (.event pxTCB) s).bind fun s =>
            (taskListRemove (.state pxTCB) s).bind fun s =>
              let s := prvAddTaskToReadyList pxTCB s
              xTaskResumeAllPending n
                (if s.uxPriority pxTCB ≥ s.uxPriority s.pxCurrentTCB then
                  { s with xYieldPending := true }
                else s) true

/-- `do … while( xPendedCounts > 0 )`, as often as there are ticks left. -/
def xTaskResumeAllTicks : Nat → Kernel τ ε → Option (Kernel τ ε)
  | 0, s => some s
  | n + 1, s =>
      (xTaskIncrementTick s).bind fun r =>
        xTaskResumeAllTicks n (if r.2 then { r.1 with xYieldPending := true } else r.1)

/-- `xTaskResumeAll`, with `xAlreadyYielded`. -/
def xTaskResumeAll (s : Kernel τ ε) : Option (Kernel τ ε × Bool) :=
  if s.uxSchedulerSuspended = 0 then none
  else
    let s := { s with uxSchedulerSuspended := s.uxSchedulerSuspended - 1 }
    if s.uxSchedulerSuspended = 0 ∧ s.uxCurrentNumberOfTasks > 0 then
      (xTaskResumeAllPending (s.lists.uxNumberOfItems .pendingReady + 1) s false).bind fun r =>
        let s := if r.2 then prvResetNextTaskUnblockTime r.1 else r.1
        (if s.xPendedTicks > 0 then
          (xTaskResumeAllTicks s.xPendedTicks.toNat s).map fun s => { s with xPendedTicks := 0 }
        else some s).map fun s => (s, s.xYieldPending)
    else some (s, false)

/-! ## blocking and unblocking -/

/-- `prvAddCurrentTaskToDelayedList`. -/
def prvAddCurrentTaskToDelayedList (xTicksToWait : UInt32) (xCanBlockIndefinitely : Bool)
    (s : Kernel τ ε) : Option (Kernel τ ε) :=
  let t := s.pxCurrentTCB
  let s := { s with ucDelayAborted := Function.update s.ucDelayAborted t false }
  (taskListRemove (.state t) s).bind fun s =>
    if xTicksToWait = portMaxDelay ∧ xCanBlockIndefinitely then
      some { s with lists := vListInsertEnd .suspended (.state t) s.lists }
    else
      let xTimeToWake := s.xTickCount + xTicksToWait
      let s := { s with lists := listSetItemValue (.state t) xTimeToWake s.lists }
      if xTimeToWake < s.xTickCount then
        (vListInsert s.pxOverflowDelayedTaskList (.state t) s.lists).map fun m =>
          { s with lists := m }
      else
        (vListInsert s.pxDelayedTaskList (.state t) s.lists).map fun m =>
          { s with
            lists := m
            xNextTaskUnblockTime :=
              if xTimeToWake < s.xNextTaskUnblockTime then xTimeToWake
              else s.xNextTaskUnblockTime }

/-- `vTaskPlaceOnEventList`. -/
def vTaskPlaceOnEventList (e : ε) (xTicksToWait : UInt32) (s : Kernel τ ε) : Option (Kernel τ ε) :=
  (vListInsert (.event e) (.event s.pxCurrentTCB) s.lists).bind fun m =>
    prvAddCurrentTaskToDelayedList xTicksToWait true { s with lists := m }

/-- `xTaskRemoveFromEventList`. -/
def xTaskRemoveFromEventList (e : ε) (s : Kernel τ ε) : Option (Kernel τ ε × Bool) :=
  (listGetHeadEntry (.event e) s.lists).bind fun item =>
    let t := item.pvOwner
    (taskListRemove (.event t) s).bind fun s =>
      (if s.uxSchedulerSuspended = 0 then
        (taskListRemove (.state t) s).map (prvAddTaskToReadyList t)
      else some { s with lists := vListInsertEnd .pendingReady (.event t) s.lists }).map fun s =>
        if s.uxPriority t > s.uxPriority s.pxCurrentTCB then
          ({ s with xYieldPending := true }, true)
        else (s, false)

/-- `vTaskSuspend`, its first critical section.  The second one is `prvResetNextTaskUnblockTime`,
as the scheduler is running. -/
def vTaskSuspend (t : τ) (s : Kernel τ ε) : Option (Kernel τ ε) :=
  (taskListRemove (.state t) s).bind fun s =>
    (taskEventRemove t s).map fun s =>
      { s with lists := vListInsertEnd .suspended (.state t) s.lists }

/-- The end of `vTaskSuspend` where the current task has suspended itself: it yields, with
`configASSERT( uxSchedulerSuspended == 0 )`. -/
def vTaskSuspendYield (s : Kernel τ ε) : Option (Kernel τ ε × Bool) :=
  if s.uxSchedulerSuspended = 0 then some (s, true) else none

/-- `prvTaskIsTaskSuspended`. -/
def prvTaskIsTaskSuspended (t : τ) (s : Kernel τ ε) : Bool :=
  s.lists.pxContainer (.state t) = some .suspended ∧ s.lists.pxContainer (.event t) = none

/-- `vTaskResume`. -/
def vTaskResume (t : τ) (s : Kernel τ ε) : Option (Kernel τ ε × Bool) :=
  if t ≠ s.pxCurrentTCB ∧ prvTaskIsTaskSuspended t s then
    (taskListRemove (.state t) s).map fun s =>
      (prvAddTaskToReadyList t s, decide (s.uxPriority t ≥ s.uxPriority s.pxCurrentTCB))
  else some (s, false)

/-- `xTaskResumeFromISR`. -/
def xTaskResumeFromISR (t : τ) (s : Kernel τ ε) : Option (Kernel τ ε × Bool) :=
  if prvTaskIsTaskSuspended t s then
    if s.uxSchedulerSuspended = 0 then
      let xYieldRequired := decide (s.uxPriority t ≥ s.uxPriority s.pxCurrentTCB)
      let s := if xYieldRequired then { s with xYieldPending := true } else s
      (taskListRemove (.state t) s).map fun s => (prvAddTaskToReadyList t s, xYieldRequired)
    else some ({ s with lists := vListInsertEnd .pendingReady (.event t) s.lists }, false)
  else some (s, false)

/-- `eTaskGetState( t ) == eBlocked`. -/
def taskIsBlocked (t : τ) (s : Kernel τ ε) : Bool :=
  t ≠ s.pxCurrentTCB ∧
    (s.lists.pxContainer (.state t) = some s.pxDelayedTaskList ∨
      s.lists.pxContainer (.state t) = some s.pxOverflowDelayedTaskList ∨
      s.lists.pxContainer (.state t) = some .suspended ∧ s.lists.pxContainer (.event t) ≠ none)

/-- The part of `xTaskAbortDelay` between `vTaskSuspendAll` and `xTaskResumeAll`; `xReturn` follows
from `taskIsBlocked`. -/
def taskAbortDelay (t : τ) (s : Kernel τ ε) : Option (Kernel τ ε) :=
  if taskIsBlocked t s then
    (taskListRemove (.state t) s).bind fun s =>
      (if s.lists.pxContainer (.event t) = none then some s
      else
        (taskListRemove (.event t) s).map fun s =>
          { s with ucDelayAborted := Function.update s.ucDelayAborted t true }).map fun s =>
        let s := prvAddTaskToReadyList t s
        if s.uxPriority t > s.uxPriority s.pxCurrentTCB then { s with xYieldPending := true } else s
  else some s

end

end Fr5080
