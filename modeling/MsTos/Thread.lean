-- SUMMARY: Thread creation, exit and join (`thread.c`, and the rest of `os.c`).
import MsTos.Semaphore

namespace MsTos

/-- `sizeof(hw_stackframe_t) + sizeof(sw_stackframe_t)` in the small data model. -/
def initialFrameSize : Nat := 4 + 24

/-- The stack pointer that `thrd_stack_init` gives the thread in slot `i`. -/
def initialSp (i : Fin numThreads) : Addr := itemAddr i + 2 + stackSize - initialFrameSize

namespace Kernel

/-- `thrd_init`: the stack frame itself is not modelled, its address is. -/
def thrdInit (k : Kernel) (t : TaskId) (routine : Nat) (priority : Nat) : Int × Kernel :=
  if routine = 0 then (-1, k)
  else
    let k :=
      match t with
      | .slot i => { k with taskMem := k.taskMem.setSp i (initialSp i) }
      | .idle => k
    let k := (k.semInit (.join t) 0).2
    let k := k.setThrd t fun thrd =>
      { thrd with basePrio := priority, fixedPrio := priority, workingPrio := priority, state := .ACTIVE }
    (0, k)

/-- `talloc`. -/
def talloc (k : Kernel) : Addr × Kernel :=
  let k := k.startCritical
  let (process, taskMem) := poolAlloc k.taskMem
  let k := { k with taskMem }
  (process, k.endCritical)

/-- `os_task_create`: the early returns leave the critical section open. A task at an address that
is not a slot overlaps other slots, which is not modelled further. -/
def osTaskCreate (k : Kernel) : ThrdPtr × Kernel :=
  let k := k.startCritical
  let (process, k) := k.talloc
  if process = 0 then (none, k)
  else
    match itemAt process with
    | none => (none, { k with fault := true })
    | some i =>
        let k := { k with runQueue.links := listElementInit k.runQueue.links (.elem (.slot i)) }
        let (status, k) := k.osAddTask (some (.slot i))
        if status < 0 then (none, k)
        else (some (.slot i), k.endCritical)

/-- `thrd_create`, with the new thread if there is one. -/
def thrdCreate (k : Kernel) (routine priority : Nat) : (Int × ThrdPtr) × Kernel :=
  if routine = 0 then ((-1, none), k)
  else if priority = 0 then ((-1, none), k)
  else
    let k := k.startCritical
    let (thrd, k) := k.osTaskCreate
    match thrd with
    | none => ((-1, none), k.endCritical)
    | some t =>
        let k := (k.thrdInit t routine priority).2
        ((0, some t), k.endCritical)

/-- The loop of `os_task_exit`, which looks for the thread to wake up with `queue_wait_back`. Its
index runs past the storage after the last slot has been written. -/
def wakeJoiners (this : TaskId) (retCode : Int) : Nat → Kernel → Kernel
  | 0, k => { k with fault := true }
  | fuel + 1, k =>
      let wq := (k.sems (.join this)).wq
      if wq.count > 0 then
        let wakeupThrd := if wq.backIndex < numThreads then wq.back.join else none
        let k := k.store wakeupThrd fun t => { t with mbox := retCode }
        let k := k.semPost (.join this)
        wakeJoiners this retCode fuel k
      else k

/-- `os_task_exit`. Every round of its loop posts `join_sem` once, so that it ends within 2^16
rounds if it ends at all. -/
def osTaskExit (k : Kernel) (retCode : Int) : Kernel :=
  let k := k.startCritical
  let (this, k) := k.osTaskCurrent
  let k :=
    match this with
    | none => { k with fault := true }
    | some t => wakeJoiners t retCode (wordSize + numThreads) k
  k.endCritical

/-- `os_mem_init`. -/
def osMemInit (k : Kernel) : Kernel :=
  let k := k.startCritical
  let k := { k with taskMem := poolInit k.taskMem }
  let k := { k with runQueue.links := listInit k.runQueue.links .head }
  let k := { k with runQueue.current := some .head }
  k.endCritical

/-- `os_init`; `idleRoutine` is the address of `os_idle`. -/
def osInit (k : Kernel) (idleRoutine : Nat) : Kernel :=
  let k := k.startCritical
  let k := k.osMemInit
  let k := (k.thrdInit .idle idleRoutine 1).2
  let k := { k with sleepQueue := PQueue.init, tWaitqueue := PQueue.init }
  k.endCritical

end Kernel

end MsTos
