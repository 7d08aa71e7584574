-- SUMMARY: The scheduler and the task primitives of `os.c`.
import MsTos.Definitions

namespace MsTos

/-! ## Critical sections -/

namespace Irq

/-- `start_critical`. -/
def start (irq : Irq) : Irq :=
  { irq with gie := false, nest := (irq.nest + 1) % wordSize }

/-- `end_critical`. -/
def stop (irq : Irq) : Irq :=
  if irq.nest > 0 then
    let nest := irq.nest - 1
    if nest = 0 then { irq with nest, gie := true } else { irq with nest }
  else
    irq

/-- `SFRIFG1 |= WDTIFG`. -/
def request (irq : Irq) : Irq := { irq with wdtifg := true }

/-- A requested tick is taken before the interrupted thread runs its next instruction. -/
def pending (irq : Irq) : Bool := irq.gie && irq.wdtifg

end Irq

/-! ## Deadlines -/

namespace PQueue

variable {size : Nat}

/-- `storage[1].priority--`. -/
def countDown (pq : PQueue SleepDeadline size) : PQueue SleepDeadline size :=
  pq.setRoot fun n => { n with priority := toInt (n.priority - 1) }

/-- What `os_update` writes to the next deadline once it has popped one: `amount` is taken off its
priority, and the popped `ticks` are added to its own. -/
def charge (pq : PQueue SleepDeadline size) (amount ticks : Nat) : PQueue SleepDeadline size :=
  pq.setRoot fun n =>
    { priority := toInt (n.priority - amount)
      data := { n.data with ticks := (n.data.ticks + ticks) % wordSize } }

end PQueue

/-! ## The run queue -/

namespace RunQueue

/-- `os_add_task_mmang` of a task. -/
def osAddTaskMmang (q : RunQueue) (t : TaskId) : Int × RunQueue :=
  -- no tasks: the iterator has to be rebuilt
  let q := if q.taskActiveCnt = 0 then { q with current := some .head } else q
  let (status, links) := listAppend q.links .head (.elem t)
  let q := { q with links }
  if status = -1 then (status, q)
  else (status, { q with taskActiveCnt := (q.taskActiveCnt + 1) % wordSize })

/-- `os_del_task_mmang` of a task. Through a `NULL` cursor nothing is done here; the kernel
records the fault. -/
def osDelTaskMmang (q : RunQueue) (t : TaskId) : Int × RunQueue :=
  -- the cursor moves backwards to avoid iterator invalidation
  match listIteratorPreviousCircular q.links .head q.current with
  | none => (-1, q)
  | some current =>
      let q := { q with current }
      let (status, links) := listRemove q.links (.elem t)
      let q := { q with links }
      if status = -1 then (status, q)
      else (status, { q with taskActiveCnt := (q.taskActiveCnt + (wordSize - 1)) % wordSize })

/-- `CONTAINER_OF(current, os_task_t, elem)`: only the elements of tasks lie inside one. -/
def containerOf (current : Option Node) : ThrdPtr :=
  match current with
  | some (.elem t) => some t
  | _ => none

/-- `os_change_task`: the new `run_ptr`, or `none` if it is no task. -/
def osChangeTask (q : RunQueue) : ThrdPtr × RunQueue :=
  match listIteratorNextCircular q.links .head q.current with
  | none => (none, q)
  | some current => (containerOf current, { q with current })

end RunQueue

namespace Kernel

def startCritical (k : Kernel) : Kernel := { k with irq := k.irq.start }

def endCritical (k : Kernel) : Kernel := { k with irq := k.irq.stop }

/-- `os_panic`: `_low_power_mode_3` in `os_idle` is `BIS.W #0xD8, SR`, which sets `GIE` again, so
that only the calling thread stops. -/
def osPanic (k : Kernel) : Kernel :=
  let k := k.startCritical
  { k with irq := { k.irq with gie := true } }

/-- A store to a field of `*p`. -/
def store (k : Kernel) (p : ThrdPtr) (f : Thrd → Thrd) : Kernel :=
  match p with
  | none => { k with fault := true }
  | some t => k.setThrd t f

/-! ## Adding and removing tasks -/

def osAddTaskMmang (k : Kernel) (process : ThrdPtr) : Int × Kernel :=
  match process with
  | none => (-1, k)
  | some t =>
      let (status, runQueue) := k.runQueue.osAddTaskMmang t
      (status, { k with runQueue })

def osDelTaskMmang (k : Kernel) (process : ThrdPtr) : Int × Kernel :=
  match process with
  | none => (-1, k)
  | some t =>
      let (status, runQueue) := k.runQueue.osDelTaskMmang t
      (status, { k with runQueue, fault := k.fault || k.runQueue.current.isNone })

def osAddTask (k : Kernel) (process : ThrdPtr) : Int × Kernel :=
  let (status, k) := k.startCritical.osAddTaskMmang process
  (status, k.endCritical)

def osDelTask (k : Kernel) (process : ThrdPtr) : Int × Kernel :=
  let (status, k) := k.startCritical.osDelTaskMmang process
  (status, k.endCritical)

/-! ## Tasks -/

def osTaskYield (k : Kernel) : Kernel := { k with irq := k.irq.request }

def osTaskCurrent (k : Kernel) : ThrdPtr × Kernel :=
  let k := k.startCritical
  let curr := k.runPtr
  (curr, k.endCritical)

/-- `tfree`. -/
def tfree (k : Kernel) (process : ThrdPtr) : Kernel :=
  let k := k.startCritical
  let k :=
    match process with
    | some (.slot i) => { k with taskMem := poolFree k.taskMem (itemAddr i) }
    | _ => k
  k.endCritical

/-- `os_task_kill`, up to its final empty loop. -/
def osTaskKill (k : Kernel) : Kernel :=
  let k := k.startCritical
  let (process, k) := k.osTaskCurrent
  let k := (k.osDelTask process).2
  let k := k.tfree process
  let k := k.osTaskYield
  k.endCritical

def osTaskPause (k : Kernel) (thrd : ThrdPtr) : Kernel :=
  let k := k.startCritical
  let k := (k.osDelTask thrd).2
  let k := k.osTaskYield
  k.endCritical

def osTaskUnpause (k : Kernel) (thrd : ThrdPtr) : Kernel :=
  let k := k.startCritical
  let k := k.store thrd fun t => { t with state := .ACTIVE }
  let k := (k.osAddTask thrd).2
  k.endCritical

def osTaskBlock (k : Kernel) (thrd : ThrdPtr) : Kernel :=
  let k := k.startCritical
  let k := k.store thrd fun t => { t with state := .BLOCKING }
  let k := k.osTaskPause thrd
  k.endCritical

/-! ## The tick -/

/-- The loop over `sleep_queue` in `os_update`, with its threshold. Every round pops an entry, so
the number of entries is fuel enough. -/
def wakeSleepers (thresh : Nat) : Nat → Kernel → Kernel
  | 0, k => k
  | fuel + 1, k =>
      if k.sleepQueue.count > thresh then
        let k := { k with sleepQueue := k.sleepQueue.countDown }
        if (k.sleepQueue.storage 1).priority ≤ 0 then
          let (deadline, sleepQueue) := k.sleepQueue.pop
          let k := { k with sleepQueue }
          let k := (k.osAddTaskMmang deadline.data).2
          let k := k.store deadline.data fun t => { t with state := .ACTIVE }
          let k := { k with sleepQueue := k.sleepQueue.charge (toSize (deadline.ticks - 1)) deadline.ticks }
          wakeSleepers thresh fuel k
        else k
      else k

/-- `p->state == ACTIVE`. -/
def isActive (k : Kernel) (p : ThrdPtr) : Bool :=
  match p with
  | none => false
  | some t => (k.thrds t).state = .ACTIVE

/-- The loop over `t_waitqueue` in `os_update`, with its threshold. -/
def expireDeadlines (thresh : Nat) : Nat → Kernel → Kernel
  | 0, k => k
  | fuel + 1, k =>
      if k.tWaitqueue.count > thresh then
        let k := { k with tWaitqueue := k.tWaitqueue.countDown }
        if (k.tWaitqueue.storage 1).priority ≤ 0 ∨ k.isActive (k.tWaitqueue.storage 1).data.data then
          let (deadline, tWaitqueue) := k.tWaitqueue.pop
          let k := { k with tWaitqueue }
          let k := (k.osAddTaskMmang deadline.data).2
          let k := { k with tWaitqueue := k.tWaitqueue.charge deadline.ticks deadline.ticks }
          expireDeadlines thresh fuel k
        else k
      else k

def osUpdate (k : Kernel) : Kernel :=
  let k := { k with osTickCnt := (k.osTickCnt + 1) % wordSize }
  let k := wakeSleepers (k.sleepQueue.count / 2) k.sleepQueue.count k
  expireDeadlines (k.tWaitqueue.count / 2) k.tWaitqueue.count k

def osChangeTask (k : Kernel) : Kernel :=
  let (runPtr, runQueue) := k.runQueue.osChangeTask
  { k with runQueue, runPtr, fault := k.fault || runPtr.isNone }

def osNext (k : Kernel) : Kernel :=
  match k.runPtr with
  | none => { k with fault := true }
  | some t =>
      if (k.thrds t).state = .BLOCKING ∨ (k.thrds t).state = .SLEEPING then
        (k.setThrd t fun thrd => { thrd with workingPrio := thrd.fixedPrio }).osChangeTask
      else
        let k := k.setThrd t fun thrd =>
          { thrd with workingPrio := (thrd.workingPrio + (wordSize - 1)) % wordSize }
        if (k.thrds t).workingPrio = 0 then
          (k.setThrd t fun thrd => { thrd with workingPrio := thrd.fixedPrio }).osChangeTask
        else k

def osSchedule (k : Kernel) : Kernel :=
  if k.runQueue.taskActiveCnt > 0 then k.osNext else { k with runPtr := some .idle }

def osFirstTask (k : Kernel) : Kernel :=
  if k.runQueue.taskActiveCnt > 0 then k.osChangeTask else { k with runPtr := some .idle }

/-! ## Sleeping -/

/-- The first critical section of `os_task_sleep(caller, ticks)` for `ticks > 0`. -/
def osTaskSleepEnter (k : Kernel) (caller : ThrdPtr) (ticks : Nat) : Kernel :=
  let k := k.startCritical
  let k := { k with sleepQueue := (k.sleepQueue.push ticks ⟨caller, ticks⟩).2 }
  let k := k.store caller fun t => { t with state := .SLEEPING, workingPrio := t.fixedPrio }
  k.endCritical

/-- `os_task_sleep`, without a tick between its two critical sections. -/
def osTaskSleep (k : Kernel) (caller : ThrdPtr) (ticks : Nat) : Kernel :=
  if ticks = 0 then k.osTaskYield
  else (k.osTaskSleepEnter caller ticks).osTaskPause caller

/-- `os_task_timedwait`, which is called inside a critical section only. -/
def osTaskTimedwait (k : Kernel) (caller : ThrdPtr) (ticks : Nat) : Kernel :=
  if ticks = 0 then k.osTaskYield
  else
    let k := k.startCritical
    let k := { k with tWaitqueue := (k.tWaitqueue.push ticks ⟨caller, ticks⟩).2 }
    let k := k.store caller fun t => { t with state := .SLEEPING, workingPrio := t.fixedPrio }
    let k := k.endCritical
    k.osTaskPause caller

/-! ## Time -/

/-- `os_time`. -/
def osTime (k : Kernel) : Nat × Kernel :=
  let k := k.startCritical
  let ticks := k.osTickCnt
  (ticks, k.endCritical)

end Kernel

end MsTos
