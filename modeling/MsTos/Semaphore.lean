-- SUMMARY: Counting semaphores (`semaphore.c`).
import MsTos.Os

namespace MsTos

/-- The contents that `sem_init` gives a semaphore. -/
def Sem.init (value : Nat) : Sem := { val := toInt value, wq := Queue.init }

namespace Kernel

/-- `sem_init` of a non-`NULL` semaphore. -/
def semInit (k : Kernel) (sem : SemId) (value : Nat) : Int × Kernel :=
  if value > numThreads then (-1, k)
  else
    let k := k.startCritical
    let k := k.setSem sem (Sem.init value)
    (0, k.endCritical)

/-- `--sem->val`. -/
def semDown (k : Kernel) (sem : SemId) : Kernel :=
  k.setSem sem { k.sems sem with val := toInt ((k.sems sem).val - 1) }

theorem semDown_val {k : Kernel} {sem : SemId} :
    ((k.semDown sem).sems sem).val = toInt ((k.sems sem).val - 1) := by
  simp [semDown, setSem]

/-- `queue_wait_push(&sem->wq, &thread)`, whose result no caller looks at. -/
def semEnqueue (k : Kernel) (sem : SemId) (thread : ThrdPtr) : Kernel :=
  k.setSem sem { k.sems sem with wq := ((k.sems sem).wq.push thread).2 }

/-- `sem_wait`, up to the tick that a blocked caller requests. -/
def semWait (k : Kernel) (sem : SemId) : Kernel :=
  let k := k.startCritical
  let k := k.semDown sem
  let k :=
    if (k.sems sem).val < 0 then
      let (callingThread, k) := k.osTaskCurrent
      let k := k.semEnqueue sem callingThread
      k.osTaskBlock callingThread
    else k
  k.endCritical

/-- `sem_post`. If the pop fails, `wakeup` is an uninitialised pointer. -/
def semPost (k : Kernel) (sem : SemId) : Kernel :=
  let k := k.startCritical
  let k := k.setSem sem { k.sems sem with val := toInt ((k.sems sem).val + 1) }
  let k :=
    if (k.sems sem).val ≤ 0 then
      let (wakeup, wq) := (k.sems sem).wq.pop
      let k := k.setSem sem { k.sems sem with wq }
      k.osTaskUnpause wakeup.join
    else k
  k.endCritical

/-- The first critical section of `sem_timedwait`, with the value of `locked` that it leaves. -/
def semTimedwaitEnter (k : Kernel) (sem : SemId) (timeout : Nat) : Bool × Kernel :=
  let k := k.startCritical
  let k := k.semDown sem
  let (locked, k) :=
    if (k.sems sem).val < 0 then
      let (callingThread, k) := k.osTaskCurrent
      let k := k.semEnqueue sem callingThread
      (false, k.osTaskTimedwait callingThread timeout)
    else (true, k)
  (locked, k.endCritical)

/-- The second critical section of `sem_timedwait`, which finds out why the caller woke up. -/
def semTimedwaitLeave (k : Kernel) (sem : SemId) (callingThread : TaskId) (locked : Bool) :
    Int × Kernel :=
  let k := k.startCritical
  let (status, k) :=
    if !locked ∧ (k.thrds callingThread).state = .SLEEPING then
      let k := k.store (some callingThread) fun t => { t with state := .ACTIVE }
      (-1, k.semPost sem)
    else (0, k)
  (status, k.endCritical)

/-- `sem_trywait`. -/
def semTrywait (k : Kernel) (sem : SemId) : Int × Kernel :=
  let k := k.startCritical
  let (status, k) := if (k.sems sem).val > 0 then (0, k.semDown sem) else (-1, k)
  (status, k.endCritical)

end Kernel

end MsTos
