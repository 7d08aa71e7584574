-- SUMMARY: Mutexes with priority inheritance (`mutex.c`).
import MsTos.Os

namespace MsTos

/-- The contents that `mtx_init` gives a mutex. -/
def Mtx.init : Mtx := { holder := none, wq := Queue.init }

namespace Kernel

/-- `mtx_init` of a non-`NULL` mutex. -/
def mtxInit (k : Kernel) (mtx : Nat) : Int × Kernel :=
  let k := k.startCritical
  let k := k.setMtx mtx Mtx.init
  (0, k.endCritical)

/-- `queue_wait_push(&mtx->wq, &thread)`, whose result no caller looks at. -/
def mtxEnqueue (k : Kernel) (mtx : Nat) (thread : ThrdPtr) : Kernel :=
  k.setMtx mtx { k.mtxs mtx with wq := ((k.mtxs mtx).wq.push thread).2 }

/-- The priority inheritance of `mtx_lock` and `mtx_timedlock`: the holder gets the caller's
priority, and the difference on top of what is left of its time slice. -/
def mtxBoost (k : Kernel) (holder callingThread : TaskId) : Kernel :=
  let currPrio := (k.thrds holder).fixedPrio
  let checkPrio := (k.thrds callingThread).fixedPrio
  if checkPrio > currPrio then
    k.setThrd holder fun t =>
      { t with workingPrio := (t.workingPrio + (checkPrio - currPrio)) % wordSize, fixedPrio := checkPrio }
  else k

/-- `mtx_lock`, up to the tick that a blocked caller requests. -/
def mtxLock (k : Kernel) (mtx : Nat) : Kernel :=
  let k := k.startCritical
  let (callingThread, k) := k.osTaskCurrent
  let k :=
    match (k.mtxs mtx).holder, callingThread with
    | some holder, some t =>
        let k := k.mtxBoost holder t
        let k := k.mtxEnqueue mtx callingThread
        k.osTaskBlock callingThread
    | some _, none => { k with fault := true }
    | none, _ => k.setMtx mtx { k.mtxs mtx with holder := callingThread }
  k.endCritical

/-- The first critical section of `mtx_timedlock`, with the value of `locked` that it leaves. -/
def mtxTimedlockEnter (k : Kernel) (mtx : Nat) (timeout : Nat) : Bool × Kernel :=
  let k := k.startCritical
  let (callingThread, k) := k.osTaskCurrent
  let (locked, k) :=
    match (k.mtxs mtx).holder, callingThread with
    | some holder, some t =>
        let k := k.mtxBoost holder t
        let k := k.mtxEnqueue mtx callingThread
        (false, k.osTaskTimedwait callingThread timeout)
    | some _, none => (false, { k with fault := true })
    | none, _ => (true, k.setMtx mtx { k.mtxs mtx with holder := callingThread })
  (locked, k.endCritical)

/-- `mtx_trylock`. -/
def mtxTrylock (k : Kernel) (mtx : Nat) : Int × Kernel :=
  let k := k.startCritical
  let (callingThread, k) := k.osTaskCurrent
  let (status, k) :=
    if (k.mtxs mtx).holder ≠ none then
      (0, k.setMtx mtx { k.mtxs mtx with holder := callingThread })
    else (-1, k)
  (status, k.endCritical)

/-- The hand-over in `mtx_unlock` by the holder `h`. -/
def mtxRelease (k : Kernel) (mtx : Nat) (h : TaskId) : Kernel :=
  let passPrio := (k.thrds h).fixedPrio
  let k := k.setThrd h fun t => { t with fixedPrio := t.basePrio }
  if (k.mtxs mtx).wq.count > 0 then
    let (wakeup, wq) := (k.mtxs mtx).wq.pop
    let k := k.setMtx mtx { holder := wakeup.join, wq }
    let k := k.store wakeup.join fun t => { t with fixedPrio := passPrio, workingPrio := passPrio }
    k.osTaskUnpause wakeup.join
  else k.setMtx mtx { k.mtxs mtx with holder := none }

/-- `mtx_unlock`: the status, or `none` where it ends in `os_panic` and does not return. -/
def mtxUnlock (k : Kernel) (mtx : Nat) : Option Int × Kernel :=
  let k := k.startCritical
  let (current, k) := k.osTaskCurrent
  if (k.mtxs mtx).holder ≠ current then (none, k.osPanic)
  else
    match (k.mtxs mtx).holder with
    | none => (some 0, { k with fault := true })
    | some h => (some 0, (k.mtxRelease mtx h).endCritical)

/-- The second critical section of `mtx_timedlock`; `none` where it ends in `os_panic`. -/
def mtxTimedlockLeave (k : Kernel) (mtx : Nat) (callingThread : TaskId) (locked : Bool) :
    Option Int × Kernel :=
  let k := k.startCritical
  if !locked ∧ (k.mtxs mtx).holder ≠ some callingThread then
    let k := k.store (some callingThread) fun t => { t with state := .ACTIVE }
    match k.mtxUnlock mtx with
    | (none, k) => (none, k)
    | (some _, k) => (some (-1), k.endCritical)
  else (some 0, k.endCritical)

end Kernel

end MsTos
