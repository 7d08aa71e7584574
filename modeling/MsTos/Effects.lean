-- SUMMARY: What the kernel's calls do when they are made with interrupts enabled, without their critical sections.
import MsTos.Conditions

namespace MsTos

namespace Kernel

variable {k : Kernel} {t u h : TaskId} {s : SemId} {m n : Nat}

/-! ## Common effects -/

/-- Interrupts are enabled, and no tick is requested. -/
def Open (k : Kernel) : Prop := k.irq = ⟨0, true, false⟩

/-- In the outermost critical section, with no tick requested. -/
def Closed (k : Kernel) : Prop := k.irq = ⟨1, false, false⟩

/-- A thread leaves the run queue, and a tick is requested. -/
def leave (k : Kernel) (t : TaskId) : Kernel :=
  { (k.osDelTaskMmang (some t)).2 with irq := k.irq.request }

/-- A thread joins the run queue. -/
def wake (k : Kernel) (u : TaskId) : Kernel :=
  ((k.setThrd u fun t => { t with state := .ACTIVE }).osAddTaskMmang (some u)).2

def block (k : Kernel) (t : TaskId) : Kernel :=
  (k.setThrd t fun t => { t with state := .BLOCKING }).leave t

def sleep (k : Kernel) (t : TaskId) : Kernel :=
  k.setThrd t fun t => { t with state := .SLEEPING, workingPrio := t.fixedPrio }

/-- A thread waits with a deadline. -/
def arm (k : Kernel) (t : TaskId) (n : Nat) : Kernel :=
  { k with tWaitqueue := (k.tWaitqueue.push n ⟨some t, n⟩).2 }

/-- `++sem->val`. -/
def semUp (k : Kernel) (s : SemId) : Kernel :=
  k.setSem s { k.sems s with val := toInt ((k.sems s).val + 1) }

/-- The oldest waiter leaves the wait queue of a semaphore. -/
def semDequeue (k : Kernel) (s : SemId) : Kernel :=
  k.setSem s { k.sems s with wq := (k.sems s).wq.pop.2 }

@[simp] theorem startCritical_sems : k.startCritical.sems = k.sems := rfl

@[simp] theorem startCritical_mtxs : k.startCritical.mtxs = k.mtxs := rfl

theorem osTaskPause_eq (hi : k.Open) : k.osTaskPause (some t) = k.leave t := by
  cases k
  subst hi
  rfl

/-- The thread that ends the outermost critical section blocks. -/
theorem osTaskBlock_closed (hi : k.Open) :
    ({ k with irq := ⟨1, false, false⟩ }.osTaskBlock (some t)).endCritical = k.block t := by
  cases k
  subst hi
  rfl

/-- It waits with a timeout. -/
theorem osTaskTimedwait_closed (hi : k.Open) :
    ({ k with irq := ⟨1, false, false⟩ }.osTaskTimedwait (some t) n).endCritical =
      if n = 0 then k.osTaskYield else ((k.arm t n).sleep t).leave t := by
  cases k
  subst hi
  unfold osTaskTimedwait
  split <;> rfl

/-! ## Semaphores -/

theorem semDown_neg_iff : ((k.startCritical.semDown s).sems s).val < 0 ↔ k.SemBlocks s := by
  rw [semDown_val]
  rfl

theorem semEnqueue_closed (hi : k.Open) :
    (k.startCritical.semDown s).osTaskCurrent.2.semEnqueue s (some t) =
      { (k.semDown s).semEnqueue s (some t) with irq := ⟨1, false, false⟩ } := by
  cases k
  subst hi
  rfl

theorem semWait_of_blocks (hi : k.Open) (hr : k.runPtr = some t) (hb : k.SemBlocks s) :
    k.semWait s = ((k.semDown s).semEnqueue s (some t)).block t := by
  have hcur : (k.startCritical.semDown s).osTaskCurrent.1 = some t := hr
  unfold semWait
  dsimp only
  rw [if_pos (semDown_neg_iff.2 hb), hcur, semEnqueue_closed hi]
  exact osTaskBlock_closed hi

theorem semWait_of_not_blocks (hi : k.Open) (hb : ¬ k.SemBlocks s) :
    k.semWait s = k.semDown s := by
  unfold semWait
  dsimp only
  rw [if_neg (semDown_neg_iff.not.2 hb)]
  cases k
  subst hi
  rfl

theorem semTimedwaitEnter_of_blocks (hi : k.Open) (hr : k.runPtr = some t) (hb : k.SemBlocks s) :
    k.semTimedwaitEnter s n = (false,
      if n = 0 then ((k.semDown s).semEnqueue s (some t)).osTaskYield
      else ((((k.semDown s).semEnqueue s (some t)).arm t n).sleep t).leave t) := by
  have hcur : (k.startCritical.semDown s).osTaskCurrent.1 = some t := hr
  unfold semTimedwaitEnter
  dsimp only
  rw [if_pos (semDown_neg_iff.2 hb), hcur, semEnqueue_closed hi]
  exact congrArg (Prod.mk false) (osTaskTimedwait_closed hi)

theorem semTimedwaitEnter_of_not_blocks (hi : k.Open) (hb : ¬ k.SemBlocks s) :
    k.semTimedwaitEnter s n = (true, k.semDown s) := by
  unfold semTimedwaitEnter
  dsimp only
  rw [if_neg (semDown_neg_iff.not.2 hb)]
  cases k
  subst hi
  rfl

theorem semTrywait_of_pos (hi : k.Open) (hv : 0 < (k.sems s).val) :
    k.semTrywait s = (0, k.semDown s) := by
  have hv' : (k.startCritical.sems s).val > 0 := hv
  unfold semTrywait
  dsimp only
  rw [if_pos hv']
  cases k
  subst hi
  rfl

theorem semTrywait_of_not_pos (hi : k.Open) (hv : ¬ 0 < (k.sems s).val) :
    k.semTrywait s = (-1, k) := by
  have hv' : ¬ (k.startCritical.sems s).val > 0 := hv
  unfold semTrywait
  dsimp only
  rw [if_neg hv']
  cases k
  subst hi
  rfl

theorem semPost_of_pos (hi : k.Open ∨ k.Closed) (hv : 0 < toInt ((k.sems s).val + 1)) :
    k.semPost s = k.semUp s := by
  unfold semPost setSem
  simp only [startCritical_sems, Function.update_self]
  rw [if_neg (not_le.2 hv)]
  cases k
  rcases hi with hi | hi <;> subst hi <;> rfl

theorem semPost_of_some (hi : k.Open ∨ k.Closed) (hv : ¬ 0 < toInt ((k.sems s).val + 1))
    (hp : (k.sems s).wq.pop.1 = some (some u)) :
    k.semPost s = ((k.semUp s).semDequeue s).wake u := by
  unfold semPost semDequeue semUp setSem
  simp only [startCritical_sems, Function.update_self, Function.update_idem, hp]
  rw [if_pos (not_lt.1 hv)]
  cases k
  rcases hi with hi | hi <;> subst hi <;> rfl

theorem semPost_of_none (hi : k.Open ∨ k.Closed) (hv : ¬ 0 < toInt ((k.sems s).val + 1))
    (hp : (k.sems s).wq.pop = (none, (k.sems s).wq)) :
    k.semPost s = { k.semUp s with fault := true } := by
  unfold semPost semUp setSem
  simp only [startCritical_sems, Function.update_self, Function.update_idem, hp]
  rw [if_pos (not_lt.1 hv)]
  cases k
  rcases hi with hi | hi <;> subst hi <;> rfl

theorem semTimedwaitLeave_of_sleeping (hs : (k.thrds t).state = .SLEEPING) :
    k.semTimedwaitLeave s t false =
      (-1, (((k.startCritical.setThrd t fun t => { t with state := .ACTIVE }).semPost
        s)).endCritical) := by
  have hc : (!false) = true ∧ (k.startCritical.thrds t).state = .SLEEPING := ⟨rfl, hs⟩
  unfold semTimedwaitLeave
  dsimp only
  rw [if_pos hc]
  rfl

theorem semTimedwaitLeave_of_not_sleeping (hi : k.Open) {locked : Bool}
    (hs : locked = false → (k.thrds t).state ≠ .SLEEPING) :
    k.semTimedwaitLeave s t locked = (0, k) := by
  have hc : ¬ ((!locked) = true ∧ (k.startCritical.thrds t).state = .SLEEPING) := by
    rintro ⟨hl, hst⟩
    exact hs (by simpa using hl) hst
  unfold semTimedwaitLeave
  dsimp only
  rw [if_neg hc]
  cases k
  subst hi
  rfl

/-! ## Mutexes -/

/-- The control blocks after `t` has lent its priority to `h`. -/
def boost (thrds : TaskId → Thrd) (h t : TaskId) : TaskId → Thrd :=
  if (thrds t).fixedPrio > (thrds h).fixedPrio then
    Function.update thrds h
      { thrds h with
        workingPrio :=
          ((thrds h).workingPrio + ((thrds t).fixedPrio - (thrds h).fixedPrio)) % wordSize
        fixedPrio := (thrds t).fixedPrio }
  else thrds

theorem mtxBoost_eq (k : Kernel) (h t : TaskId) :
    k.mtxBoost h t = { k with thrds := boost k.thrds h t } := by
  unfold mtxBoost boost
  dsimp only
  split <;> rfl

theorem mtxEnqueue_open (hi : k.Open) : ((k.mtxBoost h t).mtxEnqueue m (some t)).Open := by
  rw [mtxBoost_eq]
  exact hi

theorem mtxEnqueue_closed (hi : k.Open) :
    (k.startCritical.osTaskCurrent.2.mtxBoost h t).mtxEnqueue m (some t) =
      { (k.mtxBoost h t).mtxEnqueue m (some t) with irq := ⟨1, false, false⟩ } := by
  rw [mtxBoost_eq, mtxBoost_eq]
  cases k
  subst hi
  rfl

theorem mtxLock_of_held (hi : k.Open) (hr : k.runPtr = some t) (hh : (k.mtxs m).holder = some h) :
    k.mtxLock m = ((k.mtxBoost h t).mtxEnqueue m (some t)).block t := by
  have hh' : (k.startCritical.osTaskCurrent.2.mtxs m).holder = some h := hh
  have hr' : k.startCritical.osTaskCurrent.1 = some t := hr
  unfold mtxLock
  simp only [hh', hr', mtxEnqueue_closed hi]
  exact osTaskBlock_closed (mtxEnqueue_open hi)

theorem mtxLock_of_free (hi : k.Open) (hr : k.runPtr = some t) (hh : (k.mtxs m).holder = none) :
    k.mtxLock m = k.setMtx m { k.mtxs m with holder := some t } := by
  have hh' : (k.startCritical.osTaskCurrent.2.mtxs m).holder = none := hh
  have hr' : k.startCritical.osTaskCurrent.1 = some t := hr
  unfold mtxLock
  simp only [hh', hr']
  cases k
  subst hi
  rfl

theorem mtxTimedlockEnter_of_held (hi : k.Open) (hr : k.runPtr = some t)
    (hh : (k.mtxs m).holder = some h) :
    k.mtxTimedlockEnter m n = (false,
      if n = 0 then ((k.mtxBoost h t).mtxEnqueue m (some t)).osTaskYield
      else ((((k.mtxBoost h t).mtxEnqueue m (some t)).arm t n).sleep t).leave t) := by
  have hh' : (k.startCritical.osTaskCurrent.2.mtxs m).holder = some h := hh
  have hr' : k.startCritical.osTaskCurrent.1 = some t := hr
  unfold mtxTimedlockEnter
  simp only [hh', hr', mtxEnqueue_closed hi]
  exact congrArg (Prod.mk false) (osTaskTimedwait_closed (mtxEnqueue_open hi))

theorem mtxTimedlockEnter_of_free (hi : k.Open) (hr : k.runPtr = some t)
    (hh : (k.mtxs m).holder = none) :
    k.mtxTimedlockEnter m n = (true, k.setMtx m { k.mtxs m with holder := some t }) := by
  have hh' : (k.startCritical.osTaskCurrent.2.mtxs m).holder = none := hh
  have hr' : k.startCritical.osTaskCurrent.1 = some t := hr
  unfold mtxTimedlockEnter
  simp only [hh', hr']
  cases k
  subst hi
  rfl

theorem mtxTrylock_of_held (hi : k.Open) (hr : k.runPtr = some t)
    (hh : (k.mtxs m).holder ≠ none) :
    k.mtxTrylock m = (0, k.setMtx m { k.mtxs m with holder := some t }) := by
  have hh' : (k.startCritical.osTaskCurrent.2.mtxs m).holder ≠ none := hh
  have hr' : k.startCritical.osTaskCurrent.1 = some t := hr
  unfold mtxTrylock
  dsimp only
  rw [if_pos hh', hr']
  cases k
  subst hi
  rfl

theorem mtxTrylock_of_free (hi : k.Open) (hh : (k.mtxs m).holder = none) :
    k.mtxTrylock m = (-1, k) := by
  have hh' : ¬ (k.startCritical.osTaskCurrent.2.mtxs m).holder ≠ none := not_not.2 hh
  unfold mtxTrylock
  dsimp only
  rw [if_neg hh']
  cases k
  subst hi
  rfl

/-- The holder of a mutex gives up what it was lent. -/
def restore (k : Kernel) (t : TaskId) : Kernel :=
  k.setThrd t fun thrd => { thrd with fixedPrio := thrd.basePrio }

/-- `u` becomes the holder of a mutex. -/
def handOver (k : Kernel) (m : Nat) (u : TaskId) (prio : Nat) : Kernel :=
  ((k.setMtx m { holder := some u, wq := (k.mtxs m).wq.pop.2 }).setThrd u fun t =>
    { t with fixedPrio := prio, workingPrio := prio }).wake u

theorem mtxUnlock_of_waiter (hi : k.Open) (hr : k.runPtr = some t)
    (hh : (k.mtxs m).holder = some t) (hc : 0 < (k.mtxs m).wq.count)
    (hp : (k.mtxs m).wq.pop.1 = some (some u)) :
    k.mtxUnlock m = (some 0, (k.restore t).handOver m u (k.thrds t).fixedPrio) := by
  have hh' : (k.startCritical.osTaskCurrent.2.mtxs m).holder = some t := hh
  have hr' : k.startCritical.osTaskCurrent.1 = some t := hr
  unfold mtxUnlock mtxRelease
  simp only [hh', hr', ne_eq, not_true_eq_false, if_false]
  have hc' : ((k.startCritical.osTaskCurrent.2.setThrd t fun thrd =>
    { thrd with fixedPrio := thrd.basePrio }).mtxs m).wq.count > 0 := hc
  have hp' : ((k.startCritical.osTaskCurrent.2.setThrd t fun thrd =>
    { thrd with fixedPrio := thrd.basePrio }).mtxs m).wq.pop.1 = some (some u) := hp
  rw [if_pos hc', hp']
  cases k
  subst hi
  rfl

theorem mtxUnlock_of_no_waiter (hi : k.Open) (hr : k.runPtr = some t)
    (hh : (k.mtxs m).holder = some t) (hc : (k.mtxs m).wq.count = 0) :
    k.mtxUnlock m =
      (some 0, (k.restore t).setMtx m { k.mtxs m with holder := none }) := by
  have hh' : (k.startCritical.osTaskCurrent.2.mtxs m).holder = some t := hh
  have hr' : k.startCritical.osTaskCurrent.1 = some t := hr
  unfold mtxUnlock mtxRelease
  simp only [hh', hr', ne_eq, not_true_eq_false, if_false]
  have hc' : ¬ ((k.startCritical.osTaskCurrent.2.setThrd t fun thrd =>
    { thrd with fixedPrio := thrd.basePrio }).mtxs m).wq.count > 0 := not_lt.2 hc.le
  rw [if_neg hc']
  cases k
  subst hi
  rfl

theorem mtxTimedlockLeave_of_holder (hi : k.Open) {locked : Bool}
    (hh : locked = false → (k.mtxs m).holder = some t) :
    k.mtxTimedlockLeave m t locked = (some 0, k) := by
  have hc : ¬ ((!locked) = true ∧ (k.startCritical.mtxs m).holder ≠ some t) := by
    rintro ⟨hl, hne⟩
    exact hne (hh (by simpa using hl))
  unfold mtxTimedlockLeave
  dsimp only
  rw [if_neg hc]
  cases k
  subst hi
  rfl

/-! ## Threads -/

theorem osTaskSleepEnter_eq (hi : k.Open) : k.osTaskSleepEnter (some t) n =
    { k with sleepQueue := (k.sleepQueue.push n ⟨some t, n⟩).2 }.sleep t := by
  cases k
  subst hi
  rfl

theorem osTaskKill_eq (hi : k.Open) {i : Fin numThreads} (hr : k.runPtr = some (.slot i)) :
    k.osTaskKill =
      { k.leave (.slot i) with taskMem := poolFree k.taskMem (itemAddr i) } := by
  cases k
  subst hi hr
  rfl

theorem wakeJoiners_of_count (hc : (k.sems (.join t)).wq.count = 0) (r : Int) (fuel : Nat)
    (hf : fuel ≠ 0) : wakeJoiners t r fuel k = k := by
  cases fuel with
  | zero => exact absurd rfl hf
  | succ fuel =>
      unfold wakeJoiners
      dsimp only
      rw [if_neg (not_lt.2 hc.le)]

/-- Without threads that join it, a thread exits without further effects. -/
theorem osTaskExit_eq (hi : k.Open) (hr : k.runPtr = some t)
    (hc : (k.sems (.join t)).wq.count = 0) (r : Int) : k.osTaskExit r = k := by
  have hr' : k.startCritical.osTaskCurrent.1 = some t := hr
  have hw := wakeJoiners_of_count (k := k.startCritical.osTaskCurrent.2) hc r
    (wordSize + numThreads) (by simp)
  unfold osTaskExit
  simp only [hr', hw]
  cases k
  subst hi
  rfl

/-- A new thread in slot `i`. -/
def created (k : Kernel) (i : Fin numThreads) (priority : Nat) : Kernel :=
  ((({ k with
      taskMem := ((poolAlloc k.taskMem).2).setSp i (initialSp i)
      runQueue.links := listElementInit k.runQueue.links (.elem (.slot i)) }.osAddTaskMmang
    (some (.slot i))).2.setSem (.join (.slot i)) (Sem.init 0)).setThrd (.slot i) fun thrd =>
      { thrd with
        basePrio := priority
        fixedPrio := priority
        workingPrio := priority
        state := .ACTIVE })

/-- A slot that is not in the run queue can be handed out. -/
theorem osTaskCreate_eq {b : Bool} (hi : k.irq = ⟨1, false, b⟩) {i : Fin numThreads}
    (ha : (poolAlloc k.taskMem).1 ≠ 0) (hit : itemAt (poolAlloc k.taskMem).1 = some i)
    (hs : (RunQueue.osAddTaskMmang { k.runQueue with
      links := listElementInit k.runQueue.links (.elem (.slot i)) } (.slot i)).1 = 0) :
    k.osTaskCreate = (some (.slot i), ({ k with
      taskMem := (poolAlloc k.taskMem).2
      runQueue.links := listElementInit k.runQueue.links (.elem (.slot i)) }.osAddTaskMmang
        (some (.slot i))).2) := by
  have ht : k.startCritical.talloc.1 = (poolAlloc k.taskMem).1 := rfl
  have hs' : ¬ (Kernel.osAddTask
      { k.startCritical.talloc.2 with
        runQueue.links := listElementInit k.startCritical.talloc.2.runQueue.links (.elem (.slot i)) }
      (some (.slot i))).1 < 0 := not_lt.2 (le_of_eq hs.symm)
  unfold osTaskCreate
  simp only [ht, if_neg ha, hit]
  rw [if_neg hs']
  cases k
  subst hi
  rfl

theorem thrdCreate_eq {b : Bool} (hi : k.irq = ⟨0, true, b⟩) {routine priority : Nat}
    (hr : routine ≠ 0) (hp : priority ≠ 0) {i : Fin numThreads}
    (ha : (poolAlloc k.taskMem).1 ≠ 0) (hit : itemAt (poolAlloc k.taskMem).1 = some i)
    (hs : (RunQueue.osAddTaskMmang { k.runQueue with
      links := listElementInit k.runQueue.links (.elem (.slot i)) } (.slot i)).1 = 0) :
    k.thrdCreate routine priority = ((0, some (.slot i)), k.created i priority) := by
  have hc := osTaskCreate_eq (k := k.startCritical) (i := i) (b := b)
    (by cases k; subst hi; rfl) ha hit hs
  unfold thrdCreate
  rw [if_neg hr, if_neg hp]
  simp only [hc]
  unfold thrdInit
  rw [if_neg hr]
  cases k
  subst hi
  rfl

end Kernel

end MsTos
