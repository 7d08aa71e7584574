-- SUMMARY: Properties of the run queue that adding tasks and changing the task keep, over every function of the kernel and every step.
import MsTos.Conditions
import MsTos.Frame

namespace MsTos

/-- Adding a task keeps the property. -/
def RunQueue.AddKept (P : RunQueue → Prop) : Prop :=
  ∀ (q : RunQueue) (t : TaskId), P q → P (q.osAddTaskMmang t).2

/-- Adding a task and changing the task keep the property. -/
structure RunQueue.Kept (P : RunQueue → Prop) : Prop where
  add : RunQueue.AddKept P
  changeTask {q : RunQueue} : P q → P q.osChangeTask.2

/-! ## The functions of the kernel -/

namespace Kernel

variable {P : RunQueue → Prop} {k : Kernel} {t h : TaskId} {s : SemId} {m : Nat}

theorem osAddTaskMmang_keeps (hP : RunQueue.AddKept P) (hk : P k.runQueue) (p : ThrdPtr) :
    P (k.osAddTaskMmang p).2.runQueue := by
  cases p with
  | none => exact hk
  | some t => exact hP _ t hk

theorem osTaskUnpause_keeps (hP : RunQueue.AddKept P) (hk : P k.runQueue) (p : ThrdPtr) :
    P (k.osTaskUnpause p).runQueue := by
  cases p with
  | none => exact hk
  | some t => exact hP _ t hk

theorem semPost_keeps (hP : RunQueue.AddKept P) (hk : P k.runQueue) (s : SemId) :
    P (k.semPost s).runQueue := by
  simp only [semPost, endCritical_runQueue]
  split
  · exact osTaskUnpause_keeps hP (by exact hk) _
  · exact hk

theorem semWait_keeps (hk : P k.runQueue) (hr : k.runPtr = some t)
    (hd : k.SemBlocks s → P (k.runQueue.osDelTaskMmang t).2) : P (k.semWait s).runQueue := by
  have hv : ((k.startCritical.semDown s).sems s).val = toInt ((k.sems s).val - 1) := by
    simp [semDown, setSem, startCritical]
  have hr' : (k.startCritical.semDown s).runPtr = some t := hr
  simp only [semWait, endCritical_runQueue, hv, osTaskCurrent_fst, hr']
  split
  · rename_i hb
    exact hd hb
  · exact hk

theorem osTaskTimedwait_keeps (hk : P k.runQueue) (n : Nat)
    (hd : n ≠ 0 → P (k.runQueue.osDelTaskMmang t).2) :
    P (k.osTaskTimedwait (some t) n).runQueue := by
  rw [osTaskTimedwait_runQueue]
  split
  · exact hk
  · rename_i hn
    exact hd hn

theorem semTimedwaitEnter_keeps (hk : P k.runQueue) (hr : k.runPtr = some t) (n : Nat)
    (hd : k.SemBlocks s → n ≠ 0 → P (k.runQueue.osDelTaskMmang t).2) :
    P (k.semTimedwaitEnter s n).2.runQueue := by
  have hv : ((k.startCritical.semDown s).sems s).val = toInt ((k.sems s).val - 1) := by
    simp [semDown, setSem, startCritical]
  have hr' : (k.startCritical.semDown s).runPtr = some t := hr
  simp only [semTimedwaitEnter, endCritical_runQueue, hv, osTaskCurrent_fst, hr']
  split
  · rename_i hb
    exact osTaskTimedwait_keeps (by exact hk) n (hd hb)
  · exact hk

theorem semTimedwaitLeave_keeps (hP : RunQueue.AddKept P) (hk : P k.runQueue) (b : Bool) :
    P (k.semTimedwaitLeave s t b).2.runQueue := by
  simp only [semTimedwaitLeave, endCritical_runQueue]
  split
  · exact semPost_keeps hP (by simpa using hk) s
  · exact hk

theorem semTrywait_keeps (hk : P k.runQueue) : P (k.semTrywait s).2.runQueue := by
  simp only [semTrywait, endCritical_runQueue]
  split <;> exact hk

theorem mtxLock_keeps (hk : P k.runQueue) (hr : k.runPtr = some t)
    (hd : k.MtxHeld m → P (k.runQueue.osDelTaskMmang t).2) : P (k.mtxLock m).runQueue := by
  simp only [mtxLock, endCritical_runQueue]
  split
  · rename_i h u hh hu
    obtain rfl : u = t := Option.some.inj (hu.symm.trans hr)
    have hheld : k.MtxHeld m := by
      intro hn
      exact absurd hn (by simp [show (k.mtxs m).holder = some h from hh])
    rw [show k.startCritical.osTaskCurrent.1 = some u from hr, osTaskBlock_runQueue]
    have hb : ((k.startCritical.osTaskCurrent.2.mtxBoost h u).mtxEnqueue m (some u)).runQueue
        = k.runQueue := by
      simp [mtxEnqueue, setMtx]
    rw [hb]
    exact hd hheld
  · exact hk
  · exact hk

theorem mtxTimedlockEnter_keeps (hk : P k.runQueue) (hr : k.runPtr = some t) (n : Nat)
    (hd : k.MtxHeld m → n ≠ 0 → P (k.runQueue.osDelTaskMmang t).2) :
    P (k.mtxTimedlockEnter m n).2.runQueue := by
  simp only [mtxTimedlockEnter, endCritical_runQueue]
  split
  · rename_i h u hh hu
    obtain rfl : u = t := Option.some.inj (hu.symm.trans hr)
    have hheld : k.MtxHeld m := by
      intro hn
      exact absurd hn (by simp [show (k.mtxs m).holder = some h from hh])
    rw [show k.startCritical.osTaskCurrent.1 = some u from hr]
    have hb : ((k.startCritical.osTaskCurrent.2.mtxBoost h u).mtxEnqueue m (some u)).runQueue
        = k.runQueue := by
      simp [mtxEnqueue, setMtx]
    exact osTaskTimedwait_keeps (by rw [hb]; exact hk) n (by rw [hb]; exact hd hheld)
  · exact hk
  · exact hk

theorem mtxTrylock_keeps (hk : P k.runQueue) : P (k.mtxTrylock m).2.runQueue := by
  simp only [mtxTrylock, endCritical_runQueue]
  split <;> exact hk

theorem mtxRelease_keeps (hP : RunQueue.AddKept P) (hk : P k.runQueue) :
    P (k.mtxRelease m h).runQueue := by
  simp only [mtxRelease]
  split
  · exact osTaskUnpause_keeps hP (by rw [store_runQueue]; exact hk) _
  · exact hk

theorem mtxUnlock_keeps (hP : RunQueue.AddKept P) (hk : P k.runQueue) :
    P (k.mtxUnlock m).2.runQueue := by
  simp only [mtxUnlock]
  split
  · exact hk
  · split
    · exact hk
    · exact mtxRelease_keeps hP (by exact hk)

theorem mtxTimedlockLeave_keeps (hP : RunQueue.AddKept P) (hk : P k.runQueue) (b : Bool) :
    P (k.mtxTimedlockLeave m t b).2.runQueue := by
  simp only [mtxTimedlockLeave]
  split
  · have hu : P ((k.startCritical.store (some t) fun t => { t with state := .ACTIVE }).mtxUnlock
        m).2.runQueue := mtxUnlock_keeps hP (by exact hk)
    split <;> rename_i h <;> simpa [h] using hu
  · exact hk

theorem wakeJoiners_keeps (hP : RunQueue.AddKept P) (hk : P k.runQueue) (r : Int) (fuel : Nat) :
    P (wakeJoiners t r fuel k).runQueue := by
  induction fuel generalizing k with
  | zero => exact hk
  | succ fuel ih =>
      simp only [wakeJoiners]
      split
      · exact ih (semPost_keeps hP (by rw [store_runQueue]; exact hk) _)
      · exact hk

theorem osTaskExit_keeps (hP : RunQueue.AddKept P) (hk : P k.runQueue) (r : Int) :
    P (k.osTaskExit r).runQueue := by
  simp only [osTaskExit, endCritical_runQueue]
  split
  · exact hk
  · exact wakeJoiners_keeps hP (by exact hk) r _

theorem osTaskKill_keeps (hr : k.runPtr = some t)
    (hd : P (k.runQueue.osDelTaskMmang t).2) : P k.osTaskKill.runQueue := by
  have he : k.osTaskKill.runQueue = (k.runQueue.osDelTaskMmang t).2 := by
    simp only [osTaskKill, tfree, endCritical_runQueue, osTaskYield_runQueue, osTaskCurrent_fst,
      startCritical_runQueue, show k.startCritical.runPtr = some t from hr]
    split <;> simp
  rw [he]
  exact hd

theorem thrdInit_runQueue (routine priority : Nat) :
    (k.thrdInit t routine priority).2.runQueue = k.runQueue := by
  unfold thrdInit semInit
  cases t with
  | idle => split <;> rfl
  | slot i => split <;> rfl

theorem osTaskCreate_keeps (hP : RunQueue.AddKept P) (hk : P k.runQueue)
    (ha : ∀ i, itemAt (poolAlloc k.taskMem).1 = some i →
      P { k.runQueue with links := listElementInit k.runQueue.links (.elem (.slot i)) }) :
    P k.osTaskCreate.2.runQueue := by
  have hk' : P k.startCritical.talloc.2.runQueue := hk
  have ht : k.startCritical.talloc.1 = (poolAlloc k.taskMem).1 := rfl
  unfold osTaskCreate
  simp only [ht]
  split
  · exact hk'
  · cases hi : itemAt (poolAlloc k.taskMem).1 with
    | none => exact hk'
    | some i =>
        have hadd := hP _ (.slot i) (ha i hi)
        dsimp only
        split <;> exact hadd

theorem thrdCreate_keeps (hP : RunQueue.AddKept P) {routine priority : Nat} (hk : P k.runQueue)
    (ha : routine ≠ 0 → priority ≠ 0 →
      ∀ i, itemAt (poolAlloc k.taskMem).1 = some i →
        P { k.runQueue with links := listElementInit k.runQueue.links (.elem (.slot i)) }) :
    P (k.thrdCreate routine priority).2.runQueue := by
  unfold thrdCreate
  split
  · exact hk
  · split
    · exact hk
    · rename_i hr hp
      have hc : P k.startCritical.osTaskCreate.2.runQueue := osTaskCreate_keeps hP hk (ha hr hp)
      dsimp only
      split
      · exact hc
      · rw [endCritical_runQueue, thrdInit_runQueue]
        exact hc

/-! ## The tick -/

theorem wakeSleepers_keeps (hP : RunQueue.AddKept P) (hk : P k.runQueue) (thresh fuel : Nat) :
    P (wakeSleepers thresh fuel k).runQueue := by
  induction fuel generalizing k with
  | zero => exact hk
  | succ fuel ih =>
      simp only [wakeSleepers]
      split
      · split
        · refine ih ?_
          rw [store_runQueue]
          exact osAddTaskMmang_keeps hP (by exact hk) _
        · exact hk
      · exact hk

theorem expireDeadlines_keeps (hP : RunQueue.AddKept P) (hk : P k.runQueue) (thresh fuel : Nat) :
    P (expireDeadlines thresh fuel k).runQueue := by
  induction fuel generalizing k with
  | zero => exact hk
  | succ fuel ih =>
      simp only [expireDeadlines]
      split
      · split
        · exact ih (osAddTaskMmang_keeps hP (by exact hk) _)
        · exact hk
      · exact hk

theorem osUpdate_keeps (hP : RunQueue.AddKept P) (hk : P k.runQueue) : P k.osUpdate.runQueue :=
  expireDeadlines_keeps hP (wakeSleepers_keeps hP (by exact hk) _ _) _ _

theorem osChangeTask_keeps (hP : RunQueue.Kept P) (hk : P k.runQueue) : P k.osChangeTask.runQueue :=
  hP.changeTask hk

theorem osNext_keeps (hP : RunQueue.Kept P) (hk : P k.runQueue) : P k.osNext.runQueue := by
  unfold osNext
  cases k.runPtr with
  | none => exact hk
  | some t =>
      dsimp only
      split
      · exact osChangeTask_keeps hP (by exact hk)
      · split
        · exact osChangeTask_keeps hP (by exact hk)
        · exact hk

theorem osSchedule_keeps (hP : RunQueue.Kept P) (hk : P k.runQueue) : P k.osSchedule.runQueue := by
  unfold osSchedule
  split
  · exact osNext_keeps hP hk
  · exact hk

theorem osFirstTask_keeps (hP : RunQueue.Kept P) (hk : P k.runQueue) :
    P k.osFirstTask.runQueue := by
  unfold osFirstTask
  split
  · exact osChangeTask_keeps hP hk
  · exact hk

end Kernel

/-! ## Steps of the system -/

namespace Sys

variable {P : RunQueue → Prop} {s s' : Sys} {t : TaskId} {a : Action} {e : Option Event}

theorem osTick_keeps (hP : RunQueue.Kept P) {k : Kernel} (hk : P k.runQueue) (sp : Addr) :
    P (osTick k sp).runQueue :=
  Kernel.osSchedule_keeps hP (Kernel.osUpdate_keeps hP.add (by exact hk))

/-- If the step creates a thread, clearing the links of its slot keeps the property. -/
def CreateKeeps (s : Sys) (P : RunQueue → Prop) (a : Action) : Prop :=
  creates a = true → ∀ i, itemAt (poolAlloc s.k.taskMem).1 = some i →
    P { s.k.runQueue with links := listElementInit s.k.runQueue.links (.elem (.slot i)) }

theorem stepCall_keeps (hP : RunQueue.AddKept P) (c : Call) (hk : P s.k.runQueue)
    (hr : s.k.runPtr = some t) (hc : s.CreateKeeps P (.call c))
    (hd : s.callDeletes c = true → P (s.k.runQueue.osDelTaskMmang t).2) :
    P (s.stepCall t c).2.k.runQueue := by
  cases c with
  | thrdCreate routine priority =>
      simp only [stepCall, complete_k, spawn_k]
      exact Kernel.thrdCreate_keeps hP hk fun hr hp => hc (decide_eq_true ⟨hr, hp⟩)
  | thrdYield => simpa [stepCall] using hk
  | thrdSleep ticks =>
      unfold stepCall
      dsimp only
      split <;> simpa using hk
  | thrdExit retCode => exact Kernel.osTaskExit_keeps hP hk retCode
  | thrdJoin other =>
      exact Kernel.semWait_keeps hk hr fun hb => hd (decide_eq_true hb)
  | semWait sem =>
      simp only [stepCall, complete_k]
      exact Kernel.semWait_keeps hk hr fun hb => hd (decide_eq_true hb)
  | semTimedwait sem timeout =>
      exact Kernel.semTimedwaitEnter_keeps hk hr _ fun hb hn => hd (decide_eq_true ⟨hb, hn⟩)
  | semTrywait sem =>
      simp only [stepCall, complete_k]
      exact Kernel.semTrywait_keeps hk
  | semPost sem =>
      simp only [stepCall, complete_k]
      exact Kernel.semPost_keeps hP hk _
  | mtxLock mtx =>
      simp only [stepCall, complete_k]
      exact Kernel.mtxLock_keeps hk hr fun hb => hd (decide_eq_true hb)
  | mtxTimedlock mtx timeout =>
      exact Kernel.mtxTimedlockEnter_keeps hk hr _ fun hb hn => hd (decide_eq_true ⟨hb, hn⟩)
  | mtxTrylock mtx =>
      simp only [stepCall, complete_k]
      exact Kernel.mtxTrylock_keeps hk
  | mtxUnlock mtx =>
      have hu : P (s.k.mtxUnlock mtx).2.runQueue := Kernel.mtxUnlock_keeps hP hk
      unfold stepCall
      dsimp only
      split <;> rename_i he <;> rw [he] at hu
      · exact hu
      · rw [complete_k]
        exact hu

theorem stepResume_keeps (hP : RunQueue.AddKept P) (hk : P s.k.runQueue) (hr : s.k.runPtr = some t)
    (hd : s.resumeDeletes t = true → P (s.k.runQueue.osDelTaskMmang t).2)
    (hs : s.stepResume t = some (e, s')) : P s'.k.runQueue := by
  cases resumes_of_stepResume hs with
  | ret => exact hk
  | sleepPause ticks hpc =>
      rw [complete_k]
      exact hd (by simp [resumeDeletes, hpc])
  | semTimedwait n timeout locked =>
      rw [complete_k]
      exact Kernel.semTimedwaitLeave_keeps hP hk locked
  | mtxTimedlock m timeout locked =>
      rw [complete_k]
      exact Kernel.mtxTimedlockLeave_keeps hP hk locked
  | mtxPanic m timeout locked => exact Kernel.mtxTimedlockLeave_keeps hP hk locked
  | join =>
      rw [complete_k]
      exact hk
  | kill hpc => exact Kernel.osTaskKill_keeps hr (hd (by simp [resumeDeletes, hpc]))

theorem step_keeps (hP : RunQueue.Kept P) (hk : P s.k.runQueue) (hc : s.CreateKeeps P a)
    (hd : ∀ t, s.deletes a t = true → P (s.k.runQueue.osDelTaskMmang t).2)
    (hs : s.step a = some (e, s')) :
    P s'.k.runQueue := by
  cases (steps_of_step hs).2 with
  | create routine priority hr =>
      rw [spawn_k]
      exact Kernel.thrdCreate_keeps hP.add hk fun hr hp => hc (decide_eq_true ⟨hr, hp⟩)
  | launch hr => exact Kernel.osFirstTask_keeps hP hk
  | call c hr hpc hp =>
      exact stepCall_keeps hP.add c hk hr hc fun hcd => hd _ (decide_eq_true ⟨hr, hcd⟩)
  | resume hr hp hs =>
      exact stepResume_keeps hP.add hk hr (fun hrd => hd _ (decide_eq_true ⟨hr, hrd⟩)) hs
  | tick sp hr hgie => exact osTick_keeps hP hk sp

end Sys

end MsTos
