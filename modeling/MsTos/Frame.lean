-- SUMMARY: What the kernel's functions do to the run queue and to the pool, for any state of the interrupts.
import MsTos.System

namespace MsTos

/-- The variables of the kernel that only creation, the end of a thread, `os_task_sleep` and the
tick change. -/
structure Base where
  sleepQueue : PQueue SleepDeadline numThreads
  osTickCnt : Nat
  taskMem : Pool
  runPtr : ThrdPtr

namespace Kernel

def base (k : Kernel) : Base := ⟨k.sleepQueue, k.osTickCnt, k.taskMem, k.runPtr⟩

variable (k : Kernel) (t : TaskId) (p : ThrdPtr) (f : Thrd → Thrd) (s : SemId) (m : Nat)

/-! ## Stores -/

@[simp] theorem startCritical_runQueue : k.startCritical.runQueue = k.runQueue := rfl
@[simp] theorem startCritical_taskMem : k.startCritical.taskMem = k.taskMem := rfl
@[simp] theorem startCritical_base : k.startCritical.base = k.base := rfl
@[simp] theorem endCritical_runQueue : k.endCritical.runQueue = k.runQueue := rfl
@[simp] theorem endCritical_taskMem : k.endCritical.taskMem = k.taskMem := rfl
@[simp] theorem endCritical_base : k.endCritical.base = k.base := rfl
@[simp] theorem osTaskYield_runQueue : k.osTaskYield.runQueue = k.runQueue := rfl
@[simp] theorem osTaskYield_taskMem : k.osTaskYield.taskMem = k.taskMem := rfl
@[simp] theorem osTaskYield_base : k.osTaskYield.base = k.base := rfl
@[simp] theorem osTaskCurrent_fst : k.osTaskCurrent.1 = k.runPtr := rfl
@[simp] theorem osTaskCurrent_runQueue : k.osTaskCurrent.2.runQueue = k.runQueue := rfl
@[simp] theorem osTaskCurrent_taskMem : k.osTaskCurrent.2.taskMem = k.taskMem := rfl
@[simp] theorem osTaskCurrent_base : k.osTaskCurrent.2.base = k.base := rfl
@[simp] theorem setThrd_runQueue : (k.setThrd t f).runQueue = k.runQueue := rfl
@[simp] theorem setSem_base (sem : Sem) : (k.setSem s sem).base = k.base := rfl
@[simp] theorem setMtx_base (mtx : Mtx) : (k.setMtx m mtx).base = k.base := rfl
@[simp] theorem setThrd_taskMem : (k.setThrd t f).taskMem = k.taskMem := rfl
@[simp] theorem setThrd_base : (k.setThrd t f).base = k.base := rfl

@[simp] theorem store_runQueue : (k.store p f).runQueue = k.runQueue := by
  cases p <;> rfl

@[simp] theorem store_taskMem : (k.store p f).taskMem = k.taskMem := by
  cases p <;> rfl

@[simp] theorem store_base : (k.store p f).base = k.base := by
  cases p <;> rfl

@[simp] theorem mtxBoost_runQueue (h : TaskId) : (k.mtxBoost h t).runQueue = k.runQueue := by
  simp only [mtxBoost]
  split <;> rfl

@[simp] theorem mtxBoost_taskMem (h : TaskId) : (k.mtxBoost h t).taskMem = k.taskMem := by
  simp only [mtxBoost]
  split <;> rfl

@[simp] theorem mtxBoost_base (h : TaskId) : (k.mtxBoost h t).base = k.base := by
  simp only [mtxBoost]
  split <;> rfl

/-! ## Adding and removing tasks -/

@[simp] theorem osAddTask_taskMem : (k.osAddTask p).2.taskMem = k.taskMem := by
  cases p <;> rfl

@[simp] theorem osAddTask_base : (k.osAddTask p).2.base = k.base := by
  cases p <;> rfl

@[simp] theorem osAddTaskMmang_taskMem : (k.osAddTaskMmang p).2.taskMem = k.taskMem := by
  cases p <;> rfl

@[simp] theorem osAddTaskMmang_base : (k.osAddTaskMmang p).2.base = k.base := by
  cases p <;> rfl

@[simp] theorem osDelTask_taskMem : (k.osDelTask p).2.taskMem = k.taskMem := by
  cases p <;> rfl

@[simp] theorem osDelTask_base : (k.osDelTask p).2.base = k.base := by
  cases p <;> rfl

@[simp] theorem osAddTask_runQueue :
    (k.osAddTask (some t)).2.runQueue = (k.runQueue.osAddTaskMmang t).2 := rfl

@[simp] theorem osDelTask_runQueue :
    (k.osDelTask (some t)).2.runQueue = (k.runQueue.osDelTaskMmang t).2 := rfl

@[simp] theorem osTaskPause_runQueue :
    (k.osTaskPause (some t)).runQueue = (k.runQueue.osDelTaskMmang t).2 := rfl

@[simp] theorem osTaskPause_taskMem : (k.osTaskPause p).taskMem = k.taskMem := by
  cases p <;> rfl

@[simp] theorem osTaskPause_base : (k.osTaskPause p).base = k.base := by
  cases p <;> rfl

@[simp] theorem osTaskBlock_runQueue :
    (k.osTaskBlock (some t)).runQueue = (k.runQueue.osDelTaskMmang t).2 := rfl

@[simp] theorem osTaskBlock_taskMem : (k.osTaskBlock p).taskMem = k.taskMem := by
  rw [osTaskBlock, endCritical_taskMem, osTaskPause_taskMem, store_taskMem, startCritical_taskMem]

@[simp] theorem osTaskBlock_base : (k.osTaskBlock p).base = k.base := by
  rw [osTaskBlock, endCritical_base, osTaskPause_base, store_base, startCritical_base]

@[simp] theorem osTaskUnpause_taskMem : (k.osTaskUnpause p).taskMem = k.taskMem := by
  cases p <;> rfl

@[simp] theorem osTaskUnpause_base : (k.osTaskUnpause p).base = k.base := by
  cases p <;> rfl

@[simp] theorem osTaskSleepEnter_runQueue (n : Nat) :
    (k.osTaskSleepEnter p n).runQueue = k.runQueue := by
  simp [osTaskSleepEnter]

@[simp] theorem osTaskSleepEnter_taskMem (n : Nat) :
    (k.osTaskSleepEnter p n).taskMem = k.taskMem := by
  simp [osTaskSleepEnter]

theorem osTaskTimedwait_runQueue (n : Nat) :
    (k.osTaskTimedwait (some t) n).runQueue =
      if n = 0 then k.runQueue else (k.runQueue.osDelTaskMmang t).2 := by
  simp only [osTaskTimedwait]
  split <;> simp

@[simp] theorem osTaskTimedwait_base (n : Nat) : (k.osTaskTimedwait p n).base = k.base := by
  simp only [osTaskTimedwait]
  split
  · simp
  · rw [osTaskPause_base, endCritical_base, store_base]
    rfl

/-! ## The base of the kernel -/

@[simp] theorem semWait_base : (k.semWait s).base = k.base := by
  simp only [semWait, endCritical_base]
  split <;> simp [semEnqueue, semDown]

@[simp] theorem semPost_base : (k.semPost s).base = k.base := by
  simp only [semPost, endCritical_base]
  split <;> simp

@[simp] theorem semTimedwaitEnter_base (n : Nat) :
    (k.semTimedwaitEnter s n).2.base = k.base := by
  simp only [semTimedwaitEnter, endCritical_base]
  split <;> simp [semEnqueue, semDown]

@[simp] theorem semTimedwaitLeave_base (b : Bool) :
    (k.semTimedwaitLeave s t b).2.base = k.base := by
  simp only [semTimedwaitLeave, endCritical_base]
  split <;> simp

@[simp] theorem semTrywait_base : (k.semTrywait s).2.base = k.base := by
  simp only [semTrywait, endCritical_base]
  split <;> simp [semDown]

@[simp] theorem mtxLock_base : (k.mtxLock m).base = k.base := by
  simp only [mtxLock, endCritical_base]
  split
  · simp [mtxEnqueue]
  · rfl
  · simp

@[simp] theorem mtxTimedlockEnter_base (n : Nat) :
    (k.mtxTimedlockEnter m n).2.base = k.base := by
  simp only [mtxTimedlockEnter, endCritical_base]
  split
  · simp [mtxEnqueue]
  · rfl
  · simp

@[simp] theorem mtxTrylock_base : (k.mtxTrylock m).2.base = k.base := by
  simp only [mtxTrylock, endCritical_base]
  split <;> simp

@[simp] theorem mtxRelease_base (h : TaskId) : (k.mtxRelease m h).base = k.base := by
  simp only [mtxRelease]
  split <;> simp

@[simp] theorem mtxUnlock_base : (k.mtxUnlock m).2.base = k.base := by
  simp only [mtxUnlock]
  split
  · rfl
  · split
    · rfl
    · simp

@[simp] theorem mtxTimedlockLeave_base (b : Bool) :
    (k.mtxTimedlockLeave m t b).2.base = k.base := by
  simp only [mtxTimedlockLeave]
  split
  · split <;> rename_i h <;> simpa using congrArg (fun r => r.2.base) h.symm
  · simp

@[simp] theorem wakeJoiners_base (r : Int) (fuel : Nat) :
    (wakeJoiners t r fuel k).base = k.base := by
  induction fuel generalizing k with
  | zero => rfl
  | succ fuel ih =>
      simp only [wakeJoiners]
      split
      · rw [ih]; simp
      · rfl

@[simp] theorem osTaskExit_base (r : Int) : (k.osTaskExit r).base = k.base := by
  simp only [osTaskExit, endCritical_base]
  split
  · rfl
  · simp

@[simp] theorem wakeSleepers_taskMem (thresh fuel : Nat) :
    (wakeSleepers thresh fuel k).taskMem = k.taskMem := by
  induction fuel generalizing k with
  | zero => rfl
  | succ fuel ih =>
      simp only [wakeSleepers]
      split
      · split
        · rw [ih]; simp
        · rfl
      · rfl

@[simp] theorem expireDeadlines_taskMem (thresh fuel : Nat) :
    (expireDeadlines thresh fuel k).taskMem = k.taskMem := by
  induction fuel generalizing k with
  | zero => rfl
  | succ fuel ih =>
      simp only [expireDeadlines]
      split
      · split
        · rw [ih]; simp
        · rfl
      · rfl

@[simp] theorem osUpdate_taskMem : k.osUpdate.taskMem = k.taskMem := by
  simp [osUpdate]

@[simp] theorem osSchedule_taskMem : k.osSchedule.taskMem = k.taskMem := by
  simp only [osSchedule, osNext]
  repeat' split
  all_goals simp [osChangeTask]

/-! ## Scheduling -/

@[simp] theorem osSchedule_sleepQueue : k.osSchedule.sleepQueue = k.sleepQueue := by
  simp only [osSchedule, osNext]
  repeat' split
  all_goals rfl

@[simp] theorem osSchedule_tWaitqueue : k.osSchedule.tWaitqueue = k.tWaitqueue := by
  simp only [osSchedule, osNext]
  repeat' split
  all_goals rfl

@[simp] theorem osSchedule_sems : k.osSchedule.sems = k.sems := by
  simp only [osSchedule, osNext]
  repeat' split
  all_goals rfl

@[simp] theorem osSchedule_mtxs : k.osSchedule.mtxs = k.mtxs := by
  simp only [osSchedule, osNext]
  repeat' split
  all_goals rfl

@[simp] theorem osSchedule_irq : k.osSchedule.irq = k.irq := by
  simp only [osSchedule, osNext]
  repeat' split
  all_goals rfl

/-- Scheduling changes no field of a thread but its `working_prio`. -/
theorem osSchedule_thrd : ∃ w, k.osSchedule.thrds t = { k.thrds t with workingPrio := w } := by
  have hset : ∀ (k : Kernel) (u : TaskId) (w : Thrd → Nat), ∃ v,
      (k.setThrd u fun thrd => { thrd with workingPrio := w thrd }).thrds t =
        { k.thrds t with workingPrio := v } := by
    intro k u w
    simp only [setThrd, Function.update_apply]
    split
    · rename_i h
      exact ⟨_, by rw [h]⟩
    · exact ⟨_, rfl⟩
  unfold osSchedule osNext
  split
  · cases k.runPtr with
    | none => exact ⟨_, rfl⟩
    | some u =>
        dsimp only
        split
        · exact hset k u fun thrd => thrd.fixedPrio
        · obtain ⟨v, hv⟩ := hset k u fun thrd => (thrd.workingPrio + (wordSize - 1)) % wordSize
          split
          · rcases hset (k.setThrd u fun thrd =>
              { thrd with workingPrio := (thrd.workingPrio + (wordSize - 1)) % wordSize }) u
              fun thrd => thrd.fixedPrio with ⟨w, hw⟩
            refine ⟨w, hw.trans ?_⟩
            rw [hv]
          · exact ⟨v, hv⟩
  · exact ⟨_, rfl⟩

@[simp] theorem osSchedule_state : (k.osSchedule.thrds t).state = (k.thrds t).state := by
  obtain ⟨w, hw⟩ := k.osSchedule_thrd t
  rw [hw]

/-! ## Creating threads -/

section

variable {k : Kernel} {t : TaskId}

/-- `k'` differs from `k` in the critical sections, the pool and the run queue only. -/
def Allots (k k' : Kernel) : Prop :=
  ∃ irq taskMem runQueue fault, k' = { k with irq, taskMem, runQueue, fault }

theorem osTaskCreate_allots : k.Allots k.osTaskCreate.2 := by
  have hadd : ∀ (k : Kernel) t, ∃ irq runQueue, (k.osAddTask (some t)).2 = { k with irq, runQueue } :=
    fun _ _ => ⟨_, _, rfl⟩
  unfold osTaskCreate
  dsimp only
  split
  · exact ⟨_, _, _, _, rfl⟩
  · split
    · exact ⟨_, _, _, _, rfl⟩
    · obtain ⟨irq, runQueue, h⟩ := hadd { k.startCritical.talloc.2 with
        runQueue.links :=
          listElementInit k.startCritical.talloc.2.runQueue.links (.elem (.slot _)) } (.slot _)
      rw [h]
      split <;> exact ⟨_, _, _, _, rfl⟩

theorem osTaskCreate_slot (h : k.osTaskCreate.1 = some t) : ∃ i, t = .slot i := by
  revert h
  simp only [osTaskCreate]
  split
  · simp
  · split
    · simp
    · split
      · simp
      · rintro ⟨⟩
        exact ⟨_, rfl⟩

/-- Without a routine or a priority no thread is created. -/
theorem thrdCreate_of_zero {routine priority : Nat} (hz : routine = 0 ∨ priority = 0) :
    k.thrdCreate routine priority = ((-1, none), k) := by
  unfold thrdCreate
  split
  · rfl
  · rename_i hr
    rw [if_pos (hz.resolve_left hr)]

/-- Either no thread is created, or `thrd_init` follows the allocation of a task. -/
theorem thrdCreate_allots (routine priority : Nat) :
    ((k.thrdCreate routine priority).1.2 = none ∧ k.Allots (k.thrdCreate routine priority).2) ∨
      ∃ k' i, k.Allots k' ∧ routine ≠ 0 ∧ priority ≠ 0 ∧
        (k.thrdCreate routine priority).1.2 = some (.slot i) ∧
        (k.thrdCreate routine priority).2 = (k'.thrdInit (.slot i) routine priority).2.endCritical := by
  have hrefl : k.Allots k := ⟨_, _, _, _, rfl⟩
  unfold thrdCreate
  split
  · exact .inl ⟨rfl, hrefl⟩
  · split
    · exact .inl ⟨rfl, hrefl⟩
    · rename_i hr hp
      have hslot : ∀ t, k.startCritical.osTaskCreate.1 = some t → ∃ i, t = .slot i :=
        fun _ => osTaskCreate_slot
      obtain ⟨irq, taskMem, runQueue, fault, hc⟩ := osTaskCreate_allots (k := k.startCritical)
      dsimp only
      generalize k.startCritical.osTaskCreate = r at hslot hc
      obtain ⟨thrd, k'⟩ := r
      obtain rfl := hc
      cases thrd with
      | none => exact .inl ⟨rfl, ⟨_, _, _, _, rfl⟩⟩
      | some t =>
          obtain ⟨i, rfl⟩ := hslot t rfl
          exact .inr ⟨_, i, ⟨_, _, _, _, rfl⟩, hr, hp, rfl, rfl⟩

end

end Kernel

/-! ## Steps of the system -/

namespace Sys

variable {s s' : Sys} {e : Option Event} {a : Action} (t : TaskId)

@[simp] theorem setPc_k (pc : Pc) : (s.setPc t pc).k = s.k := rfl

@[simp] theorem complete_k (c : Call) (r : Int) : (s.complete t c r).2.k = s.k := by
  unfold complete
  split <;> rfl

@[simp] theorem spawn_k (p : ThrdPtr) : (s.spawn p).k = s.k := by
  cases p <;> rfl

/-- What each action needs, and what it does. -/
inductive Steps (s : Sys) : Action → Option Event → Sys → Prop
  | create (routine priority : SizeT) (hr : s.k.runPtr = none) :
      Steps s (.create routine priority) none
        ({ s with k := (s.k.thrdCreate routine priority).2 }.spawn
          (s.k.thrdCreate routine priority).1.2)
  | launch (hr : s.k.runPtr = none) : Steps s .launch none { s with k := osStart s.k }
  | call {t : TaskId} (c : Call) (hr : s.k.runPtr = some t) (hpc : s.pc t = .user)
      (hp : s.k.irq.pending = false) : Steps s (.call c) (s.stepCall t c).1 (s.stepCall t c).2
  | resume {t : TaskId} {e : Option Event} {s' : Sys} (hr : s.k.runPtr = some t)
      (hp : s.k.irq.pending = false) (hs : s.stepResume t = some (e, s')) : Steps s .resume e s'
  | tick {t : TaskId} (sp : Addr) (hr : s.k.runPtr = some t) (hg : s.k.irq.gie = true) :
      Steps s (.tick sp) none { s with k := osTick s.k sp }

theorem steps_of_step (h : s.step a = some (e, s')) : s.k.fault = false ∧ s.Steps a e s' := by
  unfold step at h
  cases hf : s.k.fault with
  | true =>
      rw [hf, if_pos rfl] at h
      cases h
  | false =>
      refine ⟨rfl, ?_⟩
      rw [hf, if_neg Bool.false_ne_true] at h
      cases hr : s.k.runPtr with
      | none =>
          rw [hr] at h
          cases a <;> cases h
          · exact .create _ _ hr
          · exact .launch hr
      | some t =>
          rw [hr] at h
          cases a with
          | create => cases h
          | launch => cases h
          | call c =>
              obtain ⟨⟨hpc, hp⟩, h⟩ := Option.ite_none_right_eq_some.1 h
              have hs : s.stepCall t c = (e, s') := Option.some.inj h
              have hc := Steps.call c hr hpc (by simpa using hp)
              rw [hs] at hc
              exact hc
          | resume =>
              obtain ⟨hp, h⟩ := Option.ite_none_right_eq_some.1 h
              exact .resume hr (by simpa using hp) h
          | tick sp =>
              obtain ⟨hg, h⟩ := Option.ite_none_right_eq_some.1 h
              cases h
              exact .tick sp hr hg

/-- How a thread goes on with each call that it can be in. -/
inductive Resumes (s : Sys) (t : TaskId) : Option Event → Sys → Prop
  | ret (c : Call) (r : Int) (hpc : s.pc t = .ret c r) :
      Resumes s t (some ⟨t, c, r⟩) (s.setPc t .user)
  | sleepPause (ticks : SizeT) (hpc : s.pc t = .sleepPause ticks) :
      Resumes s t ({ s with k := s.k.osTaskPause (some t) }.complete t (.thrdSleep ticks) 0).1
        ({ s with k := s.k.osTaskPause (some t) }.complete t (.thrdSleep ticks) 0).2
  | semTimedwait (n : Nat) (timeout : SizeT) (locked : Bool)
      (hpc : s.pc t = .semTimedwait n timeout locked) :
      Resumes s t
        ({ s with k := (s.k.semTimedwaitLeave (.app n) t locked).2 }.complete t
          (.semTimedwait n timeout) (s.k.semTimedwaitLeave (.app n) t locked).1).1
        ({ s with k := (s.k.semTimedwaitLeave (.app n) t locked).2 }.complete t
          (.semTimedwait n timeout) (s.k.semTimedwaitLeave (.app n) t locked).1).2
  | mtxTimedlock (m : Nat) (timeout : SizeT) (locked : Bool) {r : Int}
      (hpc : s.pc t = .mtxTimedlock m timeout locked)
      (hl : (s.k.mtxTimedlockLeave m t locked).1 = some r) :
      Resumes s t
        ({ s with k := (s.k.mtxTimedlockLeave m t locked).2 }.complete t
          (.mtxTimedlock m timeout) r).1
        ({ s with k := (s.k.mtxTimedlockLeave m t locked).2 }.complete t
          (.mtxTimedlock m timeout) r).2
  | mtxPanic (m : Nat) (timeout : SizeT) (locked : Bool)
      (hpc : s.pc t = .mtxTimedlock m timeout locked)
      (hl : (s.k.mtxTimedlockLeave m t locked).1 = none) :
      Resumes s t none ({ s with k := (s.k.mtxTimedlockLeave m t locked).2 }.setPc t .panic)
  | join (other : TaskId) (hpc : s.pc t = .join other) :
      Resumes s t (s.complete t (.thrdJoin other) (s.k.thrds t).mbox).1
        (s.complete t (.thrdJoin other) (s.k.thrds t).mbox).2
  | kill (hpc : s.pc t = .kill) : Resumes s t none ({ s with k := s.k.osTaskKill }.setPc t .none)

theorem resumes_of_stepResume {t : TaskId} (hs : s.stepResume t = some (e, s')) :
    s.Resumes t e s' := by
  unfold stepResume at hs
  cases hpc : s.pc t with
  | none | user | panic =>
      rw [hpc] at hs
      cases hs
  | ret c r =>
      rw [hpc] at hs
      cases hs
      exact .ret c r hpc
  | sleepPause ticks =>
      rw [hpc] at hs
      have h := Resumes.sleepPause ticks hpc
      rwa [Option.some.inj hs] at h
  | semTimedwait n timeout locked =>
      rw [hpc] at hs
      dsimp only at hs
      have h := Resumes.semTimedwait n timeout locked hpc
      rwa [Option.some.inj hs] at h
  | mtxTimedlock m timeout locked =>
      rw [hpc] at hs
      dsimp only at hs
      split at hs <;> rename_i hl
      · cases hs
        have h := Resumes.mtxPanic m timeout locked hpc (congrArg Prod.fst hl)
        rwa [hl] at h
      · have h := Resumes.mtxTimedlock m timeout locked hpc (congrArg Prod.fst hl)
        rwa [hl, Option.some.inj hs] at h
  | join other =>
      rw [hpc] at hs
      have h := Resumes.join other hpc
      rwa [Option.some.inj hs] at h
  | kill =>
      rw [hpc] at hs
      cases hs
      exact .kill hpc

theorem tick_of_step {sp : Addr} (hs : s.step (.tick sp) = some (e, s')) :
    s'.k = osTick s.k sp ∧ s'.pc = s.pc := by
  cases (steps_of_step hs).2 with
  | tick sp hr hg => exact ⟨rfl, rfl⟩

/-! ### Program counters

A call leaves its caller somewhere, and no other thread anywhere else; only `thrd_create` starts
a thread, and only `os_task_kill` ends one. -/

theorem complete_pc (c : Call) (r : Int) :
    ∃ p, p ≠ .none ∧ (s.complete t c r).2.pc = Function.update s.pc t p := by
  unfold complete
  split
  · exact ⟨.ret c r, by simp, rfl⟩
  · exact ⟨.user, by simp, rfl⟩

theorem spawn_pc {t : TaskId} (ht : s.pc t ≠ .none) (p : ThrdPtr) : (s.spawn p).pc t ≠ .none := by
  cases p with
  | none => exact ht
  | some u =>
      show Function.update s.pc u .user t ≠ .none
      rw [Function.update_apply]
      split
      · simp
      · exact ht

theorem stepCall_pc (c : Call) (hc : ∀ r p, c ≠ .thrdCreate r p) :
    ∃ p, p ≠ .none ∧ (s.stepCall t c).2.pc = Function.update s.pc t p := by
  cases c with
  | thrdCreate r p => exact absurd rfl (hc r p)
  | thrdSleep ticks =>
      unfold stepCall
      dsimp only
      split
      · exact complete_pc t _ _
      · exact ⟨.sleepPause ticks, by simp, rfl⟩
  | thrdExit retCode => exact ⟨.kill, by simp, rfl⟩
  | thrdJoin other => exact ⟨.join other, by simp, rfl⟩
  | semTimedwait sem timeout => exact ⟨.semTimedwait sem timeout _, by simp, rfl⟩
  | mtxTimedlock mtx timeout => exact ⟨.mtxTimedlock mtx timeout _, by simp, rfl⟩
  | mtxUnlock mtx =>
      unfold stepCall
      dsimp only
      split
      · exact ⟨.panic, by simp, rfl⟩
      · exact complete_pc t _ _
  | thrdYield | semWait | semTrywait | semPost | mtxLock | mtxTrylock => exact complete_pc t _ _

theorem stepCall_base (c : Call) (hc : ∀ r p, c ≠ .thrdCreate r p) (hn : ∀ n, c ≠ .thrdSleep n) :
    (s.stepCall t c).2.k.base = s.k.base := by
  cases c with
  | thrdCreate r p => exact absurd rfl (hc r p)
  | thrdSleep ticks => exact absurd rfl (hn ticks)
  | mtxUnlock mtx =>
      have hu := s.k.mtxUnlock_base mtx
      unfold stepCall
      dsimp only
      split <;> rename_i he <;> rw [he] at hu
      · exact hu
      · rw [complete_k]
        exact hu
  | _ => simp [stepCall]

theorem stepCall_taskMem (c : Call) (hc : ∀ r p, c ≠ .thrdCreate r p) :
    (s.stepCall t c).2.k.taskMem = s.k.taskMem := by
  cases c with
  | thrdSleep ticks =>
      unfold stepCall
      dsimp only
      split <;> simp
  | _ => exact congrArg Base.taskMem (s.stepCall_base t _ hc (by simp))

theorem stepResume_pc (hk : s.pc t ≠ .kill) (hs : s.stepResume t = some (e, s')) :
    ∃ p, p ≠ .none ∧ s'.pc = Function.update s.pc t p := by
  cases resumes_of_stepResume hs with
  | ret => exact ⟨.user, by simp, rfl⟩
  | mtxPanic => exact ⟨.panic, by simp, rfl⟩
  | sleepPause | semTimedwait | mtxTimedlock | join => exact complete_pc t _ _
  | kill hpc => exact absurd hpc hk

theorem stepResume_base (hk : s.pc t ≠ .kill) (hs : s.stepResume t = some (e, s')) :
    s'.k.base = s.k.base := by
  cases resumes_of_stepResume hs with
  | ret => rfl
  | sleepPause | join => simp
  | semTimedwait n timeout locked =>
      rw [complete_k]
      exact s.k.semTimedwaitLeave_base t (.app n) locked
  | mtxTimedlock m timeout locked =>
      rw [complete_k]
      exact s.k.mtxTimedlockLeave_base t m locked
  | mtxPanic m timeout locked => exact s.k.mtxTimedlockLeave_base t m locked
  | kill hpc => exact absurd hpc hk

theorem stepResume_kill (hk : s.pc t = .kill) :
    s.stepResume t = some (none, { s with k := s.k.osTaskKill }.setPc t .none) := by
  unfold stepResume
  rw [hk]

variable {t} {u : TaskId}

theorem setPc_of_kill {p : Pc} (hp : p ≠ .kill) (h : (s.setPc t p).pc u = .kill) :
    s.pc u = .kill := by
  unfold setPc at h
  dsimp only at h
  rw [Function.update_apply] at h
  split at h
  · exact absurd h hp
  · exact h

theorem complete_of_kill {c : Call} {r : Int} (h : (s.complete t c r).2.pc u = .kill) :
    s.pc u = .kill := by
  unfold complete at h
  split at h
  · exact (setPc_of_kill (by simp) h :)
  · exact (setPc_of_kill (by simp) h :)

theorem spawn_of_kill {p : ThrdPtr} (h : (s.spawn p).pc u = .kill) : s.pc u = .kill := by
  cases p with
  | none => exact h
  | some t => exact (setPc_of_kill (by simp) h :)

theorem stepCall_of_kill {c : Call} (hc : ∀ r, c ≠ .thrdExit r)
    (h : (s.stepCall t c).2.pc u = .kill) : s.pc u = .kill := by
  cases c with
  | thrdExit r => exact absurd rfl (hc r)
  | thrdCreate r p => exact (spawn_of_kill (complete_of_kill h :) :)
  | thrdSleep n =>
      unfold stepCall at h
      dsimp only at h
      split at h
      · exact (complete_of_kill h :)
      · exact (setPc_of_kill (by simp) h :)
  | mtxUnlock m =>
      unfold stepCall at h
      dsimp only at h
      split at h
      · exact (setPc_of_kill (by simp) h :)
      · exact (complete_of_kill h :)
  | thrdJoin | semTimedwait | mtxTimedlock => exact (setPc_of_kill (by simp) h :)
  | thrdYield | semWait | semTrywait | semPost | mtxLock | mtxTrylock => exact (complete_of_kill h :)

theorem stepResume_of_kill (hs : s.stepResume t = some (e, s')) (h : s'.pc u = .kill) :
    s.pc u = .kill := by
  cases resumes_of_stepResume hs with
  | ret | mtxPanic | kill => exact (setPc_of_kill (by simp) h :)
  | sleepPause | semTimedwait | mtxTimedlock | join => exact (complete_of_kill h :)

/-- A thread is between `os_task_exit` and `os_task_kill` only if it has returned. -/
theorem step_of_kill (hs : s.step a = some (e, s')) (h : s'.pc t = .kill) :
    s.pc t = .kill ∨ s.k.runPtr = some t ∧ ∃ r, a = .call (.thrdExit r) := by
  cases (steps_of_step hs).2 with
  | create => exact .inl (spawn_of_kill h :)
  | launch => exact .inl h
  | tick => exact .inl h
  | resume hr hp hs => exact .inl (stepResume_of_kill hs h)
  | @call u c hr hpc hp =>
      by_cases hc : ∃ r, c = .thrdExit r
      · obtain ⟨r, rfl⟩ := hc
        rcases eq_or_ne t u with rfl | hne
        · exact .inr ⟨hr, r, rfl⟩
        · refine .inl ?_
          change Function.update s.pc u .kill t = .kill at h
          rwa [Function.update_of_ne hne] at h
      · exact .inl (stepCall_of_kill (fun r he => hc ⟨r, he⟩) h)

end Sys

end MsTos
