-- SUMMARY: What the kernel's functions do to the priorities and time slices of the threads.
import MsTos.Boosts

namespace MsTos

/-- The three priorities of a thread. The last one is what is left of its time slice. -/
structure Slice where
  base : Nat
  fixed : Nat
  working : Nat
  deriving DecidableEq

namespace Slice

/-- `working_prio = fixed_prio`: the whole time slice is left. -/
def Full (x : Slice) : Prop := x.working = x.fixed

instance (x : Slice) : Decidable x.Full := inferInstanceAs (Decidable (_ = _))

/-- The slice of a thread that is created with priority `p`. -/
def fresh (p : Nat) : Slice := ⟨p, p, p⟩

/-- `working_prio = fixed_prio;`. -/
def reload (x : Slice) : Slice := { x with working := x.fixed }

/-- `fixed_prio = base_prio;`. -/
def restore (x : Slice) : Slice := { x with fixed := x.base }

/-- The priority inheritance of `mtx_lock` for a caller of priority `check`. -/
def boost (x : Slice) (check : Nat) : Slice :=
  { x with working := (x.working + (check - x.fixed)) % wordSize, fixed := check }

/-- What `mtx_unlock` gives the next holder. -/
def hand (x : Slice) (pass : Nat) : Slice := { x with fixed := pass, working := pass }

/-- `--working_prio`. -/
def countDown (x : Slice) : Slice := { x with working := (x.working + (wordSize - 1)) % wordSize }

end Slice

def Thrd.slice (t : Thrd) : Slice := ⟨t.basePrio, t.fixedPrio, t.workingPrio⟩

namespace Kernel

/-- The slices of all threads. -/
def slices (k : Kernel) (t : TaskId) : Slice := (k.thrds t).slice

variable {k : Kernel} {t u : TaskId}

theorem setThrd_slices (f : Thrd → Thrd) :
    (k.setThrd t f).slices u = if u = t then (f (k.thrds t)).slice else k.slices u := by
  show (Function.update k.thrds t (f (k.thrds t)) u).slice = _
  rw [Function.update_apply]
  split <;> rfl

section

variable (k : Kernel) (t : TaskId) (p : ThrdPtr) (s : SemId) (m : Nat)

/-! ## Functions that leave the slices alone -/

theorem store_slices {f : Thrd → Thrd} (hf : ∀ thrd, (f thrd).slice = thrd.slice) :
    (k.store p f).slices = k.slices := by
  cases p with
  | none => rfl
  | some t =>
      funext u
      refine (setThrd_slices f).trans ?_
      split
      · rename_i hu
        rw [hu]
        exact hf _
      · rfl

@[simp] theorem store_state_slices (st : ThrdState) :
    (k.store p fun t => { t with state := st }).slices = k.slices :=
  k.store_slices p fun _ => rfl

@[simp] theorem store_mbox_slices (r : Int) :
    (k.store p fun t => { t with mbox := r }).slices = k.slices :=
  k.store_slices p fun _ => rfl

@[simp] theorem startCritical_slices : k.startCritical.slices = k.slices := rfl
@[simp] theorem endCritical_slices : k.endCritical.slices = k.slices := rfl
@[simp] theorem setSem_slices (sem : Sem) : (k.setSem s sem).slices = k.slices := rfl
@[simp] theorem setMtx_slices (mtx : Mtx) : (k.setMtx m mtx).slices = k.slices := rfl
@[simp] theorem osTaskYield_slices : k.osTaskYield.slices = k.slices := rfl
@[simp] theorem osTaskCurrent_slices : k.osTaskCurrent.2.slices = k.slices := rfl

@[simp] theorem osAddTaskMmang_slices : (k.osAddTaskMmang p).2.slices = k.slices := by
  cases p <;> rfl

@[simp] theorem osAddTask_slices : (k.osAddTask p).2.slices = k.slices := by
  cases p <;> rfl

@[simp] theorem osDelTask_slices : (k.osDelTask p).2.slices = k.slices := by
  cases p <;> rfl

@[simp] theorem osTaskPause_slices : (k.osTaskPause p).slices = k.slices := by
  simp [osTaskPause]

@[simp] theorem osTaskBlock_slices : (k.osTaskBlock p).slices = k.slices := by
  simp [osTaskBlock]

@[simp] theorem osTaskUnpause_slices : (k.osTaskUnpause p).slices = k.slices := by
  simp [osTaskUnpause]

@[simp] theorem tfree_slices : (k.tfree p).slices = k.slices := by
  unfold tfree
  rcases p with _ | _ | i <;> rfl

@[simp] theorem osTaskKill_slices : k.osTaskKill.slices = k.slices := by
  simp [osTaskKill]

@[simp] theorem semWait_slices : (k.semWait s).slices = k.slices := by
  simp only [semWait]
  split <;> simp [semDown, semEnqueue]

@[simp] theorem semPost_slices : (k.semPost s).slices = k.slices := by
  simp only [semPost]
  split <;> simp

@[simp] theorem semTrywait_slices : (k.semTrywait s).2.slices = k.slices := by
  simp only [semTrywait]
  split <;> simp [semDown]

@[simp] theorem semTimedwaitLeave_slices (b : Bool) :
    (k.semTimedwaitLeave s t b).2.slices = k.slices := by
  simp only [semTimedwaitLeave]
  split <;> simp

@[simp] theorem mtxTrylock_slices : (k.mtxTrylock m).2.slices = k.slices := by
  simp only [mtxTrylock]
  split <;> simp

@[simp] theorem wakeJoiners_slices (r : Int) (fuel : Nat) :
    (wakeJoiners t r fuel k).slices = k.slices := by
  induction fuel generalizing k with
  | zero => rfl
  | succ fuel ih =>
      simp only [wakeJoiners]
      split
      · rw [ih]
        simp
      · rfl

@[simp] theorem osTaskExit_slices (r : Int) : (k.osTaskExit r).slices = k.slices := by
  simp only [osTaskExit]
  split
  · rfl
  · simp

@[simp] theorem osChangeTask_slices : k.osChangeTask.slices = k.slices := rfl

variable {k} in
/-- `os_update` writes to the two heaps, links tasks and sets tasks to `ACTIVE`. -/
theorem osUpdate_invariant {P : Kernel → Prop}
    (hq : ∀ k n q r, P k → P { k with osTickCnt := n, sleepQueue := q, tWaitqueue := r })
    (hadd : ∀ k d, P k → P (k.osAddTaskMmang d).2)
    (hwake : ∀ k d, P k → P (k.store d fun t => { t with state := .ACTIVE })) (hk : P k) :
    P k.osUpdate := by
  have hs : ∀ k' : Kernel, P k' → P (wakeSleepers (k'.sleepQueue.count / 2) k'.sleepQueue.count k') := by
    intro k' hk'
    apply wakeSleepers_invariant _ _ hk'
    · exact fun k q _ h => hq k k.osTickCnt q k.tWaitqueue h
    · exact fun k d q _ h => hq _ _ q _ (hwake _ d (hadd k d h))
  apply expireDeadlines_invariant
  · exact fun k q _ h => hq k k.osTickCnt k.sleepQueue q h
  · exact fun k d q _ h => hq _ _ _ q (hadd k d h)
  · exact hs _ (hq k _ k.sleepQueue k.tWaitqueue hk)

@[simp] theorem osUpdate_slices : k.osUpdate.slices = k.slices :=
  osUpdate_invariant (P := fun k' => k'.slices = k.slices) (fun _ _ _ _ h => h)
    (fun k d h => (k.osAddTaskMmang_slices d).trans h)
    (fun k d h => (k.store_state_slices d .ACTIVE).trans h) rfl

@[simp] theorem osUpdate_runPtr : k.osUpdate.runPtr = k.runPtr :=
  osUpdate_invariant (P := fun k' => k'.runPtr = k.runPtr) (fun _ _ _ _ h => h)
    (fun k d h => (congrArg Base.runPtr (k.osAddTaskMmang_base d)).trans h)
    (fun k d h => (congrArg Base.runPtr (k.store_base d _)).trans h) rfl

/-- A thread that a tick finds `ACTIVE` stays so. -/
theorem osUpdate_active (h : (k.thrds t).state = .ACTIVE) :
    (k.osUpdate.thrds t).state = .ACTIVE := by
  apply osUpdate_invariant (P := fun k' => (k'.thrds t).state = .ACTIVE) (fun _ _ _ _ h => h) _ _ h
  · intro k d h
    cases d <;> exact h
  · intro k d h
    cases d with
    | none => exact h
    | some u =>
        show (Function.update k.thrds u _ t).state = .ACTIVE
        rw [Function.update_apply]
        split
        · rfl
        · exact h

/-! ## Functions that change one slice -/

theorem osTaskSleepEnter_slices (n : Nat) :
    (k.osTaskSleepEnter (some t) n).slices u =
      if u = t then (k.slices t).reload else k.slices u :=
  setThrd_slices fun t => { t with state := .SLEEPING, workingPrio := t.fixedPrio }

theorem osTaskTimedwait_slices (n : Nat) :
    (k.osTaskTimedwait (some t) n).slices u =
      if u = t ∧ n ≠ 0 then (k.slices t).reload else k.slices u := by
  unfold osTaskTimedwait
  split
  · rename_i hn
    simp [hn]
  · rename_i hn
    simp only [osTaskPause_slices, hn, not_false_eq_true, and_true, ne_eq]
    exact setThrd_slices fun t => { t with state := .SLEEPING, workingPrio := t.fixedPrio }

theorem mtxBoost_slices (h : TaskId) :
    (k.mtxBoost h t).slices u =
      if u = h ∧ (k.slices h).fixed < (k.slices t).fixed then (k.slices h).boost (k.slices t).fixed
      else k.slices u := by
  unfold mtxBoost
  dsimp only
  split
  · rename_i hlt
    have hlt' : (k.slices h).fixed < (k.slices t).fixed := hlt
    simp only [hlt', and_true]
    exact setThrd_slices _
  · rename_i hlt
    have hlt' : ¬ (k.slices h).fixed < (k.slices t).fixed := hlt
    simp [hlt']

end

/-! ## The scheduler -/

/-- `os_next` lets another thread run: `t` is waiting, or it has used up its slice. -/
def TurnOver (k : Kernel) (t : TaskId) : Prop :=
  ((k.thrds t).state = .BLOCKING ∨ (k.thrds t).state = .SLEEPING) ∨
    ((k.thrds t).workingPrio + (wordSize - 1)) % wordSize = 0

instance (k : Kernel) (t : TaskId) : Decidable (k.TurnOver t) := inferInstanceAs (Decidable (_ ∨ _))

/-- The slice that `os_next` leaves to the thread that runs. -/
def spent (k : Kernel) (t : TaskId) : Slice :=
  if k.TurnOver t then (k.slices t).reload else (k.slices t).countDown

theorem setThrd_thrds_self (f : Thrd → Thrd) : (k.setThrd t f).thrds t = f (k.thrds t) :=
  Function.update_self ..

theorem osNext_of_over (hr : k.runPtr = some t) (ho : k.TurnOver t) :
    k.osNext.runPtr = k.osChangeTask.runPtr ∧
      k.osNext.slices u = if u = t then (k.slices t).reload else k.slices u := by
  unfold osNext
  simp only [hr, setThrd_thrds_self]
  split
  · exact ⟨rfl, setThrd_slices fun thrd => { thrd with workingPrio := thrd.fixedPrio }⟩
  · rename_i hst
    have hw := ho.resolve_left hst
    rw [if_pos hw]
    refine ⟨rfl, ?_⟩
    rw [osChangeTask_slices, setThrd_slices, setThrd_thrds_self]
    split
    · rfl
    · rename_i hu
      rw [setThrd_slices, if_neg hu]

theorem osNext_of_not_over (hr : k.runPtr = some t) (ho : ¬ k.TurnOver t) :
    k.osNext.runPtr = some t ∧
      k.osNext.slices u = if u = t then (k.slices t).countDown else k.slices u := by
  obtain ⟨hst, hw⟩ := not_or.1 ho
  unfold osNext
  simp only [hr, setThrd_thrds_self]
  rw [if_neg hst, if_neg hw]
  exact ⟨hr, setThrd_slices fun thrd =>
    { thrd with workingPrio := (thrd.workingPrio + (wordSize - 1)) % wordSize }⟩

/-- `os_schedule` of the thread that runs, when there is a task to run. -/
theorem osSchedule_of_run (hr : k.runPtr = some t) (hc : 0 < k.runQueue.taskActiveCnt) :
    k.osSchedule.runPtr = (if k.TurnOver t then k.osChangeTask.runPtr else some t) ∧
      k.osSchedule.slices u = if u = t then k.spent t else k.slices u := by
  unfold osSchedule spent
  rw [if_pos hc]
  split
  · rename_i ho
    exact osNext_of_over hr ho
  · rename_i ho
    exact osNext_of_not_over hr ho

theorem osSchedule_of_empty (hc : k.runQueue.taskActiveCnt = 0) :
    k.osSchedule = { k with runPtr := some .idle } := by
  rw [osSchedule, if_neg (Nat.not_lt.2 (Nat.le_of_eq hc))]

end Kernel

/-! ## Steps -/

/-- What a call by `t` can do to the slice of `u`, given all slices before the call. -/
inductive Slice.Moves (x : TaskId → Slice) (t u : TaskId) : Slice → Prop
  | keep : Moves x t u (x u)
  /-- `t` goes to sleep. -/
  | reload (hu : u = t) : Moves x t u (x t).reload
  /-- `t` unlocks a mutex. -/
  | restore (hu : u = t) : Moves x t u (x t).restore
  /-- `t` waits for a mutex that `u` holds. -/
  | boost (hlt : (x u).fixed < (x t).fixed) : Moves x t u ((x u).boost (x t).fixed)
  /-- `t` hands a mutex over to `u`. -/
  | hand : Moves x t u ((x u).hand (x t).fixed)

namespace Kernel

variable {k : Kernel} {t u h : TaskId} {s : SemId} {m : Nat}

theorem moves_of_eq {k' : Kernel} (hk : k'.slices = k.slices) :
    Slice.Moves k.slices t u (k'.slices u) := by
  rw [hk]
  exact .keep

theorem osTaskSleepEnter_moves (n : Nat) :
    Slice.Moves k.slices t u ((k.osTaskSleepEnter (some t) n).slices u) := by
  rw [osTaskSleepEnter_slices]
  split
  · rename_i hu
    exact .reload hu
  · exact .keep

theorem osTaskTimedwait_moves (n : Nat) :
    Slice.Moves k.slices t u ((k.osTaskTimedwait (some t) n).slices u) := by
  rw [osTaskTimedwait_slices]
  split
  · rename_i hu
    exact .reload hu.1
  · exact .keep

theorem mtxBoost_moves : Slice.Moves k.slices t u ((k.mtxBoost h t).slices u) := by
  rw [mtxBoost_slices]
  split
  · rename_i hu
    obtain ⟨rfl, hlt⟩ := hu
    exact .boost hlt
  · exact .keep

theorem semTimedwaitEnter_moves (hr : k.runPtr = some t) (n : Nat) :
    Slice.Moves k.slices t u ((k.semTimedwaitEnter s n).2.slices u) := by
  simp only [semTimedwaitEnter, endCritical_slices, osTaskCurrent_fst]
  split
  · have hr' : (k.startCritical.semDown s).runPtr = some t := hr
    rw [hr']
    exact osTaskTimedwait_moves (k := (k.startCritical.semDown s).osTaskCurrent.2.semEnqueue s (some t)) n
  · exact .keep

theorem mtxLock_moves (hr : k.runPtr = some t) :
    Slice.Moves k.slices t u ((k.mtxLock m).slices u) := by
  simp only [mtxLock, endCritical_slices]
  split
  · rename_i h t' _ ht
    have ht' : k.runPtr = some t' := ht
    cases hr.symm.trans ht'
    simp only [osTaskBlock_slices]
    exact mtxBoost_moves (k := k.startCritical.osTaskCurrent.2)
  · exact .keep
  · exact .keep

/-- A boosted holder does not wait itself. -/
theorem mtxTimedlockEnter_moves (hr : k.runPtr = some t) (n : Nat) :
    Slice.Moves k.slices t u ((k.mtxTimedlockEnter m n).2.slices u) := by
  simp only [mtxTimedlockEnter, endCritical_slices, osTaskCurrent_fst]
  split
  · rename_i h t' _ ht
    have ht' : k.runPtr = some t' := ht
    cases hr.symm.trans ht'
    have hr' : k.startCritical.runPtr = some t := hr
    rw [hr', osTaskTimedwait_slices]
    simp only [mtxEnqueue, setMtx_slices]
    split
    · rename_i hu
      rw [mtxBoost_slices, if_neg]
      · exact .reload hu.1
      · rintro ⟨rfl, hlt⟩
        exact absurd hlt (Nat.lt_irrefl _)
    · exact mtxBoost_moves (k := k.startCritical.osTaskCurrent.2)
  · exact .keep
  · exact .keep

theorem mtxRelease_moves : Slice.Moves k.slices t u ((k.mtxRelease m t).slices u) := by
  have hrestore : ∀ u, (k.setThrd t fun t => { t with fixedPrio := t.basePrio }).slices u =
      if u = t then (k.slices t).restore else k.slices u := fun u => setThrd_slices _
  have hmove : Slice.Moves k.slices t u
      ((k.setThrd t fun t => { t with fixedPrio := t.basePrio }).slices u) := by
    rw [hrestore]
    split
    · rename_i hu
      exact .restore hu
    · exact .keep
  unfold mtxRelease
  dsimp only
  split
  · rw [osTaskUnpause_slices]
    generalize Option.join (Queue.pop _).1 = wakeup
    cases wakeup with
    | none => exact hmove
    | some w =>
        rw [store, setThrd_slices]
        split
        · rename_i hu
          have hbase : ((k.setThrd t fun t => { t with fixedPrio := t.basePrio }).slices w).base =
              (k.slices w).base := by
            rw [hrestore]
            split
            · rename_i hw
              rw [hw]
              rfl
            · rfl
          rw [hu]
          refine Eq.subst (motive := fun b => Slice.Moves k.slices t w ⟨b, _, _⟩) hbase.symm ?_
          exact .hand
        · exact hmove
  · exact hmove

theorem mtxUnlock_moves (hr : k.runPtr = some t) :
    Slice.Moves k.slices t u ((k.mtxUnlock m).2.slices u) := by
  unfold mtxUnlock
  dsimp only
  split
  · exact .keep
  · rename_i hh
    have hh' : (k.mtxs m).holder = some t := (not_not.1 hh).trans hr
    split
    · exact .keep
    · rename_i h hm
      cases hh'.symm.trans hm
      exact mtxRelease_moves (k := k.startCritical.osTaskCurrent.2)

theorem mtxTimedlockLeave_moves (hr : k.runPtr = some t) (b : Bool) :
    Slice.Moves k.slices t u ((k.mtxTimedlockLeave m t b).2.slices u) := by
  unfold mtxTimedlockLeave
  dsimp only
  split
  · have hs := store_state_slices k.startCritical (some t) .ACTIVE
    have hm := mtxUnlock_moves (m := m) (u := u)
      (k := k.startCritical.store (some t) fun t => { t with state := .ACTIVE }) hr
    rw [hs] at hm
    split <;> rename_i hu <;> rw [hu] at hm <;> exact hm
  · exact .keep

theorem thrdInit_slices (t : TaskId) {routine : Nat} (hr : routine ≠ 0) (priority : Nat) :
    (k.thrdInit t routine priority).2.slices u =
      if u = t then Slice.fresh priority else k.slices u := by
  unfold thrdInit
  rw [if_neg hr]
  dsimp only
  rw [setThrd_slices]
  split
  · rfl
  · cases t <;> rfl

theorem thrdCreate_slices (routine priority : Nat) :
    ((k.thrdCreate routine priority).2.slices = k.slices ∧
        (k.thrdCreate routine priority).1.2 = none) ∨
      ∃ i, (k.thrdCreate routine priority).1.2 = some (.slot i) ∧ priority ≠ 0 ∧
        ∀ u, (k.thrdCreate routine priority).2.slices u =
          if u = .slot i then Slice.fresh priority else k.slices u := by
  obtain ⟨hn, _, _, _, _, h⟩ | ⟨_, i, ⟨_, _, _, _, rfl⟩, hr, hp, ht, h⟩ :=
    thrdCreate_allots (k := k) routine priority
  · exact .inl ⟨by rw [h]; rfl, hn⟩
  · refine .inr ⟨i, ht, hp, ?_⟩
    intro u
    rw [h, endCritical_slices, thrdInit_slices _ hr]
    rfl

theorem osTaskKill_runPtr : k.osTaskKill.runPtr = k.runPtr := by
  have hf : ∀ (k : Kernel) p, (k.tfree p).runPtr = k.runPtr := by
    intro k p
    rcases p with _ | _ | i <;> rfl
  have hb : ∀ (k : Kernel) p, (k.osDelTask p).2.runPtr = k.runPtr :=
    fun k p => congrArg Base.runPtr (k.osDelTask_base p)
  exact (hf _ _).trans (hb _ _)

theorem thrdCreate_runPtr (routine priority : Nat) :
    (k.thrdCreate routine priority).2.runPtr = k.runPtr := by
  obtain ⟨-, _, _, _, _, h⟩ | ⟨_, i, ⟨_, _, _, _, rfl⟩, -, -, -, h⟩ :=
    thrdCreate_allots (k := k) routine priority
  · rw [h]
  · rw [h]
    unfold thrdInit
    split <;> rfl

end Kernel

namespace Sys

variable {s s' : Sys} {a : Action} {e : Option Event} {t u : TaskId}

/-- What a step that is not a tick does to the slice of `u`. Only a new slice is one of a new
thread. -/
inductive Reslice (s : Sys) (a : Action) (s' : Sys) (u : TaskId) : Prop
  | keep (hu : s'.pc u ≠ .none → s.pc u ≠ .none) (hx : s'.k.slices u = s.k.slices u)
  | fresh (i : Fin numThreads) (hu : u = .slot i) (p : SizeT) (hp : p.val ≠ 0)
      (hc : s.creation a = some (u, p.val)) (hx : s'.k.slices u = Slice.fresh p)
  /-- The running thread `t` has made a call. -/
  | moves (t : TaskId) (hu : s'.pc u ≠ .none → s.pc u ≠ .none) (hr : s.k.runPtr = some t)
      (ht : s.pc t ≠ .none) (hm : Slice.Moves s.k.slices t u (s'.k.slices u))

theorem stepCall_moves (hr : s.k.runPtr = some t) (c : Call) (hc : ∀ r p, c ≠ .thrdCreate r p) :
    Slice.Moves s.k.slices t u ((s.stepCall t c).2.k.slices u) := by
  cases c with
  | thrdCreate r p => exact absurd rfl (hc r p)
  | thrdSleep ticks =>
      unfold stepCall
      dsimp only
      split
      · rw [complete_k]
        exact .keep
      · exact Kernel.osTaskSleepEnter_moves ticks.val
  | semTimedwait sem timeout => exact Kernel.semTimedwaitEnter_moves hr timeout.val
  | mtxLock mtx =>
      simp only [stepCall, complete_k]
      exact Kernel.mtxLock_moves hr
  | mtxTimedlock mtx timeout => exact Kernel.mtxTimedlockEnter_moves hr timeout.val
  | mtxUnlock mtx =>
      have hm := Kernel.mtxUnlock_moves (m := mtx) (u := u) hr
      unfold stepCall
      dsimp only
      split <;> rename_i he <;> rw [he] at hm
      · exact hm
      · rw [complete_k]
        exact hm
  | thrdYield | thrdExit | thrdJoin | semWait | semTrywait | semPost | mtxTrylock =>
      apply Kernel.moves_of_eq
      simp [stepCall]

theorem stepResume_moves (hr : s.k.runPtr = some t) (hs : s.stepResume t = some (e, s')) :
    s.pc t ≠ .none ∧ Slice.Moves s.k.slices t u (s'.k.slices u) := by
  cases resumes_of_stepResume hs with
  | ret _ _ hpc | sleepPause _ hpc | join _ hpc | kill hpc =>
      rw [hpc]
      exact ⟨nofun, Kernel.moves_of_eq (by simp)⟩
  | semTimedwait n timeout locked hpc =>
      rw [hpc, complete_k]
      exact ⟨nofun, Kernel.moves_of_eq (s.k.semTimedwaitLeave_slices t (.app n) locked)⟩
  | mtxTimedlock m timeout locked hpc =>
      rw [hpc, complete_k]
      exact ⟨nofun, Kernel.mtxTimedlockLeave_moves hr locked⟩
  | mtxPanic m timeout locked hpc =>
      rw [hpc]
      exact ⟨nofun, Kernel.mtxTimedlockLeave_moves hr locked⟩

theorem create_reslice (routine priority : SizeT)
    (ha : s.creation a = (s.k.thrdCreate routine priority).1.2.map fun t => (t, priority.val))
    (hk : s'.k = (s.k.thrdCreate routine priority).2)
    (hu : s'.pc u ≠ .none → ({ s with k := (s.k.thrdCreate routine priority).2 }.spawn
      (s.k.thrdCreate routine priority).1.2).pc u ≠ .none) : s.Reslice a s' u := by
  rcases s.k.thrdCreate_slices routine priority with ⟨hx, hn⟩ | ⟨i, ht, hp, hx⟩
  · rw [hn] at hu
    exact .keep hu (by rw [hk, hx])
  · rcases eq_or_ne u (.slot i) with rfl | hne
    · exact .fresh i rfl priority hp (by rw [ha, ht]; rfl) (by rw [hk, hx, if_pos rfl])
    · refine .keep ?_ (by rw [hk, hx, if_neg hne])
      intro h
      rw [ht] at hu
      have hpc : Function.update s.pc (.slot i) .user u ≠ .none := hu h
      rwa [Function.update_of_ne hne] at hpc

theorem step_reslice (u : TaskId) (hs : s.step a = some (e, s')) (ha : ∀ sp, a ≠ .tick sp) :
    s.Reslice a s' u := by
  cases (steps_of_step hs).2 with
  | create routine priority hr => exact create_reslice routine priority rfl (spawn_k ..) id
  | launch hr =>
      refine .keep id ?_
      show (osStart s.k).slices u = s.k.slices u
      unfold osStart Kernel.osFirstTask
      split <;> rfl
  | @call t c hr hpc hp =>
      have ht : s.pc t ≠ .none := by simp [hpc]
      by_cases hc : ∀ r p, c ≠ .thrdCreate r p
      · obtain ⟨p, hp, he⟩ := s.stepCall_pc t c hc
        refine .moves t ?_ hr ht (stepCall_moves hr c hc)
        rw [he]
        exact mt (update_none_iff ht hp u).2
      · simp only [not_forall, not_not] at hc
        obtain ⟨routine, priority, rfl⟩ := hc
        apply create_reslice routine priority rfl ((complete_k ..).trans (spawn_k ..))
        have ht' : ({ s with k := (s.k.thrdCreate routine priority).2 }.spawn
            (s.k.thrdCreate routine priority).1.2).pc t ≠ .none :=
          spawn_pc (s := { s with k := (s.k.thrdCreate routine priority).2 }) ht _
        rcases complete_pc (s := { s with k := (s.k.thrdCreate routine priority).2 }.spawn
          (s.k.thrdCreate routine priority).1.2) t (.thrdCreate routine priority)
          (s.k.thrdCreate routine priority).1.1 with ⟨p, hp, he⟩
        intro h hn
        exact h ((congrFun he u).trans ((update_none_iff ht' hp u).2 hn))
  | @resume t _ _ hr hp hs =>
      obtain ⟨ht, hm⟩ := stepResume_moves (u := u) hr hs
      refine .moves t ?_ hr ht hm
      by_cases hk : s.pc t = .kill
      · rw [stepResume_kill t hk] at hs
        cases hs
        rcases eq_or_ne u t with rfl | hne
        · exact fun _ => ht
        · show Function.update s.pc t .none u ≠ .none → _
          rw [Function.update_of_ne hne]
          exact id
      · obtain ⟨p, hp, he⟩ := stepResume_pc t hk hs
        rw [he]
        exact mt (update_none_iff ht hp u).2
  | tick sp => exact absurd rfl (ha sp)

/-- A tick that finds a task to run takes from the slice of the thread that it interrupts, or gives
it a new one and lets another thread run. -/
theorem tick_of_run {sp : Addr} (hs : s.step (.tick sp) = some (e, s')) (hr : s.k.runPtr = some t)
    (hc : 0 < (save s.k sp).osUpdate.runQueue.taskActiveCnt) :
    s'.k.runPtr = (if (save s.k sp).osUpdate.TurnOver t then (save s.k sp).osUpdate.osChangeTask.runPtr
      else some t) ∧
    ∀ u, s'.k.slices u = if u = t then (save s.k sp).osUpdate.spent t else s.k.slices u := by
  have hr' : (save s.k sp).osUpdate.runPtr = some t := (Kernel.osUpdate_runPtr _).trans hr
  rw [(tick_of_step hs).1]
  refine ⟨(Kernel.osSchedule_of_run (u := t) hr' hc).1, ?_⟩
  intro u
  refine (Kernel.osSchedule_of_run hr' hc).2.trans ?_
  rw [Kernel.osUpdate_slices]
  rfl

/-- A tick that finds no task to run leaves all slices alone. -/
theorem tick_of_empty {sp : Addr} (hs : s.step (.tick sp) = some (e, s'))
    (hc : (save s.k sp).osUpdate.runQueue.taskActiveCnt = 0) :
    s'.k.runPtr = some .idle ∧ s'.k.slices = s.k.slices := by
  rw [(tick_of_step hs).1]
  unfold osTick
  rw [Kernel.osSchedule_of_empty hc]
  exact ⟨rfl, Kernel.osUpdate_slices _⟩

theorem tick_running {sp : Addr} (hs : s.step (.tick sp) = some (e, s')) :
    ∃ t, s.k.runPtr = some t := by
  cases (steps_of_step hs).2 with
  | tick sp hr hg => exact ⟨_, hr⟩

/-- A tick leaves the slices of all other threads alone. -/
theorem tick_of_ne {sp : Addr} (hs : s.step (.tick sp) = some (e, s')) (hne : s.k.runPtr ≠ some u) :
    s'.k.slices u = s.k.slices u := by
  obtain ⟨t, hr⟩ := tick_running hs
  rcases Nat.eq_zero_or_pos (save s.k sp).osUpdate.runQueue.taskActiveCnt with hc | hc
  · rw [(tick_of_empty hs hc).2]
  · rw [(tick_of_run hs hr hc).2, if_neg]
    rintro rfl
    exact hne hr

/-- Between ticks `run_ptr` stays where it is, once it is set. -/
theorem step_runPtr (hs : s.step a = some (e, s')) (ha : ∀ sp, a ≠ .tick sp) (hr : s.k.runPtr = some t) :
    s'.k.runPtr = some t := by
  cases (steps_of_step hs).2 with
  | create routine priority hn => cases hn.symm.trans hr
  | launch hn => cases hn.symm.trans hr
  | @call t' c hr' hpc hp =>
      by_cases hc : ∀ r p, c ≠ .thrdCreate r p
      · by_cases hn : ∀ n, c ≠ .thrdSleep n
        · exact (congrArg Base.runPtr (s.stepCall_base t' c hc hn)).trans hr
        · simp only [not_forall, not_not] at hn
          obtain ⟨n, rfl⟩ := hn
          simp only [stepCall]
          split
          · exact (congrArg Kernel.runPtr (complete_k ..)).trans hr
          · exact hr
      · simp only [not_forall, not_not] at hc
        obtain ⟨routine, priority, rfl⟩ := hc
        rw [show (s.stepCall t' (.thrdCreate routine priority)).2.k =
          (s.k.thrdCreate routine priority).2 from (complete_k ..).trans (spawn_k ..)]
        exact (s.k.thrdCreate_runPtr routine priority).trans hr
  | @resume t' _ _ hr' hp hs =>
      by_cases hk : s.pc t' = .kill
      · rw [stepResume_kill t' hk] at hs
        cases hs
        exact (Kernel.osTaskKill_runPtr).trans hr
      · exact (congrArg Base.runPtr (stepResume_base t' hk hs)).trans hr
  | tick sp => exact absurd rfl (ha sp)

end Sys

end MsTos
