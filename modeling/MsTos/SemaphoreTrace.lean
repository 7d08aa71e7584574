-- SUMMARY: The operations that a run performs on one semaphore, and the semaphore as the result of their sequence.
import MsTos.Primitives
import MsTos.SemaphoreCalls

namespace MsTos

/-! ## Operations -/

/-- What a thread does to a semaphore; `rollback` is what it does when its timed wait fails. -/
inductive SemOpKind where
  | wait
  | timedwait
  | trywait
  | post
  | rollback
  deriving DecidableEq

structure SemOp where
  thrd : TaskId
  kind : SemOpKind
  deriving DecidableEq

/-- A semaphore and the threads that it has granted permits, the last one first. -/
structure Ledger where
  sem : Sem
  granted : List TaskId

namespace Ledger

/-- Granting a permit to `t`. -/
def grant (granted : List TaskId) (t : ThrdPtr) : List TaskId :=
  match t with
  | none => granted
  | some t => t :: granted

/-- The semaphore and its grants after an operation. A thread that rolls back its own wait is not
granted anything. -/
def apply (g : Ledger) (op : SemOp) : Ledger :=
  match op.kind with
  | .wait | .timedwait =>
      let (blocks, sem) := g.sem.wait op.thrd
      ⟨sem, if blocks then g.granted else op.thrd :: g.granted⟩
  | .trywait =>
      if g.sem.val > 0 then
        ⟨{ g.sem with val := toInt (g.sem.val - 1) }, op.thrd :: g.granted⟩
      else g
  | .post =>
      let (wakeup, sem) := g.sem.post
      ⟨sem, grant g.granted wakeup⟩
  | .rollback =>
      let (wakeup, sem) := g.sem.post
      ⟨sem, if wakeup = some op.thrd then g.granted else grant g.granted wakeup⟩

/-- What the operations of a history, newest first, make of a semaphore. -/
def replay (value : Nat) : List (Option SemOp) → Ledger
  | [] => ⟨Sem.init value, []⟩
  | none :: h => replay value h
  | some op :: h => (replay value h).apply op

end Ledger

/-! ## The operations of a step -/

namespace Sys

/-- The operation on the semaphore `n` that a step performs. -/
def semOp (n : Nat) (s : Sys) (a : Action) : Option SemOp :=
  match s.k.runPtr, a with
  | some t, .call (.semWait m) => if m = n then some ⟨t, .wait⟩ else none
  | some t, .call (.semTimedwait m _) => if m = n then some ⟨t, .timedwait⟩ else none
  | some t, .call (.semTrywait m) => if m = n then some ⟨t, .trywait⟩ else none
  | some t, .call (.semPost m) => if m = n then some ⟨t, .post⟩ else none
  | some t, .resume =>
      match s.pc t with
      | .semTimedwait m _ false =>
          if m = n ∧ (s.k.thrds t).state = .SLEEPING then some ⟨t, .rollback⟩ else none
      | _ => none
  | _, _ => none

/-- The semaphore after an operation, or after none. -/
def semAfter (n : Nat) (s : Sys) (a : Action) : Sem :=
  match s.semOp n a with
  | none => s.k.sems (.app n)
  | some op => (Ledger.apply ⟨s.k.sems (.app n), []⟩ op).sem

end Sys

/-! ## The calls -/

namespace Kernel

variable {k : Kernel} {t : TaskId} {s : SemId} {n : Nat}

theorem thrdInit_sems (routine priority : Nat) :
    (k.thrdInit t routine priority).2.sems (.app n) = k.sems (.app n) := by
  unfold thrdInit
  split
  · rfl
  · have hne : SemId.app n ≠ .join t := nofun
    have hupd : Function.update k.sems (.join t) (Sem.init 0) (.app n) = k.sems (.app n) :=
      Function.update_of_ne hne _ _
    cases t <;> exact hupd

theorem thrdCreate_sems (routine priority : Nat) :
    (k.thrdCreate routine priority).2.sems (.app n) = k.sems (.app n) := by
  obtain ⟨-, _, _, _, _, h⟩ | ⟨_, i, ⟨_, _, _, _, rfl⟩, -, -, -, h⟩ :=
    thrdCreate_allots (k := k) routine priority
  · rw [h]
  · rw [h]
    exact thrdInit_sems _ _

theorem semTimedwaitEnter_sems (hr : k.runPtr = some t) (timeout : Nat) :
    (k.semTimedwaitEnter s timeout).2.sems = Function.update k.sems s ((k.sems s).wait t).2 ∧
      (k.semTimedwaitEnter s timeout).1 = !((k.sems s).wait t).1 := by
  have hc : (k.startCritical.semDown s).osTaskCurrent.1 = some t := hr
  have hs : (k.startCritical.semDown s).sems =
    Function.update k.sems s { k.sems s with val := toInt ((k.sems s).val - 1) } := rfl
  unfold semTimedwaitEnter Sem.wait
  dsimp only
  rw [hc, hs, Function.update_self]
  dsimp only
  split
  · refine ⟨?_, rfl⟩
    rw [endCritical_sems, osTaskTimedwait_sems, semEnqueue, setSem]
    dsimp only
    rw [show (k.startCritical.semDown s).osTaskCurrent.2.sems = _ from hs, Function.update_self,
      Function.update_idem]
  · exact ⟨hs, rfl⟩

theorem semTimedwaitLeave_sems (locked : Bool) :
    (k.semTimedwaitLeave s t locked).2.sems =
      if locked = false ∧ (k.thrds t).state = .SLEEPING then
        Function.update k.sems s (k.sems s).post.2
      else k.sems := by
  have hst : (k.startCritical.thrds t).state = (k.thrds t).state := rfl
  unfold semTimedwaitLeave
  simp only [Bool.not_eq_true', hst]
  split
  · show (Kernel.semPost _ s).sems = _
    rw [semPost_sems]
    rfl
  · rfl

theorem semTrywait_sems : (k.semTrywait s).2.sems =
    if (k.sems s).val > 0 then
      Function.update k.sems s { k.sems s with val := toInt ((k.sems s).val - 1) }
    else k.sems := by
  rw [semTrywait_eq]
  split <;> rfl

end Kernel

/-! ## Steps -/

namespace Sys

open Kernel

variable {s s' : Sys} {a : Action} {e : Option Event} {n : Nat} {t : TaskId}

theorem call_sem (c : Call) (hr : s.k.runPtr = some t) :
    (s.stepCall t c).2.k.sems (.app n) = s.semAfter n (.call c) := by
  -- the calls on other objects
  have hother : (∀ r p, c ≠ .thrdCreate r p) → (∀ r, c ≠ .thrdExit r) → (∀ m, c ≠ .mtxTrylock m) →
      c.sem ≠ some (.app n) → (s.stepCall t c).2.k.sems (.app n) = s.k.sems (.app n) := by
    intro hc he hm hsem
    refine Prims.sems_eq (stepCall_prims (Q := fun _ => True) (S := fun x => x ≠ .app n) (A := True) c
      hr trivial (wakesIn_true _) ?_ (fun _ => trivial) hc he hm) (fun h => h rfl)
    rintro x hx rfl
    exact hsem hx
  cases c with
  | thrdCreate r p =>
      have hk : (s.stepCall t (.thrdCreate r p)).2.k = (s.k.thrdCreate r p).2 := by
        simp [stepCall]
      rw [hk, thrdCreate_sems]
      simp [semAfter, semOp, hr]
  | thrdExit r =>
      have hp : Prims (fun _ => True) (fun x => x ≠ .app n) True s.k (s.k.osTaskExit r) :=
        Prims.refl.osTaskExit (fun _ => trivial) hr (by simp) r
      have hk : (s.stepCall t (.thrdExit r)).2.k = s.k.osTaskExit r := rfl
      rw [hk, hp.sems_eq (fun h => h rfl)]
      simp [semAfter, semOp, hr]
  | mtxTrylock m =>
      have hk : (s.stepCall t (.mtxTrylock m)).2.k = (s.k.mtxTrylock m).2 := by
        simp [stepCall]
      have hsems : (s.k.mtxTrylock m).2.sems = s.k.sems := by
        unfold mtxTrylock
        dsimp only
        split <;> rfl
      rw [hk, hsems]
      simp [semAfter, semOp, hr]
  | thrdYield | thrdSleep | thrdJoin | mtxLock | mtxTimedlock | mtxUnlock =>
      rw [hother (by simp) (by simp) (by simp) (by simp [Call.sem])]
      simp [semAfter, semOp, hr]
  | semWait m =>
      rcases eq_or_ne m n with rfl | hm
      · have hk : (s.stepCall t (.semWait m)).2.k = s.k.semWait (.app m) := by
          simp [stepCall]
        rw [hk, semWait_sems hr, Function.update_self]
        simp [semAfter, semOp, hr, Ledger.apply]
      · rw [hother (by simp) (by simp) (by simp) (by simpa [Call.sem] using hm)]
        simp [semAfter, semOp, hr, hm]
  | semTimedwait m timeout =>
      rcases eq_or_ne m n with rfl | hm
      · have hk : (s.stepCall t (.semTimedwait m timeout)).2.k =
            (s.k.semTimedwaitEnter (.app m) timeout).2 := rfl
        rw [hk, (semTimedwaitEnter_sems hr timeout).1, Function.update_self]
        simp [semAfter, semOp, hr, Ledger.apply]
      · rw [hother (by simp) (by simp) (by simp) (by simpa [Call.sem] using hm)]
        simp [semAfter, semOp, hr, hm]
  | semTrywait m =>
      rcases eq_or_ne m n with rfl | hm
      · have hk : (s.stepCall t (.semTrywait m)).2.k = (s.k.semTrywait (.app m)).2 := by
          simp [stepCall]
        rw [hk, semTrywait_sems]
        simp only [semAfter, semOp, hr, Ledger.apply, if_true]
        split <;> simp
      · rw [hother (by simp) (by simp) (by simp) (by simpa [Call.sem] using hm)]
        simp [semAfter, semOp, hr, hm]
  | semPost m =>
      rcases eq_or_ne m n with rfl | hm
      · have hk : (s.stepCall t (.semPost m)).2.k = s.k.semPost (.app m) := by
          simp [stepCall]
        rw [hk, semPost_sems, Function.update_self]
        simp [semAfter, semOp, hr, Ledger.apply]
      · rw [hother (by simp) (by simp) (by simp) (by simpa [Call.sem] using hm)]
        simp [semAfter, semOp, hr, hm]

/-- Going on with another call than a timed wait on the semaphore. -/
theorem semAfter_resume (hr : s.k.runPtr = some t) (hpc : ∀ m, s.pc t ≠ .semTimedwait n m false) :
    s.semAfter n .resume = s.k.sems (.app n) := by
  have hop : s.semOp n .resume = none := by
    simp only [semOp, hr]
    split
    · rename_i m timeout h
      rw [if_neg]
      rintro ⟨rfl, -⟩
      exact hpc timeout h
    · rfl
  rw [semAfter, hop]

theorem resume_sem (hr : s.k.runPtr = some t) (hs : s.stepResume t = some (e, s')) :
    s'.k.sems (.app n) = s.semAfter n .resume := by
  have hkeep : (∀ m, s.pc t ≠ .semTimedwait n m false) →
      Prims (fun _ => True) (fun x => x ≠ .app n) True s.k s'.k →
      s'.k.sems (.app n) = s.semAfter n .resume := by
    intro hpc hp
    rw [semAfter_resume hr hpc, hp.sems_eq (fun h => h rfl)]
  have hleave : ∀ m locked, Prims (fun _ => True) (fun x => x ≠ .app n) True s.k
      (s.k.mtxTimedlockLeave m t locked).2 :=
    fun m locked => Prims.refl.mtxTimedlockLeave (fun _ _ => trivial) t locked
  cases resumes_of_stepResume hs with
  | ret c r hpc => exact hkeep (by simp [hpc]) Prims.refl
  | sleepPause ticks hpc =>
      refine hkeep (by simp [hpc]) ?_
      rw [complete_k]
      exact Prims.refl.osTaskPause _
  | semTimedwait m timeout locked hpc =>
      rw [complete_k]
      show (s.k.semTimedwaitLeave (.app m) t locked).2.sems (.app n) = _
      rw [semTimedwaitLeave_sems]
      simp only [semAfter, semOp, hr, hpc]
      cases locked with
      | true => simp
      | false =>
          by_cases hm : m = n
          · subst hm
            by_cases hst : (s.k.thrds t).state = .SLEEPING
            · simp [hst, Ledger.apply]
            · simp [hst]
          · have hne : SemId.app n ≠ .app m := by simpa using Ne.symm hm
            by_cases hst : (s.k.thrds t).state = .SLEEPING
            · simp [hst, hm, Function.update_of_ne hne]
            · simp [hst]
  | mtxTimedlock m timeout locked hpc =>
      refine hkeep (by simp [hpc]) ?_
      rw [complete_k]
      exact hleave m locked
  | mtxPanic m timeout locked hpc => exact hkeep (by simp [hpc]) (hleave m locked)
  | join other hpc =>
      refine hkeep (by simp [hpc]) ?_
      rw [complete_k]
      exact Prims.refl
  | kill hpc => exact hkeep (by simp [hpc]) Prims.refl.osTaskKill

/-- Every step performs its operation on the semaphore, and nothing else. -/
theorem step_sem (hs : s.step a = some (e, s')) : s'.k.sems (.app n) = s.semAfter n a := by
  cases (steps_of_step hs).2 with
  | create r p hr =>
      rw [spawn_k]
      simp [semAfter, semOp, hr, thrdCreate_sems]
  | launch hr =>
      have hp : Prims (fun _ => True) (fun x => x ≠ .app n) True s.k (osStart s.k) := osStart_prims
      simp [semAfter, semOp, hr, hp.sems_eq (s := .app n)]
  | call c hr hpc hp => exact call_sem c hr
  | resume hr hp hs => exact resume_sem hr hs
  | tick sp hr hg =>
      have hp : Prims (fun _ => True) (fun x => x ≠ .app n) True s.k (osTick s.k sp) :=
        osTick_prims (wakesIn_true _) trivial sp
      simp [semAfter, semOp, hr, hp.sems_eq (s := .app n)]

end Sys

end MsTos
