-- SUMMARY: What a step asks of the pool and the run queue, and the conditions under which it can be asked.
import MsTos.RunQueue
import MsTos.System

namespace MsTos

/-! ## Predicates of the code -/

/-- `sem_wait` and `sem_timedwait` do not find a permit. -/
def Kernel.SemBlocks (k : Kernel) (sem : SemId) : Prop := toInt ((k.sems sem).val - 1) < 0

instance (k : Kernel) (sem : SemId) : Decidable (k.SemBlocks sem) :=
  inferInstanceAs (Decidable (_ < _))

/-- `mtx_lock` and `mtx_timedlock` find the mutex held. -/
def Kernel.MtxHeld (k : Kernel) (mtx : Nat) : Prop := (k.mtxs mtx).holder ≠ none

instance (k : Kernel) (mtx : Nat) : Decidable (k.MtxHeld mtx) :=
  inferInstanceAs (Decidable (_ ≠ _))

namespace Sys

/-- The step calls `os_task_create`. -/
def creates (a : Action) : Bool :=
  match a with
  | .create routine priority | .call (.thrdCreate routine priority) =>
      routine.val ≠ 0 ∧ priority.val ≠ 0
  | _ => false

/-- The call unlinks its caller from the run queue. -/
def callDeletes (s : Sys) (c : Call) : Bool :=
  match c with
  | .semWait sem => s.k.SemBlocks (.app sem)
  | .semTimedwait sem timeout => s.k.SemBlocks (.app sem) ∧ timeout.val ≠ 0
  | .thrdJoin other => s.k.SemBlocks (.join other)
  | .mtxLock mtx => s.k.MtxHeld mtx
  | .mtxTimedlock mtx timeout => s.k.MtxHeld mtx ∧ timeout.val ≠ 0
  | _ => false

/-- The running thread goes on with an unlinking section. -/
def resumeDeletes (s : Sys) (t : TaskId) : Bool :=
  match s.pc t with
  | .sleepPause _ | .kill => true
  | _ => false

/-- The step passes the running thread `t` to `os_del_task_mmang`. -/
def deletes (s : Sys) (a : Action) (t : TaskId) : Bool :=
  match a with
  | .call c => s.k.runPtr = some t ∧ s.callDeletes c
  | .resume => s.k.runPtr = some t ∧ s.resumeDeletes t
  | _ => false

/-! ## Concrete runs -/

/-- Performing a list of actions shows that a run with a given property exists. -/
theorem exists_run (vals : Nat → Nat) {G : Sys → Action → Prop} [∀ s a, Decidable (G s a)]
    (as : List Action) {P : List (Option Event) → Sys → Prop} [∀ h s, Decidable (P h s)]
    (he : ((system vals).exec G (boot vals) [] as).any (fun r => decide (P r.1 r.2)) = true) :
    ∃ h s, (system vals).Run G h s ∧ P h s :=
  TransitionSystem.exists_run_of_exec rfl as he

/-- One action more shows that there is a step with a given property after such a run. -/
theorem exists_step (vals : Nat → Nat) {G : Sys → Action → Prop} [∀ s a, Decidable (G s a)]
    (as : List Action) (a : Action) {P : Sys → Prop} [∀ s, Decidable (P s)]
    {Q : Option Event → Sys → Prop} [∀ e s, Decidable (Q e s)]
    (he : ((system vals).exec G (boot vals) [] as).any (fun r =>
      decide (P r.2) && (r.2.step a).any fun r' => decide (Q r'.1 r'.2)) = true) :
    ∃ h s e s', (system vals).Run G h s ∧ P s ∧ s.step a = some (e, s') ∧ Q e s' :=
  TransitionSystem.exists_step_of_exec (P := fun _ s => P s) rfl as a he

/-! ## Conditions -/

/-- `pool_task_mem_alloc` would return `NULL`, or a whole slot that no thread owns and that is not
linked in the run queue. -/
def AllocOk (s : Sys) : Prop :=
  s.k.taskMem.freeList = 0 ∨
    ∃ i, itemAt s.k.taskMem.freeList = some i ∧ s.pc (.slot i) = .none ∧
      s.k.runQueue.linked (.slot i) = false

instance (s : Sys) : Decidable s.AllocOk := inferInstanceAs (Decidable (_ ∨ _))

end Sys

end MsTos
