-- SUMMARY: Balanced critical sections: the calls as sequences of parts, when a call brings the nesting counter back to its value, and runs in which interrupts stay enabled.
import MsTos.Conditions
import MsTos.CriticalSections
import MsTos.Deadlines

namespace MsTos

/-! ## Calls -/

/-- The parts of the calls: what happens between two places where other threads may run. -/
inductive Part where
  | osTaskCreate
  | thrdCreate (routine priority : Nat)
  | thrdCurrent
  | yield
  | sleepEnter (ticks : Nat)
  | sleepPause
  | semInit (sem : SemId) (value : Nat)
  | semWait (sem : SemId)
  | semTimedwaitEnter (sem : SemId) (timeout : Nat)
  | semTimedwaitLeave (sem : SemId) (locked : Bool)
  | semTrywait (sem : SemId)
  | semPost (sem : SemId)
  | mtxInit (mtx : Nat)
  | mtxLock (mtx : Nat)
  | mtxTimedlockEnter (mtx timeout : Nat)
  | mtxTimedlockLeave (mtx : Nat) (locked : Bool)
  | mtxTrylock (mtx : Nat)
  | mtxUnlock (mtx : Nat)
  | barrierInit (barrier : Kernel.BarrierSems) (value : Nat)
  | osTaskExit (retCode : Int)
  | osTime

/-- The free list is empty or starts with a slot. What `os_task_create` does with a task at any other
address is not modelled. -/
def Kernel.AllocDefined (k : Kernel) : Prop :=
  k.taskMem.freeList = 0 ∨ (itemAt k.taskMem.freeList).isSome = true

instance (k : Kernel) : Decidable k.AllocDefined := inferInstanceAs (Decidable (_ ∨ _))

namespace Part

/-- The part is run by the thread `t`; `none` where it does not return. -/
def run (t : TaskId) (p : Part) (k : Kernel) : Option Kernel :=
  match p with
  | .osTaskCreate => if k.AllocDefined then some k.osTaskCreate.2 else none
  | .thrdCreate routine priority =>
      if routine = 0 ∨ priority = 0 ∨ k.AllocDefined then some (k.thrdCreate routine priority).2
      else none
  | .thrdCurrent => some k.osTaskCurrent.2
  | .yield => some k.osTaskYield
  | .sleepEnter ticks => some (k.osTaskSleepEnter (some t) ticks)
  | .sleepPause => some (k.osTaskPause (some t))
  | .semInit sem value => some (k.semInit sem value).2
  | .semWait sem => some (k.semWait sem)
  | .semTimedwaitEnter sem timeout => some (k.semTimedwaitEnter sem timeout).2
  | .semTimedwaitLeave sem locked => some (k.semTimedwaitLeave sem t locked).2
  | .semTrywait sem => some (k.semTrywait sem).2
  | .semPost sem => some (k.semPost sem)
  | .mtxInit mtx => some (k.mtxInit mtx).2
  | .mtxLock mtx => some (k.mtxLock mtx)
  | .mtxTimedlockEnter mtx timeout => some (k.mtxTimedlockEnter mtx timeout).2
  | .mtxTimedlockLeave mtx locked =>
      let (r, k) := k.mtxTimedlockLeave mtx t locked
      r.map fun _ => k
  | .mtxTrylock mtx => some (k.mtxTrylock mtx).2
  | .mtxUnlock mtx =>
      let (r, k) := k.mtxUnlock mtx
      r.map fun _ => k
  | .barrierInit barrier value => some (k.barrierInit barrier value).2
  | .osTaskExit retCode =>
      -- the loop ends when nobody waits any more
      let k := k.osTaskExit retCode
      if (k.sems (.join t)).wq.count = 0 then some k else none
  | .osTime => some k.osTime.2

/-- How deep the part nests its sections. -/
def depth (t : TaskId) (p : Part) (k : Kernel) : Nat :=
  match p with
  | .osTaskCreate => 2
  | .thrdCreate routine priority => Kernel.thrdCreateDepth routine priority
  | .thrdCurrent => 1
  | .yield => 0
  | .sleepEnter _ => 1
  | .sleepPause => 2
  | .semInit _ value => if value > numThreads then 0 else 1
  | .semWait sem => k.semWaitDepth sem
  | .semTimedwaitEnter sem timeout => k.semTimedwaitEnterDepth sem timeout
  | .semTimedwaitLeave sem locked => k.semTimedwaitLeaveDepth sem t locked
  | .semTrywait _ => 1
  | .semPost sem => k.semPostDepth sem
  | .mtxInit _ => 1
  | .mtxLock mtx => k.mtxLockDepth mtx
  | .mtxTimedlockEnter mtx timeout => k.mtxTimedlockEnterDepth mtx timeout
  | .mtxTimedlockLeave _ _ => 1
  | .mtxTrylock _ => 2
  | .mtxUnlock mtx => k.mtxUnlockDepth mtx
  | .barrierInit _ value => if value > numThreads then 0 else 2
  | .osTaskExit _ => k.osTaskExitDepth t
  | .osTime => 1

/-- A part that is to create a thread finds room for it. -/
def Creates (p : Part) (k : Kernel) : Prop :=
  match p with
  | .osTaskCreate => k.CanCreate
  | .thrdCreate routine priority => routine = 0 ∨ priority = 0 ∨ k.CanCreate
  | _ => True

instance (p : Part) (k : Kernel) : Decidable (p.Creates k) := by
  unfold Creates
  split <;> infer_instance

variable {k k' : Kernel} {t : TaskId} {p : Part}

/-- What every part does to the interrupts, unless a creation fails. -/
theorem run_nested (hn : k.irq.nest < wordSize) (hr : k.runPtr = some t) (hc : p.Creates k)
    (hp : p.run t k = some k') : k.Nested (p.depth t k) k' := by
  cases p with
  | osTaskCreate =>
      cases (Option.ite_none_right_eq_some.1 hp).2
      exact (Kernel.osTaskCreate_nested hn hc).1
  | thrdCreate routine priority =>
      cases (Option.ite_none_right_eq_some.1 hp).2
      exact Kernel.thrdCreate_nested hn hc
  | thrdCurrent =>
      cases hp
      exact Kernel.osTaskCurrent_nested hn
  | yield =>
      cases hp
      exact Kernel.osTaskYield_nested hn
  | sleepEnter ticks =>
      cases hp
      exact Kernel.osTaskSleepEnter_nested hn _
  | sleepPause =>
      cases hp
      exact Kernel.osTaskPause_nested hn
  | semInit sem value =>
      cases hp
      exact Kernel.semInit_nested hn value
  | semWait sem =>
      cases hp
      exact Kernel.semWait_nested hn
  | semTimedwaitEnter sem timeout =>
      cases hp
      exact Kernel.semTimedwaitEnter_nested hn timeout
  | semTimedwaitLeave sem locked =>
      cases hp
      exact Kernel.semTimedwaitLeave_nested hn locked
  | semTrywait sem =>
      cases hp
      exact Kernel.semTrywait_nested hn
  | semPost sem =>
      cases hp
      exact Kernel.semPost_nested hn
  | mtxInit mtx =>
      cases hp
      exact Kernel.mtxInit_nested hn
  | mtxLock mtx =>
      cases hp
      exact Kernel.mtxLock_nested hn hr
  | mtxTimedlockEnter mtx timeout =>
      cases hp
      exact Kernel.mtxTimedlockEnter_nested hn hr timeout
  | mtxTimedlockLeave mtx locked =>
      rcases he : k.mtxTimedlockLeave mtx t locked with ⟨r, k₁⟩
      simp only [run, he] at hp
      obtain ⟨r, rfl, rfl⟩ := Option.map_eq_some_iff.1 hp
      exact Kernel.mtxTimedlockLeave_nested hn hr he
  | mtxTrylock mtx =>
      cases hp
      exact Kernel.mtxTrylock_nested hn
  | mtxUnlock mtx =>
      rcases he : k.mtxUnlock mtx with ⟨r, k₁⟩
      simp only [run, he] at hp
      obtain ⟨r, rfl, rfl⟩ := Option.map_eq_some_iff.1 hp
      exact Kernel.mtxUnlock_nested hn hr he
  | barrierInit barrier value =>
      cases hp
      exact Kernel.barrierInit_nested hn barrier value
  | osTaskExit retCode =>
      obtain ⟨h0, he⟩ := Option.ite_none_right_eq_some.1 hp
      cases he
      exact Kernel.osTaskExit_nested hn hr h0
  | osTime =>
      cases hp
      exact Kernel.osTime_nested hn

/-- A creation that fails leaves a section open. -/
theorem run_leaks (hn : k.irq.nest < wordSize) (hc : ¬ p.Creates k)
    (hp : p.run t k = some k') : k'.irq.nest ≠ k.irq.nest := by
  cases p with
  | osTaskCreate =>
      cases (Option.ite_none_right_eq_some.1 hp).2
      exact (Kernel.osTaskCreate_leaks hn hc).1.ne (by decide)
  | thrdCreate routine priority =>
      cases (Option.ite_none_right_eq_some.1 hp).2
      have hc : ¬ (routine = 0 ∨ priority = 0 ∨ k.CanCreate) := hc
      push Not at hc
      exact (Kernel.thrdCreate_leaks hn hc.1 hc.2.1 hc.2.2).ne (by decide)
  | _ => exact absurd trivial hc

theorem depth_le (p : Part) (k : Kernel) (t : TaskId) : p.depth t k ≤ 4 := by
  have hpost : ∀ s, k.semPostDepth s ≤ 3 := fun s => Kernel.semPostDepth_le
  cases p with
  | semTimedwaitLeave sem locked =>
      show k.semTimedwaitLeaveDepth sem t locked ≤ 4
      unfold Kernel.semTimedwaitLeaveDepth
      split
      · exact Nat.succ_le_succ (hpost sem)
      · decide
  | semPost sem => exact (hpost sem).trans (by decide)
  | semTimedwaitEnter sem timeout =>
      show k.semTimedwaitEnterDepth sem timeout ≤ 4
      unfold Kernel.semTimedwaitEnterDepth
      split
      · split <;> decide
      · decide
  | thrdCreate routine priority =>
      show Kernel.thrdCreateDepth routine priority ≤ 4
      unfold Kernel.thrdCreateDepth
      split <;> decide
  | semWait sem =>
      show k.semWaitDepth sem ≤ 4
      unfold Kernel.semWaitDepth
      split <;> decide
  | mtxLock mtx =>
      show k.mtxLockDepth mtx ≤ 4
      unfold Kernel.mtxLockDepth
      split <;> decide
  | mtxTimedlockEnter mtx timeout =>
      show k.mtxTimedlockEnterDepth mtx timeout ≤ 4
      unfold Kernel.mtxTimedlockEnterDepth
      split <;> decide
  | mtxUnlock mtx =>
      show k.mtxUnlockDepth mtx ≤ 4
      unfold Kernel.mtxUnlockDepth
      split <;> decide
  | osTaskExit retCode =>
      show k.osTaskExitDepth t ≤ 4
      unfold Kernel.osTaskExitDepth
      split <;> decide
  | semInit sem value | barrierInit barrier value =>
      unfold depth
      dsimp only
      split <;> decide
  | _ => simp [depth]

end Part

/-- The functions of the kernel that applications call; a pointer argument may be `NULL`. -/
inductive Api where
  | thrdCreate (routine priority : Nat)
  | osTaskCreate
  | thrdSleep (ticks : Nat)
  | semInit (sem : Option SemId) (value : Nat)
  | semWait (sem : Option SemId)
  | semTimedwait (sem : Option SemId) (timeout : Nat)
  | semTrywait (sem : Option SemId)
  | semPost (sem : Option SemId)
  | mtxInit (mtx : Option Nat)
  | mtxLock (mtx : Option Nat)
  | mtxTimedlock (mtx : Option Nat) (timeout : Nat)
  | mtxTrylock (mtx : Option Nat)
  | mtxUnlock (mtx : Option Nat)
  | barrierInit (barrier : Option Kernel.BarrierSems) (value : Nat)
  | barrierWait (barrier : Option Kernel.BarrierSems)
  | osTaskExit (retCode : Int)
  | osTime

namespace Api

/-- A phase of `barrier_wait`, in which the turnstile is posted `n` times. -/
def phaseParts (mutex turnstile : SemId) (n : Nat) : List Part :=
  .semWait mutex :: (List.replicate n (.semPost turnstile) ++ [.semPost mutex, .semWait turnstile])

/-- The parts that a call runs through. How often `barrier_wait` posts its turnstiles depends on the
other threads; it is 0 or `barrier->val`. -/
def Parts : Api → List Part → Prop
  | .thrdCreate routine priority, ps => ps = [.thrdCreate routine priority]
  | .osTaskCreate, ps => ps = [.osTaskCreate]
  | .thrdSleep ticks, ps =>
      ps = .thrdCurrent :: if ticks = 0 then [.yield] else [.sleepEnter ticks, .sleepPause]
  | .semInit sem value, ps => ps = (sem.map fun s => .semInit s value).toList
  | .semWait sem, ps => ps = (sem.map .semWait).toList
  | .semTimedwait none _, ps => ps = []
  | .semTimedwait (some sem) timeout, ps =>
      ∃ locked, ps = [.semTimedwaitEnter sem timeout, .semTimedwaitLeave sem locked]
  | .semTrywait sem, ps => ps = (sem.map .semTrywait).toList
  | .semPost sem, ps => ps = (sem.map .semPost).toList
  | .mtxInit mtx, ps => ps = (mtx.map .mtxInit).toList
  | .mtxLock mtx, ps => ps = (mtx.map .mtxLock).toList
  | .mtxTimedlock none _, ps => ps = []
  | .mtxTimedlock (some mtx) timeout, ps =>
      ∃ locked, ps = [.mtxTimedlockEnter mtx timeout, .mtxTimedlockLeave mtx locked]
  | .mtxTrylock mtx, ps => ps = (mtx.map .mtxTrylock).toList
  | .mtxUnlock mtx, ps => ps = (mtx.map .mtxUnlock).toList
  | .barrierInit barrier value, ps => ps = (barrier.map fun b => .barrierInit b value).toList
  | .barrierWait none, ps => ps = []
  | .barrierWait (some b), ps =>
      ∃ n₁ n₂, ps = phaseParts b.mutex b.turnstile1 n₁ ++ phaseParts b.mutex b.turnstile2 n₂
  | .osTaskExit retCode, ps => ps = [.osTaskExit retCode]
  | .osTime, ps => ps = [.osTime]

end Api

/-- The thread `t` runs through the parts, each of them in the state beside it. In between, other
threads and ticks may do anything that leaves the nesting counter as it is. -/
inductive Execs (t : TaskId) : List (Part × Kernel) → Kernel → Kernel → Prop
  | nil (k : Kernel) : Execs t [] k k
  | cons {p : Part} {ps : List (Part × Kernel)} {k k₀ k₁ k' : Kernel}
      (hk : k₀.irq.nest = k.irq.nest) (hr : k₀.runPtr = some t) (hp : p.run t k₀ = some k₁)
      (hps : Execs t ps k₁ k') : Execs t ((p, k₀) :: ps) k k'

namespace Execs

variable {t : TaskId} {ps : List (Part × Kernel)} {k k' : Kernel}

/-- The deepest nesting of the parts. -/
def depth (t : TaskId) (ps : List (Part × Kernel)) : Nat :=
  ps.foldr (fun p d => max (p.1.depth t p.2) d) 0

theorem depth_le (ps : List (Part × Kernel)) : depth t ps ≤ 4 := by
  induction ps with
  | nil => exact Nat.zero_le 4
  | cons p ps ih => exact max_le (Part.depth_le _ _ _) ih

/-- If no creation fails, the parts of a call are a block of nested sections. -/
theorem nests (h : Execs t ps k k') (hn : k.irq.nest < wordSize)
    (hc : ∀ p ∈ ps, p.1.Creates p.2) : Nests wordSize (depth t ps) k.irq.nest k'.irq.nest := by
  induction h with
  | nil k => exact .zero hn
  | @cons p ps k k₀ k₁ k' hk hr hp hps ih =>
      have hone := Part.run_nested (hk ▸ hn) hr (hc _ List.mem_cons_self) hp
      have hrest := ih hone.lt fun p hm => hc p (List.mem_cons_of_mem _ hm)
      have hd := Part.depth_le p k₀ t
      have hds := depth_le (t := t) ps
      have hde : p.depth t k₀ + depth t ps ≤ wordSize := by
        simp only [wordSize]
        omega
      rw [← hk]
      exact hone.nest.seq hrest hde

/-- Every part finds room if and only if the deepest one does. -/
theorem room_iff (h : Execs t ps k k') (hn : k.irq.nest < wordSize)
    (hc : ∀ p ∈ ps, p.1.Creates p.2) : k.irq.nest + depth t ps < wordSize ↔
      ∀ p ∈ ps, p.2.irq.nest + p.1.depth t p.2 < wordSize := by
  induction h with
  | nil k => simpa [depth] using hn
  | @cons p ps k k₀ k₁ k' hk hr hp hps ih =>
      have hone := Part.run_nested (hk ▸ hn) hr (hc _ List.mem_cons_self) hp
      have hrest := ih hone.lt fun p hm => hc p (List.mem_cons_of_mem _ hm)
      have hmax : depth t ((p, k₀) :: ps) = max (p.depth t k₀) (depth t ps) := rfl
      rw [List.forall_mem_cons, hmax, ← hk]
      constructor
      · intro hroom
        have hp : k₀.irq.nest + p.depth t k₀ < wordSize := by omega
        refine ⟨hp, hrest.1 ?_⟩
        rw [hone.nest.keeps hp]
        omega
      · rintro ⟨hp, hps⟩
        have hp : k₀.irq.nest + p.depth t k₀ < wordSize := hp
        have hps := hrest.2 hps
        rw [hone.nest.keeps hp] at hps
        omega

end Execs

namespace Api

/-- Only calls with one part create threads. -/
theorem Parts.creates {c : Api} {ps : List Part} (h : c.Parts ps) :
    (∃ p, ps = [p]) ∨ ∀ p ∈ ps, ∀ k, p.Creates k := by
  have hphase : ∀ mutex turnstile n, ∀ p ∈ phaseParts mutex turnstile n, ∀ k, p.Creates k := by
    intro mutex turnstile n p hm k
    simp only [phaseParts, List.mem_cons, List.mem_append, List.mem_replicate, List.not_mem_nil,
      or_false] at hm
    rcases hm with rfl | ⟨-, rfl⟩ | rfl | rfl <;> trivial
  cases c with
  | thrdCreate | osTaskCreate | osTaskExit | osTime => exact .inl ⟨_, h⟩
  | thrdSleep ticks =>
      right
      have h : ps = _ := h
      intro p hm k
      split at h
      · subst h
        simp only [List.mem_cons, List.not_mem_nil, or_false] at hm
        rcases hm with rfl | rfl <;> trivial
      · subst h
        simp only [List.mem_cons, List.not_mem_nil, or_false] at hm
        rcases hm with rfl | rfl | rfl <;> trivial
  | semInit x | semWait x | semTrywait x | semPost x | mtxInit x | mtxLock x | mtxTrylock x
  | mtxUnlock x | barrierInit x =>
      cases x with
      | none =>
          right
          intro p hm
          rw [show ps = [] from h] at hm
          cases hm
      | some => exact .inl ⟨_, h⟩
  | semTimedwait x | mtxTimedlock x =>
      right
      cases x with
      | none =>
          intro p hm
          rw [show ps = [] from h] at hm
          cases hm
      | some =>
          obtain ⟨locked, rfl⟩ := h
          intro p hm k
          simp only [List.mem_cons, List.not_mem_nil, or_false] at hm
          rcases hm with rfl | rfl <;> trivial
  | barrierWait x =>
      right
      cases x with
      | none =>
          intro p hm
          rw [show ps = [] from h] at hm
          cases hm
      | some b =>
          obtain ⟨n₁, n₂, rfl⟩ := h
          intro p hm k
          rcases List.mem_append.1 hm with hm | hm
          · exact hphase _ _ _ p hm k
          · exact hphase _ _ _ p hm k

end Api

/-- A call that returns brings the nesting counter back to its value if and only if it creates the
thread that it is to create, and the counter has room for its sections. -/
theorem call_balanced_iff {c : Api} {t : TaskId} {ps : List (Part × Kernel)} {k k' : Kernel}
    (hc : c.Parts (ps.map Prod.fst)) (h : Execs t ps k k') (hn : k.irq.nest < wordSize) :
    k'.irq.nest = k.irq.nest ↔
      ∀ p ∈ ps, p.1.Creates p.2 ∧ p.2.irq.nest + p.1.depth t p.2 < wordSize := by
  by_cases hall : ∀ p ∈ ps, p.1.Creates p.2
  · have hd := Execs.depth_le (t := t) ps
    rw [(h.nests hn hall).eq_iff (by simp only [wordSize]; omega), h.room_iff hn hall]
    constructor
    · intro hroom p hm
      exact ⟨hall p hm, hroom p hm⟩
    · intro hok p hm
      exact (hok p hm).2
  · push Not at hall
    obtain ⟨p, hm, hfail⟩ := hall
    refine iff_of_false ?_ fun hok => hfail (hok p hm).1
    rcases hc.creates with ⟨q, hq⟩ | hq
    · obtain ⟨x, rfl, -⟩ := List.map_eq_singleton_iff.1 hq
      cases List.mem_singleton.1 hm
      cases h with
      | cons hk hr hp hps =>
          cases hps
          rw [← hk]
          exact Part.run_leaks (hk ▸ hn) hfail hp
    · exact absurd (hq _ (List.mem_map_of_mem hm) _) hfail

/-! ## Runs -/

namespace Kernel

variable {k k' : Kernel} {d : Nat}

/-- Interrupts are enabled, and no critical section is open. -/
def Unmasked (k : Kernel) : Prop := k.irq.nest = 0 ∧ k.irq.gie = true

theorem Unmasked.lt (h : k.Unmasked) : k.irq.nest < wordSize := by
  rw [h.1]
  decide

theorem Nested.unmasked (h : k.Nested d k') (hk : k.Unmasked) (hd : d < 16) : k'.Unmasked := by
  refine ⟨?_, h.gie hk.1 hk.2⟩
  rw [h.nest.keeps (by rw [hk.1]; simp only [wordSize]; omega), hk.1]

theorem tfree_nested (hn : k.irq.nest < wordSize) (p : ThrdPtr) : Nested 1 k (k.tfree p) := by
  refine .enclose hn (fun h => ?_) (by decide)
  refine (Nested.refl h).congr ?_
  split <;> rfl

theorem osTaskKill_nested (hn : k.irq.nest < wordSize) : Nested 2 k k.osTaskKill := by
  refine .enclose hn (fun h => ?_) (by decide)
  have hdel := (osTaskCurrent_nested h).seq_left
    (osDelTask_nested (p := k.startCritical.osTaskCurrent.1)) (by decide) (by decide)
  have hfree := hdel.seq_left (fun h => tfree_nested h k.startCritical.osTaskCurrent.1) (by decide)
    (by decide)
  exact hfree.seq_left osTaskYield_nested (by decide) (by decide)

@[simp] theorem osUpdate_irq : k.osUpdate.irq = k.irq := by
  have hw := wakeSleepers_invariant (P := fun k' => k'.irq = k.irq) (fun _ _ _ h => h)
    (fun k' d q _ h => (store_irq _).trans (osAddTaskMmang_irq.trans h))
    (k := { k with osTickCnt := (k.osTickCnt + 1) % wordSize }) rfl (k.sleepQueue.count / 2)
    k.sleepQueue.count
  exact expireDeadlines_invariant (P := fun k' => k'.irq = k.irq) (fun _ _ _ h => h)
    (fun k' d q _ h => osAddTaskMmang_irq.trans h) hw _ _

end Kernel

namespace Sys

open Kernel

variable {s s' : Sys} {a : Action} {e : Option Event} {t : TaskId} {vals : Nat → Nat}
  {h : List (Option Event)}

/-- The second section of `mtx_timedlock` finds its caller holding the mutex. -/
def LockGranted (s : Sys) : Prop :=
  match s.k.runPtr with
  | none => True
  | some t =>
      match s.pc t with
      | .mtxTimedlock mtx _ locked => locked = true ∨ (s.k.mtxs mtx).holder = some t
      | _ => True

instance (s : Sys) : Decidable s.LockGranted := by
  unfold LockGranted
  split
  · infer_instance
  · split <;> infer_instance

/-- `mtx_unlock` is called by the holder, and `mtx_timedlock` does not time out, so that neither ends
in `os_panic`. -/
def Returns (s : Sys) (a : Action) : Prop :=
  match a with
  | .call (.mtxUnlock mtx) => (s.k.mtxs mtx).holder = s.k.runPtr
  | .resume => s.LockGranted
  | _ => True

instance (s : Sys) (a : Action) : Decidable (s.Returns a) := by
  unfold Returns
  split <;> infer_instance

/-- No creation fails, and no call ends in `os_panic`. -/
def BalanceGuard (s : Sys) (a : Action) : Prop :=
  (creates a = true → s.k.CanCreate) ∧ s.Returns a

instance (s : Sys) (a : Action) : Decidable (s.BalanceGuard a) := inferInstanceAs (Decidable (_ ∧ _))

theorem thrdCreate_unmasked (hk : s.k.Unmasked) {routine priority : SizeT} {a : Action}
    (ha : creates a = decide (routine.val ≠ 0 ∧ priority.val ≠ 0)) (hg : s.BalanceGuard a) :
    (s.k.thrdCreate routine priority).2.Unmasked := by
  have hc : routine.val = 0 ∨ priority.val = 0 ∨ s.k.CanCreate := by
    by_cases hr : routine.val = 0
    · exact .inl hr
    · by_cases hp : priority.val = 0
      · exact .inr (.inl hp)
      · exact .inr (.inr (hg.1 (ha.trans (decide_eq_true ⟨hr, hp⟩))))
  refine (thrdCreate_nested hk.lt hc).unmasked hk ?_
  unfold thrdCreateDepth
  split <;> decide

/-- A part of a call leaves interrupts enabled. -/
theorem part_unmasked {p : Part} {k k' : Kernel} (hk : k.Unmasked) (hr : k.runPtr = some t)
    (hc : p.Creates k) (hp : p.run t k = some k') : k'.Unmasked :=
  (Part.run_nested hk.lt hr hc hp).unmasked hk (Nat.lt_of_le_of_lt (Part.depth_le p k t) (by decide))

theorem stepCall_unmasked (c : Call) (hk : s.k.Unmasked) (hr : s.k.runPtr = some t)
    (hg : s.BalanceGuard (.call c)) : (s.stepCall t c).2.k.Unmasked := by
  have hpart : ∀ {p : Part} {k' : Kernel}, p.Creates s.k → p.run t s.k = some k' → k'.Unmasked :=
    part_unmasked hk hr
  cases c with
  | thrdCreate routine priority =>
      simp only [stepCall, complete_k, spawn_k]
      exact thrdCreate_unmasked hk rfl hg
  | thrdYield =>
      simp only [stepCall, complete_k]
      exact hpart (p := .yield) trivial rfl
  | thrdSleep ticks =>
      unfold stepCall
      dsimp only
      split
      · rw [complete_k]
        exact hpart (p := .yield) trivial rfl
      · exact hpart (p := .sleepEnter ticks) trivial rfl
  | thrdExit retCode => exact osTaskExit_unmasked hr hk.1 retCode
  | thrdJoin other => exact hpart (p := .semWait (.join other)) trivial rfl
  | semWait sem =>
      simp only [stepCall, complete_k]
      exact hpart (p := .semWait (.app sem)) trivial rfl
  | semTimedwait sem timeout =>
      exact hpart (p := .semTimedwaitEnter (.app sem) timeout) trivial rfl
  | semTrywait sem =>
      simp only [stepCall, complete_k]
      exact hpart (p := .semTrywait (.app sem)) trivial rfl
  | semPost sem =>
      simp only [stepCall, complete_k]
      exact hpart (p := .semPost (.app sem)) trivial rfl
  | mtxLock mtx =>
      simp only [stepCall, complete_k]
      exact hpart (p := .mtxLock mtx) trivial rfl
  | mtxTimedlock mtx timeout => exact hpart (p := .mtxTimedlockEnter mtx timeout) trivial rfl
  | mtxTrylock mtx =>
      simp only [stepCall, complete_k]
      exact hpart (p := .mtxTrylock mtx) trivial rfl
  | mtxUnlock mtx =>
      rcases he : s.k.mtxUnlock mtx with ⟨r, k'⟩
      cases r with
      | none =>
          exfalso
          have hh : (s.k.mtxs mtx).holder = s.k.runPtr := hg.2
          unfold Kernel.mtxUnlock at he
          dsimp only at he
          split at he
          · rename_i hne
            exact hne hh
          · split at he <;> cases he
      | some r =>
          simp only [stepCall, he, complete_k]
          exact hpart (p := .mtxUnlock mtx) trivial (by simp [Part.run, he])

theorem stepResume_unmasked (hk : s.k.Unmasked) (hr : s.k.runPtr = some t) (hg : s.LockGranted)
    (hs : s.stepResume t = some (e, s')) : s'.k.Unmasked := by
  have hpart : ∀ {p : Part} {k' : Kernel}, p.Creates s.k → p.run t s.k = some k' → k'.Unmasked :=
    part_unmasked hk hr
  have hleave : ∀ {m : Nat} {timeout : SizeT} {locked : Bool},
      s.pc t = .mtxTimedlock m timeout locked →
      s.k.mtxTimedlockLeave m t locked = (some 0, s.k.startCritical.endCritical) := by
    intro m timeout locked hpc
    have hl : locked = true ∨ (s.k.mtxs m).holder = some t := by
      unfold LockGranted at hg
      rw [hr] at hg
      dsimp only at hg
      rw [hpc] at hg
      exact hg
    unfold Kernel.mtxTimedlockLeave
    dsimp only
    rw [if_neg]
    rintro ⟨hf, hne⟩
    rcases hl with rfl | hh
    · cases hf
    · exact hne hh
  cases resumes_of_stepResume hs with
  | ret => exact hk
  | sleepPause =>
      rw [complete_k]
      exact hpart (p := .sleepPause) trivial rfl
  | semTimedwait n timeout locked =>
      rw [complete_k]
      exact hpart (p := .semTimedwaitLeave (.app n) locked) trivial rfl
  | mtxTimedlock m timeout locked hpc hl =>
      rw [complete_k]
      exact hpart (p := .mtxTimedlockLeave m locked) trivial (by simp [Part.run, hleave hpc])
  | mtxPanic m timeout locked hpc hl =>
      rw [hleave hpc] at hl
      cases hl
  | join =>
      rw [complete_k]
      exact hk
  | kill => exact (osTaskKill_nested hk.lt).unmasked hk (by decide)

theorem step_unmasked (hk : s.k.Unmasked) (hg : s.BalanceGuard a) (hs : s.step a = some (e, s')) :
    s'.k.Unmasked := by
  cases (steps_of_step hs).2 with
  | create routine priority =>
      rw [spawn_k]
      exact thrdCreate_unmasked hk rfl hg
  | launch =>
      refine ⟨?_, rfl⟩
      show s.k.osFirstTask.irq.nest = 0
      unfold Kernel.osFirstTask
      split <;> exact hk.1
  | call c hr hpc hp => exact stepCall_unmasked c hk hr hg
  | resume hr hp hs => exact stepResume_unmasked hk hr hg.2 hs
  | tick sp =>
      refine ⟨?_, rfl⟩
      show (save s.k sp).osUpdate.osSchedule.irq.nest = 0
      rw [osSchedule_irq, osUpdate_irq]
      exact hk.1

theorem run_unmasked (hr : (system vals).Run BalanceGuard h s) : s.k.Unmasked := by
  refine hr.invariant (P := fun _ s => s.k.Unmasked) ?_ ?_
  · rintro s rfl
    exact ⟨rfl, rfl⟩
  · intro h s a e s' hk hg hs
    exact step_unmasked hk hg hs

/-- A call that returns brings the nesting counter back to its value if and only if it creates the
thread that it is to create, and the counter has room for its sections. Along every run in which no
creation fails and no call ends in `os_panic`, no section is left open and interrupts stay
enabled. -/
theorem sections_balanced (c : Api) (t : TaskId) (ps : List (Part × Kernel)) (k k' : Kernel)
    (vals : Nat → Nat) (h : List (Option Event)) (s : Sys) :
    (c.Parts (ps.map Prod.fst) → Execs t ps k k' → k.irq.nest < wordSize →
      (k'.irq.nest = k.irq.nest ↔
        ∀ p ∈ ps, p.1.Creates p.2 ∧ p.2.irq.nest + p.1.depth t p.2 < wordSize)) ∧
    ((system vals).Run BalanceGuard h s → s.k.irq.nest = 0 ∧ s.k.irq.gie = true) :=
  ⟨fun hc hx hn => call_balanced_iff hc hx hn, fun hr => run_unmasked hr⟩

/-- A thread calls `sem_wait`, and is not blocked. -/
theorem sections_balanced_semWait :
    ∃ h s k', (system fun _ => 1).Run BalanceGuard h s ∧ (s.k.irq.nest = 0 ∧ s.k.irq.gie = true) ∧
      Execs (.slot 15) [(.semWait (.app 0), s.k)] s.k k' ∧ k'.irq.nest = s.k.irq.nest := by
  rcases exists_run (fun _ => 1) (G := BalanceGuard) [.create 1 1, .launch]
    (P := fun _ s => s.k.runPtr = some (.slot 15)) (by decide +kernel) with ⟨h, s, hr, ht⟩
  have hx : Execs (.slot 15) [(.semWait (.app 0), s.k)] s.k (s.k.semWait (.app 0)) :=
    .cons rfl ht rfl (.nil _)
  have hboth := sections_balanced (.semWait (some (.app 0))) (.slot 15) [(.semWait (.app 0), s.k)] s.k
    (s.k.semWait (.app 0)) (fun _ => 1) h s
  have hk := hboth.2 hr
  refine ⟨h, s, _, hr, hk, hx, ?_⟩
  have hparts : (Api.semWait (some (.app 0))).Parts
      (List.map Prod.fst [(Part.semWait (.app 0), s.k)]) := rfl
  refine (hboth.1 hparts hx (by rw [hk.1]; decide)).2 ?_
  intro p hm
  obtain rfl := List.mem_singleton.1 hm
  refine ⟨trivial, ?_⟩
  have hd := Part.depth_le (.semWait (.app 0)) s.k (.slot 15)
  simp only [hk.1, wordSize]
  omega

/-- The pool is exhausted: `thrd_create` returns -1 with a section left open and interrupts
disabled. -/
theorem create_leaves_section :
    ∃ h s, (system fun _ => 0).Run (fun _ _ => True) h s ∧ s.k.irq.nest = 0 ∧
      s.k.irq.gie = true ∧ (s.k.thrdCreate 1 1).1.1 = -1 ∧ (s.k.thrdCreate 1 1).2.irq.nest = 1 ∧
      (s.k.thrdCreate 1 1).2.irq.gie = false :=
  exists_run (fun _ => 0) (List.replicate 16 (.create 1 1)) (by decide +kernel)

end Sys

end MsTos
