-- SUMMARY: The calls of the kernel as sequences of primitive effects, for any state of the interrupts.
import Mathlib.Logic.Relation
import MsTos.Deadlines
import MsTos.Effects
import MsTos.Frame

namespace MsTos

namespace Kernel

/-! ## Primitive effects -/

/-- What may happen to a wait queue, if only handles of threads in `Q` are pushed. -/
inductive QueueOp (Q : TaskId → Prop) (q : Queue ThrdPtr numThreads) :
    Queue ThrdPtr numThreads → Prop
  | keep : QueueOp Q q q
  | push (t : TaskId) (hq : Q t) : QueueOp Q q (q.push (some t)).2
  | pop : QueueOp Q q q.pop.2

/-- A primitive effect: it links and queues only threads of `Q`, changes only the semaphores of
`S`, changes `t_waitqueue` only if `A` holds, and changes the priority of a thread only to its base
priority or while it holds a mutex. -/
inductive Prim (Q : TaskId → Prop) (S : SemId → Prop) (A : Prop) (k : Kernel) : Kernel → Prop
  | irq (i : Irq) : Prim Q S A k { k with irq := i }
  | fault : Prim Q S A k { k with fault := true }
  | thrd (t : TaskId) (f : Thrd → Thrd)
      (hb : (f (k.thrds t)).basePrio = (k.thrds t).basePrio)
      (hf : (f (k.thrds t)).fixedPrio = (k.thrds t).fixedPrio ∨
        (f (k.thrds t)).fixedPrio = (k.thrds t).basePrio ∨ ∃ m, (k.mtxs m).holder = some t) :
      Prim Q S A k (k.setThrd t f)
  | sem (s : SemId) (v : Int) (wq : Queue ThrdPtr numThreads) (hs : S s)
      (hw : QueueOp Q (k.sems s).wq wq) : Prim Q S A k (k.setSem s ⟨v, wq⟩)
  | mtx (m : Nat) (p : ThrdPtr) (wq : Queue ThrdPtr numThreads) (hw : QueueOp Q (k.mtxs m).wq wq)
      (hp : ∀ t, (k.mtxs m).holder = some t →
        p = some t ∨ (k.thrds t).fixedPrio = (k.thrds t).basePrio) :
      Prim Q S A k (k.setMtx m ⟨p, wq⟩)
  | add (t : TaskId) (hq : Q t) :
      Prim Q S A k { k with runQueue := (k.runQueue.osAddTaskMmang t).2 }
  | del (t : TaskId) :
      Prim Q S A k { k with
        runQueue := (k.runQueue.osDelTaskMmang t).2
        fault := k.fault || k.runQueue.current.isNone }
  | sleep (t : TaskId) (n : Nat) (hq : Q t) :
      Prim Q S A k { k with sleepQueue := (k.sleepQueue.push n ⟨some t, n⟩).2 }
  | arm (t : TaskId) (n : Nat) (hq : Q t) (ha : A) :
      Prim Q S A k { k with tWaitqueue := (k.tWaitqueue.push n ⟨some t, n⟩).2 }
  | sleepQueue (q : PQueue SleepDeadline numThreads) (hq : q.handles ≤ k.sleepQueue.handles) :
      Prim Q S A k { k with sleepQueue := q }
  | tWaitqueue (q : PQueue SleepDeadline numThreads) (hq : q.handles ≤ k.tWaitqueue.handles)
      (ha : A) :
      Prim Q S A k { k with tWaitqueue := q }
  | tickCnt (n : Nat) : Prim Q S A k { k with osTickCnt := n }
  | pool (pool : Pool) : Prim Q S A k { k with taskMem := pool }
  | changeTask : Prim Q S A k k.osChangeTask
  | idle : Prim Q S A k { k with runPtr := some .idle }

/-- A sequence of primitive effects. -/
def Prims (Q : TaskId → Prop) (S : SemId → Prop) (A : Prop) : Kernel → Kernel → Prop :=
  Relation.ReflTransGen (Prim Q S A)

namespace Prims

variable {Q : TaskId → Prop} {S : SemId → Prop} {A : Prop} {k k' : Kernel} {t : TaskId} {p : ThrdPtr} {s : SemId}
  {m : Nat}

/-- What every primitive effect keeps, the sequence keeps. -/
theorem keeps {P : Kernel → Prop} (h : Prims Q S A k k') (hP : ∀ k k', P k → Prim Q S A k k' → P k')
    (hk : P k) : P k' := by
  induction h with
  | refl => exact hk
  | tail _ hs ih => exact hP _ _ ih hs

/-- Only the semaphores of `S` change. -/
theorem sems_eq (h : Prims Q S A k k') (hs : ¬ S s) : k'.sems s = k.sems s := by
  refine h.keeps (P := fun k' => k'.sems s = k.sems s) ?_ rfl
  intro k₁ k₂ hk hp
  cases hp with
  | sem s' v wq hs' hw =>
      have hne : s ≠ s' := by
        rintro rfl
        exact hs hs'
      exact (Function.update_of_ne hne _ _).trans hk
  | changeTask => exact hk
  | _ => exact hk

theorem refl : Prims Q S A k k := Relation.ReflTransGen.refl

theorem tail {k₁ : Kernel} (h : Prims Q S A k k') (hs : Prim Q S A k' k₁) : Prims Q S A k k₁ :=
  Relation.ReflTransGen.tail h hs

theorem setIrq (h : Prims Q S A k k') (i : Irq) : Prims Q S A k { k' with irq := i } := h.tail (.irq i)

theorem startCritical (h : Prims Q S A k k') : Prims Q S A k k'.startCritical := h.setIrq _

theorem endCritical (h : Prims Q S A k k') : Prims Q S A k k'.endCritical := h.setIrq _

theorem osTaskCurrent (h : Prims Q S A k k') : Prims Q S A k k'.osTaskCurrent.2 := h.setIrq _

/-- A store that changes no priority. -/
theorem store (h : Prims Q S A k k') (p : ThrdPtr) (f : Thrd → Thrd)
    (hb : ∀ thrd, (f thrd).basePrio = thrd.basePrio)
    (hf : ∀ thrd, (f thrd).fixedPrio = thrd.fixedPrio) : Prims Q S A k (k'.store p f) := by
  cases p with
  | none => exact h.tail .fault
  | some t => exact h.tail (.thrd t f (hb _) (.inl (hf _)))

theorem osAddTaskMmang (h : Prims Q S A k k') (hq : ∀ t, p = some t → Q t) :
    Prims Q S A k (k'.osAddTaskMmang p).2 := by
  cases p with
  | none => exact h
  | some t => exact h.tail (.add t (hq t rfl))

theorem osDelTaskMmang (h : Prims Q S A k k') (p : ThrdPtr) :
    Prims Q S A k (k'.osDelTaskMmang p).2 := by
  cases p with
  | none => exact h
  | some t => exact h.tail (.del t)

theorem osAddTask (h : Prims Q S A k k') (hq : ∀ t, p = some t → Q t) :
    Prims Q S A k (k'.osAddTask p).2 := (h.startCritical.osAddTaskMmang hq).endCritical

theorem osDelTask (h : Prims Q S A k k') (p : ThrdPtr) : Prims Q S A k (k'.osDelTask p).2 :=
  (h.startCritical.osDelTaskMmang p).endCritical

theorem osTaskYield (h : Prims Q S A k k') : Prims Q S A k k'.osTaskYield := h.setIrq _

theorem osTaskPause (h : Prims Q S A k k') (p : ThrdPtr) : Prims Q S A k (k'.osTaskPause p) :=
  (h.startCritical.osDelTask p).osTaskYield.endCritical

theorem osTaskUnpause (h : Prims Q S A k k') (hq : ∀ t, p = some t → Q t) :
    Prims Q S A k (k'.osTaskUnpause p) :=
  ((h.startCritical.store p (fun t => { t with state := .ACTIVE }) (fun _ => rfl)
    fun _ => rfl).osAddTask hq).endCritical

theorem osTaskBlock (h : Prims Q S A k k') (p : ThrdPtr) : Prims Q S A k (k'.osTaskBlock p) :=
  ((h.startCritical.store p (fun t => { t with state := .BLOCKING }) (fun _ => rfl)
    fun _ => rfl).osTaskPause p).endCritical

theorem osTaskTimedwait (h : Prims Q S A k k') (hq : Q t) (ha : A) (n : Nat) :
    Prims Q S A k (k'.osTaskTimedwait (some t) n) := by
  unfold Kernel.osTaskTimedwait
  split
  · exact h.osTaskYield
  · have harm := h.startCritical.tail (.arm t n hq ha)
    exact ((harm.store (some t) (fun t => { t with state := .SLEEPING, workingPrio := t.fixedPrio })
      (fun _ => rfl) fun _ => rfl).endCritical).osTaskPause _

/-! ## Semaphores -/

theorem setSem (h : Prims Q S A k k') (hs : S s) {v : Int} {wq : Queue ThrdPtr numThreads}
    (hw : QueueOp Q (k'.sems s).wq wq) : Prims Q S A k (k'.setSem s ⟨v, wq⟩) :=
  h.tail (.sem s v wq hs hw)

theorem semWait (h : Prims Q S A k k') (hs : S s) (hr : k'.runPtr = some t) (hq : Q t) :
    Prims Q S A k (k'.semWait s) := by
  have hd : Prims Q S A k (k'.startCritical.semDown s) := h.startCritical.setSem hs .keep
  have hc : (k'.startCritical.semDown s).osTaskCurrent.1 = some t := hr
  unfold Kernel.semWait
  dsimp only
  split
  · rw [hc]
    exact ((hd.osTaskCurrent.setSem hs (.push t hq)).osTaskBlock _).endCritical
  · exact hd.endCritical

theorem semPost (h : Prims Q S A k k') (hs : S s)
    (hq : ∀ t, (k'.sems s).wq.pop.1 = some (some t) → Q t) : Prims Q S A k (k'.semPost s) := by
  have hup : Prims Q S A k (k'.startCritical.setSem s
      { k'.startCritical.sems s with val := toInt ((k'.startCritical.sems s).val + 1) }) :=
    h.startCritical.setSem hs .keep
  unfold Kernel.semPost
  dsimp only
  split
  · refine ((hup.setSem hs .pop).osTaskUnpause ?_).endCritical
    intro t ht
    rw [show ((k'.startCritical.setSem s { k'.startCritical.sems s with
      val := toInt ((k'.startCritical.sems s).val + 1) }).sems s).wq = (k'.sems s).wq by
        simp [Kernel.setSem]] at ht
    exact hq t (Option.join_eq_some_iff.1 ht)
  · exact hup.endCritical

theorem semTimedwaitEnter (h : Prims Q S A k k') (hs : S s) (hr : k'.runPtr = some t) (hq : Q t)
    (ha : A) (n : Nat) : Prims Q S A k (k'.semTimedwaitEnter s n).2 := by
  have hd : Prims Q S A k (k'.startCritical.semDown s) := h.startCritical.setSem hs .keep
  have hc : (k'.startCritical.semDown s).osTaskCurrent.1 = some t := hr
  unfold Kernel.semTimedwaitEnter
  dsimp only
  split
  · rw [hc]
    exact ((hd.osTaskCurrent.setSem hs (.push t hq)).osTaskTimedwait hq ha n).endCritical
  · exact hd.endCritical

theorem semTimedwaitLeave (h : Prims Q S A k k') (hs : S s)
    (hq : ∀ t, (k'.sems s).wq.pop.1 = some (some t) → Q t) (t : TaskId) (b : Bool) :
    Prims Q S A k (k'.semTimedwaitLeave s t b).2 := by
  unfold Kernel.semTimedwaitLeave
  dsimp only
  split
  · exact ((h.startCritical.store (some t) (fun t => { t with state := .ACTIVE }) (fun _ => rfl)
      fun _ => rfl).semPost hs hq).endCritical
  · exact h.startCritical.endCritical

theorem semTrywait (h : Prims Q S A k k') (hs : S s) : Prims Q S A k (k'.semTrywait s).2 := by
  unfold Kernel.semTrywait
  dsimp only
  split
  · exact (h.startCritical.setSem hs .keep).endCritical
  · exact h.startCritical.endCritical

/-! ## Mutexes -/

theorem mtxBoost (h : Prims Q S A k k') {u : TaskId} (hh : (k'.mtxs m).holder = some u) :
    Prims Q S A k (k'.mtxBoost u t) := by
  unfold Kernel.mtxBoost
  dsimp only
  split
  · exact h.tail (.thrd u _ rfl (.inr (.inr ⟨m, hh⟩)))
  · exact h

theorem mtxEnqueue (h : Prims Q S A k k') (hq : Q t) : Prims Q S A k (k'.mtxEnqueue m (some t)) :=
  h.tail (.mtx m _ _ (.push t hq) fun _ hu => .inl hu)

/-- A mutex that nobody holds is taken. -/
theorem take (h : Prims Q S A k k') (hn : (k'.mtxs m).holder = none) (p : ThrdPtr) :
    Prims Q S A k (k'.setMtx m { k'.mtxs m with holder := p }) := by
  refine h.tail (.mtx m p _ .keep ?_)
  intro u hu
  rw [hn] at hu
  cases hu

theorem mtxLock (h : Prims Q S A k k') (hr : k'.runPtr = some t) (hq : Q t) :
    Prims Q S A k (k'.mtxLock m) := by
  have hc : k'.startCritical.osTaskCurrent.1 = some t := hr
  unfold Kernel.mtxLock
  simp only [hc]
  split
  · rename_i u _ hu heq
    cases heq
    exact ((h.startCritical.osTaskCurrent.mtxBoost hu).mtxEnqueue hq).osTaskBlock _ |>.endCritical
  · rename_i heq
    cases heq
  · rename_i hn
    exact (h.startCritical.osTaskCurrent.take hn _).endCritical

theorem mtxTimedlockEnter (h : Prims Q S A k k') (hr : k'.runPtr = some t) (hq : Q t) (ha : A)
    (n : Nat) :
    Prims Q S A k (k'.mtxTimedlockEnter m n).2 := by
  have hc : k'.startCritical.osTaskCurrent.1 = some t := hr
  unfold Kernel.mtxTimedlockEnter
  simp only [hc]
  split
  · rename_i u _ hu heq
    cases heq
    exact ((h.startCritical.osTaskCurrent.mtxBoost hu).mtxEnqueue hq).osTaskTimedwait hq ha n
      |>.endCritical
  · rename_i heq
    cases heq
  · rename_i hn
    exact (h.startCritical.osTaskCurrent.take hn _).endCritical

/-- A mutex goes over to a waiter, which gets the priority `n`. -/
theorem handTo (h : Prims Q S A k k') {p : ThrdPtr} {wq : Queue ThrdPtr numThreads}
    (hw : QueueOp Q (k'.mtxs m).wq wq)
    (hp : ∀ t, (k'.mtxs m).holder = some t → (k'.thrds t).fixedPrio = (k'.thrds t).basePrio)
    (hq : ∀ u, p = some u → Q u) (n : Nat) :
    Prims Q S A k (((k'.setMtx m ⟨p, wq⟩).store p fun t =>
      { t with fixedPrio := n, workingPrio := n }).osTaskUnpause p) := by
  have hset := h.tail (.mtx m p wq hw fun t ht => .inr (hp t ht))
  refine osTaskUnpause ?_ hq
  cases p with
  | none => exact hset.tail .fault
  | some u =>
      have hh : ((k'.setMtx m ⟨some u, wq⟩).mtxs m).holder = some u := by simp [Kernel.setMtx]
      exact hset.tail (.thrd u (fun t => { t with fixedPrio := n, workingPrio := n }) rfl
        (.inr (.inr ⟨m, hh⟩)))

theorem mtxRelease (h : Prims Q S A k k') (hh : (k'.mtxs m).holder = some t)
    (hq : ∀ u, (k'.mtxs m).wq.pop.1 = some (some u) → Q u) : Prims Q S A k (k'.mtxRelease m t) := by
  have hres : Prims Q S A k (k'.restore t) := h.tail (.thrd t _ rfl (.inr (.inl rfl)))
  -- the holder has its base priority when it gives the mutex away
  have hbase : ∀ u, ((k'.restore t).mtxs m).holder = some u →
      ((k'.restore t).thrds u).fixedPrio = ((k'.restore t).thrds u).basePrio := by
    intro u hu
    cases hh.symm.trans hu
    simp [restore, setThrd]
  unfold Kernel.mtxRelease
  dsimp only
  split
  · exact hres.handTo .pop hbase (fun u hu => hq u (Option.join_eq_some_iff.1 hu)) _
  · exact hres.tail (.mtx m none _ .keep fun u hu => .inr (hbase u hu))

theorem mtxUnlock (h : Prims Q S A k k')
    (hq : ∀ u, (k'.mtxs m).wq.pop.1 = some (some u) → Q u) : Prims Q S A k (k'.mtxUnlock m).2 := by
  unfold Kernel.mtxUnlock
  dsimp only
  split
  · exact (h.startCritical.osTaskCurrent.startCritical).setIrq _
  · split
    · exact h.startCritical.osTaskCurrent.tail .fault
    · rename_i t ht
      exact (h.startCritical.osTaskCurrent.mtxRelease ht hq).endCritical

theorem mtxTimedlockLeave (h : Prims Q S A k k')
    (hq : ∀ u, (k'.mtxs m).wq.pop.1 = some (some u) → Q u) (t : TaskId) (b : Bool) :
    Prims Q S A k (k'.mtxTimedlockLeave m t b).2 := by
  unfold Kernel.mtxTimedlockLeave
  dsimp only
  split
  · have hu := (h.startCritical.store (some t) (fun t => { t with state := .ACTIVE })
      (fun _ => rfl) fun _ => rfl).mtxUnlock (m := m) hq
    split <;> rename_i he <;> rw [he] at hu
    · exact hu
    · exact hu.endCritical
  · exact h.startCritical.endCritical

/-! ## Sleeping and the end of a thread -/

theorem osTaskSleepEnter (h : Prims Q S A k k') (hq : Q t) (n : Nat) :
    Prims Q S A k (k'.osTaskSleepEnter (some t) n) :=
  ((h.startCritical.tail (.sleep t n hq)).store (some t)
    (fun t => { t with state := .SLEEPING, workingPrio := t.fixedPrio }) (fun _ => rfl)
    fun _ => rfl).endCritical

/-- The loop of `os_task_exit` may link any thread. -/
theorem wakeJoiners (h : Prims Q S A k k') (hQ : ∀ t, Q t) (hs : S (.join t)) (r : Int) (fuel : Nat) :
    Prims Q S A k (wakeJoiners t r fuel k') := by
  induction fuel generalizing k' with
  | zero => exact h.tail .fault
  | succ fuel ih =>
      unfold Kernel.wakeJoiners
      dsimp only
      split
      · refine ih (semPost (h.store _ (fun t => { t with mbox := r }) (fun _ => rfl) fun _ => rfl) hs ?_)
        exact fun u _ => hQ u
      · exact h

theorem osTaskExit (h : Prims Q S A k k') (hQ : ∀ t, Q t) (hr : k'.runPtr = some t)
    (hs : S (.join t)) (r : Int) : Prims Q S A k (k'.osTaskExit r) := by
  have hr' : k'.startCritical.osTaskCurrent.1 = some t := hr
  unfold Kernel.osTaskExit
  simp only [hr']
  exact (h.startCritical.osTaskCurrent.wakeJoiners hQ hs r _).endCritical

theorem osTaskKill (h : Prims Q S A k k') : Prims Q S A k k'.osTaskKill := by
  have hd := h.startCritical.osTaskCurrent.osDelTask k'.startCritical.osTaskCurrent.1
  have hf : ∀ p k'', Prims Q S A k k'' → Prims Q S A k (k''.tfree p) := by
    intro p k'' h
    unfold Kernel.tfree
    dsimp only
    split
    · exact (h.startCritical.tail (.pool _)).endCritical
    · exact h.startCritical.endCritical
  exact (hf _ _ hd).osTaskYield.endCritical

/-! ## The tick -/

theorem osUpdate (h : Prims Q S A k k') (hs : ∀ t, some t ∈ k'.sleepQueue.handles → Q t)
    (hd : ∀ t, some t ∈ k'.tWaitqueue.handles → Q t) (ha : A) : Prims Q S A k k'.osUpdate := by
  have h₁ := wakeSleepers_invariant
    (P := fun k₁ => Prims Q S A k k₁ ∧ (∀ t, some t ∈ k₁.sleepQueue.handles → Q t) ∧
      k₁.tWaitqueue = k'.tWaitqueue)
    (fun k₁ q hq ⟨hk, hs, hd⟩ => ⟨hk.tail (.sleepQueue q hq.le), hq ▸ hs, hd⟩) ?_
    ⟨h.tail (.tickCnt ((k'.osTickCnt + 1) % wordSize)), hs, rfl⟩
    (k'.sleepQueue.count / 2) k'.sleepQueue.count
  · refine (expireDeadlines_invariant
      (P := fun k₁ => Prims Q S A k k₁ ∧ ∀ t, some t ∈ k₁.tWaitqueue.handles → Q t)
      (fun k₁ q hq ⟨hk, hd⟩ => ⟨hk.tail (.tWaitqueue q hq.le ha), hq ▸ hd⟩) ?_
      ⟨h₁.1, fun t ht => hd t (by rw [← h₁.2.2]; exact ht)⟩ _ _).1
    rintro k₁ d q hq ⟨hk, hd⟩
    rw [hq] at hd
    have hadd := hk.osAddTaskMmang (p := d) fun t ht => hd t (by rw [ht]; exact Multiset.mem_cons_self _ _)
    refine ⟨hadd.tail (.tWaitqueue q ?_ ha), fun t ht => hd t (Multiset.mem_cons_of_mem ht)⟩
    have hle : q.handles ≤ k₁.tWaitqueue.handles := hq ▸ Multiset.le_cons_self _ _
    cases d <;> exact hle
  · rintro k₁ d q hq ⟨hk, hs, hd⟩
    rw [hq] at hs
    have hadd := hk.osAddTaskMmang (p := d) fun t ht => hs t (by rw [ht]; exact Multiset.mem_cons_self _ _)
    have hst := hadd.store d (fun t => { t with state := .ACTIVE }) (fun _ => rfl) fun _ => rfl
    have hle : q.handles ≤ k₁.sleepQueue.handles := hq ▸ Multiset.le_cons_self _ _
    refine ⟨hst.tail (.sleepQueue q ?_), fun t ht => hs t (Multiset.mem_cons_of_mem ht), ?_⟩
    · cases d <;> exact hle
    · cases d <;> exact hd

theorem osNext (h : Prims Q S A k k') : Prims Q S A k k'.osNext := by
  unfold Kernel.osNext
  split
  · exact h.tail .fault
  · dsimp only
    split
    · exact (h.tail (.thrd _ (fun thrd => { thrd with workingPrio := thrd.fixedPrio }) rfl
        (.inl rfl))).tail .changeTask
    · have hset := fun t => h.tail (.thrd t (fun thrd =>
        { thrd with workingPrio := (thrd.workingPrio + (wordSize - 1)) % wordSize }) rfl (.inl rfl))
      split
      · exact ((hset _).tail (.thrd _ (fun thrd => { thrd with workingPrio := thrd.fixedPrio }) rfl
          (.inl rfl))).tail .changeTask
      · exact hset _

theorem osSchedule (h : Prims Q S A k k') : Prims Q S A k k'.osSchedule := by
  unfold Kernel.osSchedule
  split
  · exact h.osNext
  · exact h.tail .idle

theorem osFirstTask (h : Prims Q S A k k') : Prims Q S A k k'.osFirstTask := by
  unfold Kernel.osFirstTask
  split
  · exact h.tail .changeTask
  · exact h.tail .idle

end Prims

end Kernel

/-! ## Steps of the running system -/

/-- The semaphore that a call is about. -/
def Call.sem : Call → Option SemId
  | .semWait n | .semTimedwait n _ | .semTrywait n | .semPost n => some (.app n)
  | .thrdJoin other => some (.join other)
  | .thrdCreate _ _ | .thrdYield | .thrdSleep _ | .thrdExit _ | .mtxLock _ | .mtxTimedlock _ _
  | .mtxTrylock _ | .mtxUnlock _ => none

/-- The call may wait with a deadline. -/
def Call.timed : Call → Bool
  | .semTimedwait _ _ | .mtxTimedlock _ _ => true
  | _ => false

namespace Kernel

/-- The threads that a signal or a tick may wake are in `Q`. -/
structure WakesIn (Q : TaskId → Prop) (k : Kernel) : Prop where
  sems : ∀ s u, (k.sems s).wq.pop.1 = some (some u) → Q u
  mtxs : ∀ m u, (k.mtxs m).wq.pop.1 = some (some u) → Q u
  sleepers : ∀ u, some u ∈ k.sleepQueue.handles → Q u
  deadlines : ∀ u, some u ∈ k.tWaitqueue.handles → Q u

theorem wakesIn_true (k : Kernel) : k.WakesIn fun _ => True :=
  ⟨fun _ _ _ => trivial, fun _ _ _ => trivial, fun _ _ => trivial, fun _ _ => trivial⟩

end Kernel

namespace Sys

open Kernel

variable {Q : TaskId → Prop} {S : SemId → Prop} {A : Prop} {s s' : Sys} {t : TaskId} {a : Action}
  {e : Option Event}

/-- All calls but creation, the end of a thread and `mtx_trylock` are sequences of primitive
effects. -/
theorem stepCall_prims (c : Call) (hr : s.k.runPtr = some t) (hq : Q t) (hf : s.k.WakesIn Q)
    (hS : ∀ x ∈ c.sem, S x) (hA : c.timed = true → A) (hc : ∀ r p, c ≠ .thrdCreate r p) (he : ∀ r, c ≠ .thrdExit r)
    (hm : ∀ m, c ≠ .mtxTrylock m) : Prims Q S A s.k (s.stepCall t c).2.k := by
  cases c with
  | thrdCreate r p => exact absurd rfl (hc r p)
  | thrdExit r => exact absurd rfl (he r)
  | mtxTrylock m => exact absurd rfl (hm m)
  | thrdYield =>
      simp only [stepCall, complete_k]
      exact Prims.refl.osTaskYield
  | thrdSleep n =>
      unfold stepCall
      dsimp only
      split
      · rw [complete_k]
        exact Prims.refl.osTaskYield
      · exact Prims.refl.osTaskSleepEnter hq _
  | thrdJoin other => exact Prims.refl.semWait (hS _ rfl) hr hq
  | semWait n =>
      simp only [stepCall, complete_k]
      exact Prims.refl.semWait (hS _ rfl) hr hq
  | semTimedwait n timeout => exact Prims.refl.semTimedwaitEnter (hS _ rfl) hr hq (hA rfl) _
  | semTrywait n =>
      simp only [stepCall, complete_k]
      exact Prims.refl.semTrywait (hS _ rfl)
  | semPost n =>
      simp only [stepCall, complete_k]
      exact Prims.refl.semPost (hS _ rfl) (hf.sems _)
  | mtxLock m =>
      simp only [stepCall, complete_k]
      exact Prims.refl.mtxLock hr hq
  | mtxTimedlock m timeout => exact Prims.refl.mtxTimedlockEnter hr hq (hA rfl) _
  | mtxUnlock m =>
      have hu : Prims Q S A s.k (s.k.mtxUnlock m).2 := Prims.refl.mtxUnlock (hf.mtxs m)
      unfold stepCall
      dsimp only
      split <;> rename_i h <;> rw [h] at hu
      · exact hu
      · rw [complete_k]
        exact hu

/-- So is what a thread does when it goes on with a call. -/
theorem stepResume_prims (hf : s.k.WakesIn Q) (hS : ∀ n, S (.app n))
    (hs : s.stepResume t = some (e, s')) : Prims Q S A s.k s'.k := by
  cases resumes_of_stepResume hs with
  | ret => exact Prims.refl
  | sleepPause =>
      rw [complete_k]
      exact Prims.refl.osTaskPause _
  | semTimedwait n timeout locked =>
      rw [complete_k]
      exact Prims.refl.semTimedwaitLeave (hS n) (hf.sems _) t locked
  | mtxTimedlock m timeout locked =>
      rw [complete_k]
      exact Prims.refl.mtxTimedlockLeave (hf.mtxs m) t locked
  | mtxPanic m timeout locked => exact Prims.refl.mtxTimedlockLeave (hf.mtxs m) t locked
  | join =>
      rw [complete_k]
      exact Prims.refl
  | kill => exact Prims.refl.osTaskKill

theorem osTick_prims (hf : s.k.WakesIn Q) (ha : A) (sp : Addr) : Prims Q S A s.k (osTick s.k sp) := by
  have hsave : Prims Q S A s.k (save s.k sp) := (Prims.refl.setIrq _).tail (.pool _)
  exact ((hsave.osUpdate hf.sleepers hf.deadlines ha).osSchedule).setIrq _

theorem osStart_prims : Prims Q S A s.k (osStart s.k) := Prims.refl.osFirstTask.setIrq _

end Sys

end MsTos
