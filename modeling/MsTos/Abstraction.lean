-- SUMMARY: The abstract view of the running kernel, and what the kernel's common effects do to it.
import MsTos.Deadlines
import MsTos.Effects
import MsTos.QueueList
import MsTos.View

namespace MsTos

/-! ## The view -/

namespace Kernel

/-- The wait queue of an object. -/
def wq (k : Kernel) : Obj → Queue ThrdPtr numThreads
  | .sem n => (k.sems (.app n)).wq
  | .mtx m => (k.mtxs m).wq

/-- The kernel and its threads without the representation of the queues. -/
def view (k : Kernel) (pc : TaskId → Pc) : View where
  fault := k.fault
  run := k.runPtr
  ifg := k.irq.wdtifg
  linked := k.runQueue.linked
  thrds := k.thrds
  pc := pc
  val n := (k.sems (.app n)).val
  holder m := (k.mtxs m).holder
  waiters o := (k.wq o).toList
  sleepers := k.sleepQueue.handles
  deadlines := k.tWaitqueue.handles

/-- The queues of the kernel are well formed, hold no `NULL` handle, and nobody joins a thread. -/
structure Good (k : Kernel) : Prop where
  list : ∃ l, k.runQueue.Holds l
  queue : ∀ o, (k.wq o).Ok
  joins : ∀ t, k.sems (.join t) = Sem.init 0
  waiters : ∀ o, none ∉ (k.wq o).toList
  sleepers : none ∉ k.sleepQueue.handles
  deadlines : none ∉ k.tWaitqueue.handles

variable {k k' : Kernel} {t u : TaskId} {n m : Nat} {pc : TaskId → Pc}

theorem view_setThrd (f : Thrd → Thrd) : (k.setThrd t f).view pc =
    { k.view pc with thrds := (k.view pc).setThrd t f } := rfl

theorem view_endCritical : k.endCritical.view pc = k.view pc := by
  have hi : k.irq.stop.wdtifg = k.irq.wdtifg := by
    unfold Irq.stop
    split
    · dsimp only
      split <;> rfl
    · rfl
  show { k.view pc with ifg := k.irq.stop.wdtifg } = _
  rw [hi]
  rfl

/-- What only rearranges the run queue keeps the queues in order. -/
theorem Good.of_list (h : k.Good) (hl : ∃ l, k'.runQueue.Holds l) (hs : k'.sems = k.sems)
    (hm : k'.mtxs = k.mtxs) (hq : k'.sleepQueue = k.sleepQueue)
    (ht : k'.tWaitqueue = k.tWaitqueue) : k'.Good := by
  have hw : ∀ o, k'.wq o = k.wq o := by
    intro o
    cases o with
    | sem n => exact congrArg (fun f => (f (.app n)).wq) hs
    | mtx m => exact congrArg (fun f => (f m).wq) hm
  constructor
  case list => exact hl
  case queue => intro o; rw [hw]; exact h.queue o
  case joins => rw [hs]; exact h.joins
  case waiters => intro o; rw [hw]; exact h.waiters o
  case sleepers => rw [hq]; exact h.sleepers
  case deadlines => rw [ht]; exact h.deadlines

/-- What does not touch a queue keeps them in order. -/
theorem Good.congr (h : k.Good) (hr : k'.runQueue = k.runQueue) (hs : k'.sems = k.sems)
    (hm : k'.mtxs = k.mtxs) (hq : k'.sleepQueue = k.sleepQueue)
    (ht : k'.tWaitqueue = k.tWaitqueue) : k'.Good :=
  h.of_list (hr ▸ h.list) hs hm hq ht

/-! ## Semaphores and mutexes -/

theorem val_setSem (sem : Sem) : (fun i => ((k.setSem (.app n) sem).sems (.app i)).val) =
    Function.update (fun i => (k.sems (.app i)).val) n sem.val := by
  funext i
  simp only [setSem, Function.update_apply, SemId.app.injEq]
  split <;> rfl

theorem wq_setSem (sem : Sem) : (k.setSem (.app n) sem).wq = Function.update k.wq (.sem n) sem.wq := by
  funext o
  cases o with
  | sem i =>
      simp only [wq, setSem, Function.update_apply, SemId.app.injEq, Obj.sem.injEq]
      split <;> rfl
  | mtx m => rfl

theorem holder_setMtx (mtx : Mtx) : (fun i => ((k.setMtx m mtx).mtxs i).holder) =
    Function.update (fun i => (k.mtxs i).holder) m mtx.holder := by
  funext i
  simp only [setMtx, Function.update_apply]
  split <;> rfl

theorem wq_setMtx (mtx : Mtx) : (k.setMtx m mtx).wq = Function.update k.wq (.mtx m) mtx.wq := by
  funext o
  cases o with
  | sem i => rfl
  | mtx m =>
      simp only [wq, setMtx, Function.update_apply, Obj.mtx.injEq]
      split <;> rfl

theorem waiters_update (o : Obj) (q : Queue ThrdPtr numThreads) :
    (fun p => (Function.update k.wq o q p).toList) =
      Function.update (fun p => (k.wq p).toList) o q.toList := by
  funext p
  rw [Function.update_apply, Function.update_apply]
  split <;> rfl

theorem view_setSem (sem : Sem) : (k.setSem (.app n) sem).view pc =
    { k.view pc with
      val := Function.update (k.view pc).val n sem.val
      waiters := Function.update (k.view pc).waiters (.sem n) sem.wq.toList } := by
  unfold view
  rw [val_setSem, wq_setSem, waiters_update]
  rfl

theorem view_setMtx (mtx : Mtx) : (k.setMtx m mtx).view pc =
    { k.view pc with
      holder := Function.update (k.view pc).holder m mtx.holder
      waiters := Function.update (k.view pc).waiters (.mtx m) mtx.wq.toList } := by
  unfold view
  rw [holder_setMtx, wq_setMtx, waiters_update]
  rfl

/-- A semaphore or a mutex keeps the kernel's queues in order if its own is. -/
theorem Good.setWq (h : k.Good) {o : Obj} {q : Queue ThrdPtr numThreads}
    (hw : k'.wq = Function.update k.wq o q) (hq : q.Ok) (hn : none ∉ q.toList)
    (hr : k'.runQueue = k.runQueue) (hj : ∀ t, k'.sems (.join t) = k.sems (.join t))
    (hs : k'.sleepQueue = k.sleepQueue) (ht : k'.tWaitqueue = k.tWaitqueue) : k'.Good := by
  constructor
  case list => rw [hr]; exact h.list
  case queue =>
      intro p
      rw [hw, Function.update_apply]
      split
      · exact hq
      · exact h.queue p
  case joins => intro t; rw [hj]; exact h.joins t
  case waiters =>
      intro p
      rw [hw, Function.update_apply]
      split
      · exact hn
      · exact h.waiters p
  case sleepers => rw [hs]; exact h.sleepers
  case deadlines => rw [ht]; exact h.deadlines

theorem Good.setSem (h : k.Good) {sem : Sem} (hq : sem.wq.Ok) (hn : none ∉ sem.wq.toList) :
    (k.setSem (.app n) sem).Good :=
  h.setWq (wq_setSem sem) hq hn rfl
    (fun t => Function.update_of_ne (show SemId.join t ≠ .app n by simp) sem k.sems) rfl rfl

theorem Good.setMtx (h : k.Good) {mtx : Mtx} (hq : mtx.wq.Ok) (hn : none ∉ mtx.wq.toList) :
    (k.setMtx m mtx).Good :=
  h.setWq (wq_setMtx mtx) hq hn rfl (fun _ => rfl) rfl rfl

theorem view_semDown : (k.semDown (.app n)).view pc =
    { k.view pc with val := (k.view pc).downVal (.sem n) } := by
  have hw : Function.update (k.view pc).waiters (.sem n) (k.sems (.app n)).wq.toList =
    (k.view pc).waiters := Function.update_eq_self _ _
  rw [semDown, view_setSem]
  dsimp only
  rw [hw]
  rfl

theorem view_semUp : (k.semUp (.app n)).view pc =
    { k.view pc with val := (k.view pc).upVal (.sem n) } := by
  have hw : Function.update (k.view pc).waiters (.sem n) (k.sems (.app n)).wq.toList =
    (k.view pc).waiters := Function.update_eq_self _ _
  rw [semUp, view_setSem]
  dsimp only
  rw [hw]
  rfl

theorem Good.semDown (h : k.Good) : (k.semDown (.app n)).Good :=
  h.setSem (h.queue (.sem n)) (h.waiters (.sem n))

theorem Good.semUp (h : k.Good) : (k.semUp (.app n)).Good :=
  h.setSem (h.queue (.sem n)) (h.waiters (.sem n))

theorem view_semEnqueue (h : k.Good) : (k.semEnqueue (.app n) (some t)).view pc =
    { k.view pc with waiters := (k.view pc).queued (.sem n) t } := by
  have hl := ((h.queue (.sem n)).push_list (some t)).2
  have hv : Function.update (k.view pc).val n (k.sems (.app n)).val = (k.view pc).val :=
    Function.update_eq_self _ _
  rw [semEnqueue, view_setSem]
  dsimp only
  rw [show ((k.sems (.app n)).wq.push (some t)).2.toList = _ from hl, hv]
  rfl

theorem view_mtxEnqueue (h : k.Good) : (k.mtxEnqueue m (some t)).view pc =
    { k.view pc with waiters := (k.view pc).queued (.mtx m) t } := by
  have hl := ((h.queue (.mtx m)).push_list (some t)).2
  have hh : Function.update (k.view pc).holder m (k.mtxs m).holder = (k.view pc).holder :=
    Function.update_eq_self _ _
  rw [mtxEnqueue, view_setMtx]
  dsimp only
  rw [show ((k.mtxs m).wq.push (some t)).2.toList = _ from hl, hh]
  rfl

/-- Handles that are pushed to a wait queue are not `NULL`. -/
theorem Good.push (h : k.Good) (o : Obj) (t : TaskId) :
    ((k.wq o).push (some t)).2.Ok ∧ none ∉ ((k.wq o).push (some t)).2.toList := by
  have hl := (h.queue o).push_list (some t)
  have hn := h.waiters o
  refine ⟨hl.1, ?_⟩
  rw [hl.2]
  split
  · simp [hn]
  · exact hn

theorem Good.semEnqueue (h : k.Good) : (k.semEnqueue (.app n) (some t)).Good :=
  h.setSem (h.push (.sem n) t).1 (h.push (.sem n) t).2

theorem Good.mtxEnqueue (h : k.Good) : (k.mtxEnqueue m (some t)).Good :=
  h.setMtx (h.push (.mtx m) t).1 (h.push (.mtx m) t).2

/-! ## The run queue -/

theorem Good.leave (h : k.Good) (t : TaskId) : (k.leave t).Good := by
  obtain ⟨l, hl⟩ := h.list
  exact ⟨hl.exists_del t, h.queue, h.joins, h.waiters, h.sleepers, h.deadlines⟩

theorem Good.leaves (h : k.Good) (t : TaskId) (pc : TaskId → Pc) :
    (k.view pc).Leaves t ((k.leave t).view pc) := by
  obtain ⟨l, hl⟩ := h.list
  have hv : (k.leave t).view pc =
      { k.view pc with
        fault := k.fault || k.runQueue.current.isNone
        linked := (k.runQueue.osDelTaskMmang t).2.linked
        ifg := true } := rfl
  rw [hv]
  cases hc : k.runQueue.current with
  | none =>
      have hq : (k.runQueue.osDelTaskMmang t).2 = k.runQueue := by
        simp [RunQueue.osDelTaskMmang, hc, listIteratorPreviousCircular]
      rw [hq, Option.isNone_none, Bool.or_true]
      exact .fault
  | some c =>
      rw [hl.linked_del t (by simp [hc]), Option.isNone_some, Bool.or_false]
      exact .unlink

theorem Good.wake (h : k.Good) (u : TaskId) : (k.wake u).Good := by
  obtain ⟨l, hl⟩ := h.list
  exact ⟨hl.exists_add u, h.queue, h.joins, h.waiters, h.sleepers, h.deadlines⟩

theorem Good.view_wake (h : k.Good) (u : TaskId) : (k.wake u).view pc =
    { k.view pc with
      thrds := (k.view pc).setThrd u fun t => { t with state := .ACTIVE }
      linked := Function.update (k.view pc).linked u true } := by
  obtain ⟨l, hl⟩ := h.list
  exact congrArg (fun f => { k.view pc with
    thrds := (k.view pc).setThrd u fun t => { t with state := .ACTIVE }
    linked := f }) (hl.linked_add u)

/-! ## Sleepers and deadlines -/

/-- Pushing the handle of `t` to a queue of deadlines. -/
theorem handles_push_some (pq : PQueue SleepDeadline numThreads) (t : TaskId) (n : Nat) :
    (pq.push n ⟨some t, n⟩).2.handles = View.pushed t pq.handles := by
  unfold View.pushed
  rw [PQueue.card_handles]
  split
  · rename_i h
    exact PQueue.handles_push h n _
  · rename_i h
    rw [PQueue.push, if_pos (not_lt.1 h)]

theorem none_not_mem_pushed {ds : Multiset ThrdPtr} (h : none ∉ ds) (t : TaskId) :
    none ∉ View.pushed t ds := by
  intro hm
  rcases View.mem_pushed hm with hm | hm
  · cases hm
  · exact h hm

theorem view_arm : (k.arm t n).view pc =
    { k.view pc with deadlines := View.pushed t (k.view pc).deadlines } := by
  rw [view, arm]
  dsimp only
  rw [handles_push_some]
  rfl

theorem Good.arm (h : k.Good) (t : TaskId) (n : Nat) : (k.arm t n).Good where
  list := h.list
  queue := h.queue
  joins := h.joins
  waiters := h.waiters
  sleepers := h.sleepers
  deadlines := by
    rw [Kernel.arm, handles_push_some]
    exact none_not_mem_pushed h.deadlines t

end Kernel

end MsTos
