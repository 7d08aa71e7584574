-- SUMMARY: The running system refines the abstract kernel: every step of the one is a step of the other.
import MsTos.Tick
import MsTos.ViewFrame

namespace MsTos

namespace Kernel

variable {k : Kernel} {t u h : TaskId} {n m : Nat} {pc : TaskId → Pc} {o : Obj}

/-- Outside every critical section. -/
def Enabled (k : Kernel) : Prop := ∃ b, k.irq = ⟨0, true, b⟩

theorem Open.enabled (h : k.Open) : k.Enabled := ⟨false, h⟩

/-- No tick is requested. -/
theorem Open.ifg (h : k.Open) : k.irq.wdtifg = false := by
  rw [show k.irq = _ from h]

theorem Enabled.open (h : k.Enabled) (hp : k.irq.pending = false) : k.Open := by
  obtain ⟨b, hb⟩ := h
  rw [hb] at hp
  rw [Open, hb]
  cases b with
  | false => rfl
  | true => cases hp

/-! ## Wait queues -/

theorem view_enqueue_sem (hk : k.Good) :
    ((k.semDown (.app n)).semEnqueue (.app n) (some t)).view pc =
      (k.view pc).enqueue (.sem n) t := by
  rw [view_semEnqueue hk.semDown, view_semDown]
  rfl

theorem Good.mtxBoost (hk : k.Good) : (k.mtxBoost h t).Good := by
  rw [mtxBoost_eq]
  exact hk.congr rfl rfl rfl rfl rfl

theorem view_enqueue_mtx (hk : k.Good) (hh : (k.mtxs m).holder = some h) :
    ((k.mtxBoost h t).mtxEnqueue m (some t)).view pc = (k.view pc).enqueue (.mtx m) t := by
  have hb : boost k.thrds h t = (k.view pc).boosted (.mtx m) t := by
    have hh' : (k.view pc).holder m = some h := hh
    unfold View.boosted boost
    dsimp only
    rw [hh']
    rfl
  rw [view_mtxEnqueue hk.mtxBoost, mtxBoost_eq, hb]
  rfl

/-- `k'` is `k` after `t` has joined the wait queue of `o`. -/
structure Enqueued (k : Kernel) (o : Obj) (t : TaskId) (k' : Kernel) : Prop where
  good : k'.Good
  irq : k'.irq = k.irq
  run : k'.runPtr = k.runPtr
  view : ∀ pc, k'.view pc = (k.view pc).enqueue o t

theorem Good.enqueued_sem (hk : k.Good) (n : Nat) (t : TaskId) :
    k.Enqueued (.sem n) t ((k.semDown (.app n)).semEnqueue (.app n) (some t)) :=
  ⟨hk.semDown.semEnqueue, rfl, rfl, fun _ => view_enqueue_sem hk⟩

theorem Good.enqueued_mtx (hk : k.Good) (hh : (k.mtxs m).holder = some h) (t : TaskId) :
    k.Enqueued (.mtx m) t ((k.mtxBoost h t).mtxEnqueue m (some t)) := by
  refine ⟨hk.mtxBoost.mtxEnqueue, ?_, ?_, fun _ => view_enqueue_mtx hk hh⟩
  · rw [mtxBoost_eq]
    rfl
  · rw [mtxBoost_eq]
    rfl

/-! ## Signals -/

theorem Good.semDequeue (hk : k.Good) : (k.semDequeue (.app n)).Good := by
  have hp := (hk.queue (.sem n)).pop
  refine hk.setSem hp ?_
  have hn := hk.waiters (.sem n)
  cases hw : (k.wq (.sem n)).toList with
  | nil =>
      rw [wq] at hw hn
      rw [Queue.pop_of_nil hw]
      exact hn
  | cons p l =>
      rw [hw] at hn
      rw [wq] at hw
      rw [(Queue.toList_pop hw).2]
      exact fun hm => hn (List.mem_cons_of_mem _ hm)

theorem view_semDequeue {p : ThrdPtr} {l : List ThrdPtr} (hw : (k.wq (.sem n)).toList = p :: l) :
    (k.semDequeue (.app n)).view pc =
      { k.view pc with waiters := Function.update (k.view pc).waiters (.sem n) l } := by
  have hv : Function.update (k.view pc).val n (k.sems (.app n)).val = (k.view pc).val :=
    Function.update_eq_self _ _
  have hl : (k.sems (.app n)).wq.pop.2.toList = l := (Queue.toList_pop hw).2
  rw [semDequeue, view_setSem]
  dsimp only
  rw [hl, hv]

/-- `sem_post` by the thread `t`, in its own critical section or in that of `sem_timedwait`. -/
theorem Good.semPost (hk : k.Good) (hi : k.Open ∨ k.Closed) (n : Nat) (t : TaskId)
    (pc : TaskId → Pc) : (k.semPost (.app n)).Good ∧ (k.semPost (.app n)).irq = k.irq ∧
      (k.view pc).Signals (.sem n) t ((k.semPost (.app n)).view pc) := by
  rcases Classical.em (0 < toInt ((k.sems (.app n)).val + 1)) with hv | hv
  · rw [semPost_of_pos hi hv]
    refine ⟨hk.semUp, rfl, ?_⟩
    rw [view_semUp]
    exact .free hv
  · cases hw : (k.wq (.sem n)).toList with
    | nil =>
        rw [semPost_of_none hi hv (Queue.pop_of_nil hw)]
        refine ⟨hk.semUp.congr rfl rfl rfl rfl rfl, rfl, ?_⟩
        rw [show Kernel.view { k.semUp (.app n) with fault := true } pc =
          { (k.semUp (.app n)).view pc with fault := true } from rfl, view_semUp]
        exact View.Signals.crash (o := .sem n) hv hw
    | cons p l =>
        cases p with
        | none => exact absurd (hw ▸ List.mem_cons_self) (hk.waiters (.sem n))
        | some u =>
            have hp := Queue.toList_pop hw
            rw [semPost_of_some hi hv hp.1]
            refine ⟨hk.semUp.semDequeue.wake u, rfl, ?_⟩
            have hu : ((k.semUp (.app n)).wq (.sem n)).toList = some u :: l := by
              rw [Kernel.semUp, wq_setSem, Function.update_self]
              exact hw
            rw [hk.semUp.semDequeue.view_wake u, view_semDequeue hu, view_semUp]
            exact View.Signals.grant (o := .sem n) hv hw

/-- `mtx_unlock` by the holder of the mutex. -/
theorem Good.mtxUnlock (hk : k.Good) (hi : k.Open) (hr : k.runPtr = some t)
    (hh : (k.mtxs m).holder = some t) (pc : TaskId → Pc) :
    ∃ k', k.mtxUnlock m = (some 0, k') ∧ k'.Good ∧ k'.irq = k.irq ∧
      (k.view pc).Signals (.mtx m) t (k'.view pc) := by
  have hres : (k.restore t).Good := hk.congr rfl rfl rfl rfl rfl
  have hc : (k.wq (.mtx m)).toList.length = (k.mtxs m).wq.count := Queue.length_toList _
  cases hw : (k.wq (.mtx m)).toList with
  | nil =>
      rw [hw] at hc
      refine ⟨_, mtxUnlock_of_no_waiter hi hr hh hc.symm, ?_, rfl, ?_⟩
      · exact hres.setMtx (hk.queue (.mtx m)) (hk.waiters (.mtx m))
      · have hq : Function.update (k.view pc).waiters (.mtx m) (k.mtxs m).wq.toList =
          (k.view pc).waiters := Function.update_eq_self _ _
        have hf := View.Signals.free (v := k.view pc) (o := .mtx m) (t := t) hw
        rw [view_setMtx]
        dsimp only
        rw [show (Kernel.restore k t).view pc =
          { k.view pc with thrds := (k.view pc).restored (.mtx m) t } from rfl]
        dsimp only
        rw [hq]
        exact hf
  | cons p l =>
      cases p with
      | none => exact absurd (hw ▸ List.mem_cons_self) (hk.waiters (.mtx m))
      | some u =>
          rw [hw] at hc
          have hp := Queue.toList_pop hw
          have hpop := (hk.queue (.mtx m)).pop
          have hn : none ∉ (k.wq (.mtx m)).pop.2.toList := by
            rw [hp.2]
            intro hm
            exact hk.waiters (.mtx m) (hw ▸ List.mem_cons_of_mem _ hm)
          have hset : ((k.restore t).setMtx m
              { holder := some u, wq := (k.mtxs m).wq.pop.2 }).Good := hres.setMtx hpop hn
          -- the mutex has been handed over, and `u` has its priority
          obtain ⟨k', hk'⟩ : ∃ k', k' = ((k.restore t).setMtx m
              { holder := some u, wq := (k.mtxs m).wq.pop.2 }).setThrd u fun thrd =>
                { thrd with
                  fixedPrio := (k.thrds t).fixedPrio
                  workingPrio := (k.thrds t).fixedPrio } := ⟨_, rfl⟩
          have hg' : k'.Good := by
            rw [hk']
            exact hset.congr rfl rfl rfl rfl rfl
          have hu := mtxUnlock_of_waiter hi hr hh (by rw [← hc]; exact Nat.succ_pos _) hp.1
          rw [show (k.restore t).handOver m u (k.thrds t).fixedPrio = k'.wake u by rw [hk']; rfl] at hu
          refine ⟨_, hu, hg'.wake u, by rw [hk']; rfl, ?_⟩
          have hg := View.Signals.grant (v := k.view pc) (o := .mtx m) (t := t) (u := u) (l := l)
            (by rw [View.Vacant, show (k.view pc).waiters (.mtx m) = _ from hw]; simp) hw
          have hv : (k'.wake u).view pc = (k.view pc).grant (.mtx m) t u l := by
            have hl : (k.mtxs m).wq.pop.2.toList = l := hp.2
            have hs : ((k.restore t).setMtx m
              { holder := some u, wq := (k.mtxs m).wq.pop.2 }).view pc = { k.view pc with
                holder := Function.update (k.view pc).holder m (some u)
                waiters := Function.update (k.view pc).waiters (.mtx m) l
                thrds := (k.view pc).restored (.mtx m) t } := by
              rw [view_setMtx, hl]
              rfl
            rw [hg'.view_wake u, hk', view_setThrd, hs]
            ext1 <;> try rfl
            simp only [View.setThrd, Function.update_self, Function.update_idem]
            rfl
          rw [hv]
          exact hg

/-- `t` becomes the holder of a mutex. -/
theorem view_setHolder (t : TaskId) :
    (k.setMtx m { k.mtxs m with holder := some t }).view pc = (k.view pc).take (.mtx m) t := by
  have hw : Function.update (k.view pc).waiters (.mtx m) (k.mtxs m).wq.toList =
    (k.view pc).waiters := Function.update_eq_self _ _
  rw [view_setMtx]
  dsimp only
  rw [hw]
  rfl

theorem Good.setHolder (hk : k.Good) (m : Nat) (t : TaskId) :
    (k.setMtx m { k.mtxs m with holder := some t }).Good :=
  hk.setMtx (hk.queue (.mtx m)) (hk.waiters (.mtx m))

end Kernel

namespace Sys

variable {s s' : Sys} {t u : TaskId} {o : Obj} {a : Action} {e : Option Event} {c : Call} {r : Int}
  {n : Nat} {k' : Kernel}

def view (s : Sys) : View := s.k.view s.pc

/-- The outcome `r` of the step `a` is one of the abstract kernel. -/
structure Refines (s : Sys) (a : Action) (r : Option Event × Sys) : Prop where
  good : r.2.k.Good
  enabled : r.2.k.Enabled
  step : s.view.Step a r.1 r.2.view

/-! ## The end of a call -/

theorem complete_of_open (ho : s.k.Open) : s.complete t c r = (some ⟨t, c, r⟩, s.setPc t .user) := by
  have hp : s.k.irq.pending = false := by
    rw [show s.k.irq = _ from ho]
    rfl
  unfold complete
  rw [hp, if_neg Bool.false_ne_true]

theorem complete_of_requested (hq : s.k.irq = ⟨0, true, true⟩) :
    s.complete t c r = (none, s.setPc t (.ret c r)) := by
  have hp : s.k.irq.pending = true := by
    rw [hq]
    rfl
  unfold complete
  rw [hp, if_pos rfl]

/-- A call that leaves interrupts as they are returns at once. -/
theorem complete_returns (ho : s.k.Open) (hu : s.pc t = .user) :
    s.complete t c r = (some ⟨t, c, r⟩, s) := by
  have hpc : s.setPc t .user = s := by
    rw [setPc, ← hu, Function.update_eq_self]
  rw [complete_of_open ho, hpc]

theorem Refines.returns (s' : Sys) (hg : s'.k.Good) (ho : s'.k.Open) (hu : s'.pc t = .user)
    (hs : s.view.Step (.call c) (some ⟨t, c, r⟩) s'.view) :
    s.Refines (.call c) (s'.complete t c r) := by
  rw [complete_returns ho hu]
  exact ⟨hg, ho.enabled, hs⟩

/-! ## Waiting -/

/-- `t` joins a wait queue and leaves the run queue. -/
theorem Refines.block (hq : s.k.Enqueued o t k') (ho : s.k.Open) (hr : s.k.runPtr = some t)
    (hu : s.pc t = .user) (hb : s.view.Busy o) :
    s.Refines (.call o.waitCall) (complete { s with k := k'.block t } t o.waitCall 0) := by
  have hb' : (k'.setThrd t fun t => { t with state := .BLOCKING }).Good :=
    hq.good.congr rfl rfl rfl rfl rfl
  have hirq : (k'.block t).irq = ⟨0, true, true⟩ := by
    show k'.irq.request = _
    rw [hq.irq, show s.k.irq = _ from ho]
    rfl
  have hl := hb'.leaves t s.pc
  rw [show (k'.setThrd t fun t => { t with state := .BLOCKING }).view s.pc =
    (k'.view s.pc).block t from rfl, hq.view] at hl
  have hs := View.Step.block (v := s.view) o hr hu hb hl
  rw [complete_of_requested hirq]
  exact ⟨hb'.leave t, ⟨true, hirq⟩, hs⟩

theorem Refines.timedZero (hq : s.k.Enqueued o t k') (ho : s.k.Open) (hr : s.k.runPtr = some t)
    (hu : s.pc t = .user) (hb : s.view.Busy o) (n : SizeT) (hn : n = 0) :
    s.Refines (.call (o.timedCall n))
      (none, setPc { s with k := k'.osTaskYield } t (o.timedPc n false)) := by
  have hirq : k'.irq.request = ⟨0, true, true⟩ := by
    rw [hq.irq, show s.k.irq = _ from ho]
    rfl
  refine ⟨hq.good.congr rfl rfl rfl rfl rfl, ⟨true, hirq⟩, ?_⟩
  have hv : k'.osTaskYield.view s.pc =
      { s.view.enqueue o t with ifg := true } := by
    rw [view, ← hq.view]
    rfl
  have hs := View.Step.timedZero (v := s.view) o n hn hr hu hb
  rw [← hv] at hs
  exact hs

theorem Refines.timedBlock (hq : s.k.Enqueued o t k') (ho : s.k.Open) (hr : s.k.runPtr = some t)
    (hu : s.pc t = .user) (hb : s.view.Busy o) (n : SizeT) (hn : n ≠ 0) :
    s.Refines (.call (o.timedCall n))
      (none, setPc { s with k := ((k'.arm t n).sleep t).leave t } t (o.timedPc n false)) := by
  have ha : ((k'.arm t n).sleep t).Good := (hq.good.arm t n).congr rfl rfl rfl rfl rfl
  have hirq : (((k'.arm t n).sleep t).leave t).irq = ⟨0, true, true⟩ := by
    show k'.irq.request = _
    rw [hq.irq, show s.k.irq = _ from ho]
    rfl
  have hl := ha.leaves t s.pc
  rw [show ((k'.arm t n).sleep t).view s.pc = ((k'.arm t n).view s.pc).sleep t from rfl,
    Kernel.view_arm, hq.view] at hl
  have hs := View.Step.timedBlock (v := s.view) o n hn hr hu hb hl
  exact ⟨ha.leave t, ⟨true, hirq⟩, hs⟩

/-! ## Calls -/

/-- The mutex that a thread waits for with a deadline. -/
def timedMtx : Pc → Option Nat
  | .mtxTimedlock m _ false => some m
  | _ => none

/-- The pool's next slot is a whole one that no thread owns and that is not linked. -/
def FreeSlot (s : Sys) : Prop :=
  ∃ i, itemAt s.k.taskMem.freeList = some i ∧ s.pc (.slot i) = .none ∧
    s.k.runQueue.linked (.slot i) = false

instance (s : Sys) : Decidable s.FreeSlot := inferInstanceAs (Decidable (∃ _, _))

/-- Creating a thread in a slot of the pool. -/
theorem FreeSlot.thrdCreate (hf : s.FreeSlot) (hk : s.k.Good) {b : Bool}
    (hi : s.k.irq = ⟨0, true, b⟩) {routine priority : SizeT} (hr : routine.val ≠ 0)
    (hp : priority.val ≠ 0) : ∃ i, s.pc (.slot i) = .none ∧
      s.k.thrdCreate routine priority = ((0, some (.slot i)), s.k.created i priority) ∧
      (s.k.created i priority).Good ∧ (s.k.created i priority).irq = s.k.irq ∧
      (s.k.created i priority).view (Function.update s.pc (.slot i) .user) =
        s.view.start i priority := by
  obtain ⟨i, hi', hpc, hl⟩ := hf
  obtain ⟨l, hlist⟩ := hk.list
  have hne : s.k.taskMem.freeList ≠ 0 := by
    intro h0
    rw [h0] at hi'
    cases hi'
  have ha : (poolAlloc s.k.taskMem).1 = s.k.taskMem.freeList := by
    unfold poolAlloc slistRemoveHead
    rw [if_neg hne]
  have hn : TaskId.slot i ∉ l := by
    rw [← hlist.linked_iff, hl]
    simp
  have hq : { s.k.runQueue with
      links := listElementInit s.k.runQueue.links (.elem (.slot i)) } = s.k.runQueue := by
    rw [hlist.list.elementInit (mt RunQueue.elem_mem.1 hn)]
  have hadd := hlist.add hn
  refine ⟨i, hpc, Kernel.thrdCreate_eq hi hr hp (by rw [ha]; exact hne) (by rw [ha]; exact hi') ?_, ?_, rfl,
    ?_⟩
  · rw [hq]
    exact hadd.1
  · refine ⟨⟨l ++ [.slot i], ?_⟩, hk.queue, ?_, hk.waiters, hk.sleepers, hk.deadlines⟩
    · show (RunQueue.osAddTaskMmang { s.k.runQueue with
        links := listElementInit s.k.runQueue.links (.elem (.slot i)) } (.slot i)).2.Holds _
      rw [hq]
      exact hadd.2
    · intro u
      show Function.update s.k.sems (.join (.slot i)) (Sem.init 0) (.join u) = _
      rw [Function.update_apply]
      split
      · rfl
      · exact hk.joins u
  · have hlinked : (RunQueue.osAddTaskMmang { s.k.runQueue with
        links := listElementInit s.k.runQueue.links (.elem (.slot i)) } (.slot i)).2.linked =
          Function.update s.k.runQueue.linked (.slot i) true := by
      rw [hq]
      exact hlist.linked_add _
    ext1 <;> first | rfl | exact hlinked

theorem busy_of_held {m : Nat} {h : TaskId} (hh : (s.k.mtxs m).holder = some h) :
    s.view.Busy (.mtx m) := by
  rw [View.Busy, show s.view.holder m = _ from hh]
  simp

theorem not_busy_of_free {m : Nat} (hh : (s.k.mtxs m).holder = none) : ¬ s.view.Busy (.mtx m) := by
  rw [View.Busy, show s.view.holder m = _ from hh]
  simp

section

variable (hk : s.k.Good) (ho : s.k.Open) (hr : s.k.runPtr = some t) (hu : s.pc t = .user)

include hk ho hr hu

theorem refines_thrdCreate (routine priority : SizeT)
    (hf : creates (.call (.thrdCreate routine priority)) = true → s.FreeSlot) :
    s.Refines (.call (.thrdCreate routine priority))
      (s.stepCall t (.thrdCreate routine priority)) := by
  cases hc : creates (.call (.thrdCreate routine priority)) with
  | true =>
      have hne : routine.val ≠ 0 ∧ priority.val ≠ 0 := by simpa [creates] using hc
      obtain ⟨i, hpc, he, hg, hirq, hv⟩ := (hf hc).thrdCreate hk ho hne.1 hne.2
      have hti : t ≠ .slot i := by
        rintro rfl
        rw [hu] at hpc
        cases hpc
      simp only [stepCall, he]
      refine Refines.returns (spawn { s with k := s.k.created i priority } (some (.slot i)))
        hg (hirq.trans ho) ?_ ?_
      · exact (Function.update_of_ne hti _ _).trans hu
      · have hs := View.Step.thrdCreate (v := s.view) routine priority i hr hu hpc
        rw [← hv] at hs
        exact hs
  | false =>
      have hz : routine.val = 0 ∨ priority.val = 0 := by
        simpa [creates, or_iff_not_imp_left] using hc
      simp only [stepCall, Kernel.thrdCreate_of_zero hz]
      exact Refines.returns s hk ho hu (.fails _ hr hu (by simp))

/-- `thrd_yield`, and `thrd_sleep` for no tick. -/
theorem refines_yields (c : Call) (hc : c = .thrdYield ∨ ∃ n, c = .thrdSleep n) :
    s.Refines (.call c) (complete { s with k := s.k.osTaskYield } t c 0) := by
  have hreq : s.k.irq.request = ⟨0, true, true⟩ := by
    rw [show s.k.irq = _ from ho]
    rfl
  rw [complete_of_requested hreq]
  exact ⟨hk.congr rfl rfl rfl rfl rfl, ⟨true, hreq⟩, View.Step.yields (v := s.view) c hr hu hc⟩

theorem refines_thrdSleep (n : SizeT) :
    s.Refines (.call (.thrdSleep n)) (s.stepCall t (.thrdSleep n)) := by
  simp only [stepCall]
  split
  · exact refines_yields hk ho hr hu _ (.inr ⟨n, rfl⟩)
  · rename_i hn
    have hne : n ≠ 0 := by
      rintro rfl
      exact hn rfl
    have hs := View.Step.sleep (v := s.view) n hne hr hu
    rw [Kernel.osTaskSleepEnter_eq ho]
    refine ⟨?_, ⟨false, ho⟩, ?_⟩
    · refine ⟨hk.list, hk.queue, hk.joins, hk.waiters, ?_, hk.deadlines⟩
      show none ∉ (s.k.sleepQueue.push n ⟨some t, n⟩).2.handles
      rw [Kernel.handles_push_some]
      exact Kernel.none_not_mem_pushed hk.sleepers t
    · unfold view at hs
      rw [show View.pushed t (s.k.view s.pc).sleepers = _ from
        (Kernel.handles_push_some s.k.sleepQueue t n).symm] at hs
      exact hs

theorem refines_thrdExit (r : Int) :
    s.Refines (.call (.thrdExit r)) (s.stepCall t (.thrdExit r)) := by
  have hc : (s.k.sems (.join t)).wq.count = 0 := by
    rw [hk.joins]
    rfl
  simp only [stepCall, Kernel.osTaskExit_eq ho hr hc]
  exact ⟨hk, ho.enabled, View.Step.exit (v := s.view) r hr hu⟩

theorem refines_semWait (n : Nat) : s.Refines (.call (.semWait n)) (s.stepCall t (.semWait n)) := by
  simp only [stepCall]
  rcases Classical.em (s.k.SemBlocks (.app n)) with hb | hb
  · rw [Kernel.semWait_of_blocks ho hr hb]
    exact Refines.block (hk.enqueued_sem n t) ho hr hu hb
  · rw [Kernel.semWait_of_not_blocks ho hb]
    refine Refines.returns ({ s with k := s.k.semDown (.app n) }) hk.semDown ho hu ?_
    have hs := View.Step.take (v := s.view) (.sem n) hr hu hb
    unfold view
    rw [Kernel.view_semDown]
    exact hs

theorem refines_semTimedwait (n : Nat) (timeout : SizeT) :
    s.Refines (.call (.semTimedwait n timeout)) (s.stepCall t (.semTimedwait n timeout)) := by
  simp only [stepCall]
  rcases Classical.em (s.k.SemBlocks (.app n)) with hb | hb
  · rw [Kernel.semTimedwaitEnter_of_blocks ho hr hb]
    dsimp only
    split
    · rename_i hn
      exact Refines.timedZero (hk.enqueued_sem n t) ho hr hu hb timeout (Fin.ext hn)
    · rename_i hn
      refine Refines.timedBlock (hk.enqueued_sem n t) ho hr hu hb timeout ?_
      rintro rfl
      exact hn rfl
  · rw [Kernel.semTimedwaitEnter_of_not_blocks ho hb]
    have hs := View.Step.timedTake (v := s.view) (.sem n) timeout hr hu hb
    refine ⟨hk.semDown, ⟨false, ho⟩, ?_⟩
    show s.view.Step _ _ (((s.k.semDown (.app n)).view s.pc).setPc t (.semTimedwait n timeout true))
    rw [Kernel.view_semDown]
    exact hs

theorem refines_semTrywait (n : Nat) :
    s.Refines (.call (.semTrywait n)) (s.stepCall t (.semTrywait n)) := by
  simp only [stepCall]
  rcases Classical.em (0 < (s.k.sems (.app n)).val) with hv | hv
  · rw [Kernel.semTrywait_of_pos ho hv]
    refine Refines.returns ({ s with k := s.k.semDown (.app n) }) hk.semDown ho hu ?_
    have hs := View.Step.tryTake (v := s.view) n hr hu hv
    unfold view
    rw [Kernel.view_semDown]
    exact hs
  · rw [Kernel.semTrywait_of_not_pos ho hv]
    exact Refines.returns s hk ho hu (.fails _ hr hu (by simp))

theorem refines_semPost (n : Nat) : s.Refines (.call (.semPost n)) (s.stepCall t (.semPost n)) := by
  obtain ⟨hg, hirq, hs⟩ := hk.semPost (.inl ho) n t s.pc
  simp only [stepCall]
  exact Refines.returns ({ s with k := s.k.semPost (.app n) }) hg (hirq.trans ho) hu
    (View.Step.signal (v := s.view) (.sem n) hr hu (by simp) hs)

theorem refines_mtxLock (m : Nat) : s.Refines (.call (.mtxLock m)) (s.stepCall t (.mtxLock m)) := by
  simp only [stepCall]
  cases hh : (s.k.mtxs m).holder with
  | some h =>
      rw [Kernel.mtxLock_of_held ho hr hh]
      exact Refines.block (o := .mtx m) (hk.enqueued_mtx hh t) ho hr hu (busy_of_held hh)
  | none =>
      rw [Kernel.mtxLock_of_free ho hr hh]
      have hs := View.Step.take (v := s.view) (.mtx m) hr hu (not_busy_of_free hh)
      rw [view, ← Kernel.view_setHolder] at hs
      exact Refines.returns ⟨_, s.pc⟩ (hk.setHolder m t) ho hu hs

theorem refines_mtxTimedlock (m : Nat) (timeout : SizeT) :
    s.Refines (.call (.mtxTimedlock m timeout)) (s.stepCall t (.mtxTimedlock m timeout)) := by
  simp only [stepCall]
  cases hh : (s.k.mtxs m).holder with
  | some h =>
      rw [Kernel.mtxTimedlockEnter_of_held ho hr hh]
      dsimp only
      split
      · rename_i hn
        exact Refines.timedZero (o := .mtx m) (hk.enqueued_mtx hh t) ho hr hu (busy_of_held hh)
          timeout (Fin.ext hn)
      · rename_i hn
        refine Refines.timedBlock (o := .mtx m) (hk.enqueued_mtx hh t) ho hr hu (busy_of_held hh)
          timeout ?_
        rintro rfl
        exact hn rfl
  | none =>
      rw [Kernel.mtxTimedlockEnter_of_free ho hr hh]
      have hs := View.Step.timedTake (v := s.view) (.mtx m) timeout hr hu (not_busy_of_free hh)
      rw [view, ← Kernel.view_setHolder] at hs
      exact ⟨hk.setHolder m t, ⟨false, ho⟩, hs⟩

theorem refines_mtxTrylock (m : Nat) :
    s.Refines (.call (.mtxTrylock m)) (s.stepCall t (.mtxTrylock m)) := by
  simp only [stepCall]
  cases hh : (s.k.mtxs m).holder with
  | some h =>
      rw [Kernel.mtxTrylock_of_held ho hr (by rw [hh]; simp)]
      have hs := View.Step.trySteal (v := s.view) m hr hu (busy_of_held hh)
      rw [view, ← Kernel.view_setHolder] at hs
      exact Refines.returns ⟨_, s.pc⟩ (hk.setHolder m t) ho hu hs
  | none =>
      rw [Kernel.mtxTrylock_of_free ho hh]
      exact Refines.returns s hk ho hu (.fails _ hr hu (by simp))

theorem refines_mtxUnlock (m : Nat) (hh : (s.k.mtxs m).holder = some t) :
    s.Refines (.call (.mtxUnlock m)) (s.stepCall t (.mtxUnlock m)) := by
  obtain ⟨k', he, hg, hirq, hs⟩ := hk.mtxUnlock ho hr hh s.pc
  simp only [stepCall, he]
  refine Refines.returns ⟨k', s.pc⟩ hg (hirq.trans ho) hu
    (View.Step.signal (v := s.view) (.mtx m) hr hu ?_ hs)
  intro m' hm
  cases hm
  exact hh

end

/-- What the abstract kernel leaves out: `thrd_join`, and `mtx_unlock` by a thread that does not
hold the mutex, which ends in `os_panic` and never leaves its critical section. -/
def CallOk (s : Sys) (t : TaskId) : Call → Prop
  | .thrdJoin _ => False
  | .mtxUnlock m => (s.k.mtxs m).holder = some t
  | _ => True

/-- Every call of the running thread is one of the abstract kernel. -/
theorem stepCall_refines (hk : s.k.Good) (ho : s.k.Open) (hr : s.k.runPtr = some t)
    (hu : s.pc t = .user) (c : Call) (hc : s.CallOk t c)
    (hf : creates (.call c) = true → s.FreeSlot) : s.Refines (.call c) (s.stepCall t c) := by
  cases c with
  | thrdCreate routine priority => exact refines_thrdCreate hk ho hr hu routine priority hf
  | thrdYield => exact refines_yields hk ho hr hu .thrdYield (.inl rfl)
  | thrdSleep n => exact refines_thrdSleep hk ho hr hu n
  | thrdExit r => exact refines_thrdExit hk ho hr hu r
  | thrdJoin other => cases hc
  | semWait n => exact refines_semWait hk ho hr hu n
  | semTimedwait n timeout => exact refines_semTimedwait hk ho hr hu n timeout
  | semTrywait n => exact refines_semTrywait hk ho hr hu n
  | semPost n => exact refines_semPost hk ho hr hu n
  | mtxLock m => exact refines_mtxLock hk ho hr hu m
  | mtxTimedlock m timeout => exact refines_mtxTimedlock hk ho hr hu m timeout
  | mtxTrylock m => exact refines_mtxTrylock hk ho hr hu m
  | mtxUnlock m => exact refines_mtxUnlock hk ho hr hu m hc

/-! ## Going on with a call -/

section

variable (hk : s.k.Good) (ho : s.k.Open) (hr : s.k.runPtr = some t)

include hk ho hr

theorem refines_ret (c : Call) (r : Int) (hu : s.pc t = .ret c r) :
    s.Refines .resume (some ⟨t, c, r⟩, s.setPc t .user) :=
  ⟨hk, ho.enabled, View.Step.ret (v := s.view) c r hr (ho.ifg) hu⟩

theorem refines_sleepPause (n : SizeT) (hu : s.pc t = .sleepPause n) :
    s.Refines .resume
      (complete { s with k := s.k.osTaskPause (some t) } t (.thrdSleep n) 0) := by
  have hirq : (s.k.leave t).irq = ⟨0, true, true⟩ := by
    show s.k.irq.request = _
    rw [show s.k.irq = _ from ho]
    rfl
  rw [Kernel.osTaskPause_eq ho, complete_of_requested hirq]
  exact ⟨hk.leave t, ⟨true, hirq⟩,
    View.Step.pause (v := s.view) n hr ho.ifg hu (hk.leaves t s.pc)⟩

theorem refines_semTimedwait_leave (n : Nat) (timeout : SizeT) (locked : Bool)
    (hu : s.pc t = .semTimedwait n timeout locked) :
    s.Refines .resume
      (complete { s with k := (s.k.semTimedwaitLeave (.app n) t locked).2 } t (.semTimedwait n timeout)
        (s.k.semTimedwaitLeave (.app n) t locked).1) := by
  rcases Classical.em (locked = false ∧ (s.k.thrds t).state = .SLEEPING) with ⟨rfl, hst⟩ | hn
  · have hk' : (s.k.startCritical.setThrd t fun t => { t with state := .ACTIVE }).Good :=
      hk.congr rfl rfl rfl rfl rfl
    have hirq : s.k.startCritical.irq = ⟨1, false, false⟩ := by
      show s.k.irq.start = _
      rw [show s.k.irq = _ from ho]
      rfl
    obtain ⟨hg, hi, hs⟩ := hk'.semPost (.inr hirq) n t s.pc
    have hi' : Kernel.Open (Kernel.semPost (s.k.startCritical.setThrd t fun t =>
        { t with state := .ACTIVE }) (.app n)).endCritical := by
      show Irq.stop (Kernel.semPost _ _).irq = _
      rw [hi, show (Kernel.setThrd s.k.startCritical t _).irq = _ from hirq]
      rfl
    rw [Kernel.semTimedwaitLeave_of_sleeping hst, complete_of_open hi']
    have hv := View.Step.rollback (v := s.view) n timeout hr ho.ifg hu hst hs
    rw [← Kernel.view_endCritical] at hv
    exact ⟨hg.congr rfl rfl rfl rfl rfl, hi'.enabled, hv⟩
  · have hl := s.k.semTimedwaitLeave_of_not_sleeping (s := .app n) (t := t) ho
      fun hl hst => hn ⟨hl, hst⟩
    rw [hl, complete_of_open ho]
    refine ⟨hk, ho.enabled, View.Step.timedLeave (v := s.view) (.sem n) timeout locked hr ho.ifg hu
      ?_ (by simp)⟩
    intro _ _ hl hst
    exact hn ⟨hl, hst⟩

theorem refines_mtxTimedlock_leave (m : Nat) (timeout : SizeT) (locked : Bool)
    (hu : s.pc t = .mtxTimedlock m timeout locked)
    (hh : locked = false → (s.k.mtxs m).holder = some t) :
    s.Refines .resume
      (complete { s with k := s.k } t (.mtxTimedlock m timeout) 0) := by
  rw [complete_of_open ho]
  refine ⟨hk, ho.enabled, View.Step.timedLeave (v := s.view) (.mtx m) timeout locked hr ho.ifg hu
    (by simp) ?_⟩
  intro m' hm hl
  cases hm
  exact hh hl

theorem refines_kill {i : Fin numThreads} (ht : t = .slot i) (hu : s.pc t = .kill) :
    s.Refines .resume (none, setPc { s with k := s.k.osTaskKill } t .none) := by
  subst ht
  have hirq : (s.k.leave (.slot i)).irq = ⟨0, true, true⟩ := by
    show s.k.irq.request = _
    rw [show s.k.irq = _ from ho]
    rfl
  rw [Kernel.osTaskKill_eq ho hr]
  exact ⟨(hk.leave _).congr rfl rfl rfl rfl rfl, ⟨true, hirq⟩,
    View.Step.kill (v := s.view) hr ho.ifg hu (hk.leaves _ s.pc)⟩

end

/-- The state of the running system is in order, and nobody joins a thread. -/
structure Sound (s : Sys) : Prop where
  good : s.k.Good
  enabled : s.k.Enabled
  idle : s.pc .idle = .none
  join : ∀ t u, s.pc t ≠ .join u

/-- `mtx_timedlock` returns to the holder of the mutex only: any other thread would panic. -/
def ResumeOk (s : Sys) (t : TaskId) : Prop :=
  ∀ m ∈ timedMtx (s.pc t), (s.k.mtxs m).holder = some t

theorem stepResume_refines (hs : s.Sound) (ho : s.k.Open) (hr : s.k.runPtr = some t)
    (hm : s.ResumeOk t) {e : Option Event} (h : s.stepResume t = some (e, s')) :
    s.Refines .resume (e, s') := by
  have hk := hs.good
  have hheld : ∀ {m : Nat} {timeout : SizeT} {locked : Bool},
      s.pc t = .mtxTimedlock m timeout locked → locked = false → (s.k.mtxs m).holder = some t := by
    rintro m timeout locked hu rfl
    exact hm m (by rw [hu]; rfl)
  cases resumes_of_stepResume h with
  | ret c r hu => exact refines_ret hk ho hr c r hu
  | sleepPause n hu => exact refines_sleepPause hk ho hr n hu
  | semTimedwait n timeout locked hu =>
      exact refines_semTimedwait_leave hk ho hr n timeout locked hu
  | mtxTimedlock m timeout locked hu hl =>
      rw [Kernel.mtxTimedlockLeave_of_holder ho (hheld hu)] at hl ⊢
      cases hl
      exact refines_mtxTimedlock_leave hk ho hr m timeout locked hu (hheld hu)
  | mtxPanic m timeout locked hu hl =>
      rw [Kernel.mtxTimedlockLeave_of_holder ho (hheld hu)] at hl
      cases hl
  | join u hu => exact absurd hu (hs.join t u)
  | kill hu =>
      cases t with
      | idle =>
          rw [hs.idle] at hu
          cases hu
      | slot i => exact refines_kill hk ho hr rfl hu

/-! ## Steps -/

instance (s : Sys) (t : TaskId) : DecidablePred (s.CallOk t)
  | .thrdJoin _ => inferInstanceAs (Decidable False)
  | .mtxUnlock _ => inferInstanceAs (Decidable (_ = _))
  | .thrdCreate _ _ | .thrdYield | .thrdSleep _ | .thrdExit _ | .semWait _ | .semTimedwait _ _
  | .semTrywait _ | .semPost _ | .mtxLock _ | .mtxTimedlock _ _ | .mtxTrylock _ =>
      inferInstanceAs (Decidable True)

instance (s : Sys) (t : TaskId) : Decidable (s.ResumeOk t) :=
  inferInstanceAs (Decidable (∀ _ ∈ _, _))

/-- What the running thread `t` does is part of the abstract kernel. -/
def RunOk (s : Sys) (t : TaskId) : Action → Prop
  | .call c => s.CallOk t c
  | .resume => s.ResumeOk t
  | _ => True

instance (s : Sys) (t : TaskId) : DecidablePred (s.RunOk t)
  | .call _ => inferInstanceAs (Decidable (CallOk _ _ _))
  | .resume => inferInstanceAs (Decidable (ResumeOk _ _))
  | .create _ _ | .launch | .tick _ => inferInstanceAs (Decidable True)

/-- The steps that are part of the abstract kernel: every thread is created in a free slot, nobody
joins a thread, and only the holder of a mutex unlocks it or returns from `mtx_timedlock`. -/
def Regular (s : Sys) (a : Action) : Prop :=
  (creates a = true → s.FreeSlot) ∧ ∀ t, s.k.runPtr = some t → s.RunOk t a

instance (s : Sys) (a : Action) : Decidable (s.Regular a) := inferInstanceAs (Decidable (_ ∧ _))

/-- Before the kernel is launched, `main` creates threads. -/
theorem create_refines (hs : s.Sound) (hr : s.k.runPtr = none) (routine priority : SizeT)
    (hf : creates (.create routine priority) = true → s.FreeSlot) :
    s.Refines (.create routine priority)
      (none, spawn { s with k := (s.k.thrdCreate routine priority).2 }
        (s.k.thrdCreate routine priority).1.2) := by
  obtain ⟨b, hi⟩ := hs.enabled
  cases hc : creates (.create routine priority) with
  | true =>
      have hne : routine.val ≠ 0 ∧ priority.val ≠ 0 := by simpa [creates] using hc
      obtain ⟨i, hpc, he, hg, hirq, hv⟩ := (hf hc).thrdCreate hs.good hi hne.1 hne.2
      have hs := View.Step.create (v := s.view) routine priority i hr hpc
      rw [← hv] at hs
      rw [he]
      exact ⟨hg, ⟨b, hirq.trans hi⟩, hs⟩
  | false =>
      have hz : routine.val = 0 ∨ priority.val = 0 := by
        simpa [creates, or_iff_not_imp_left] using hc
      rw [Kernel.thrdCreate_of_zero hz]
      exact ⟨hs.good, hs.enabled, View.Step.createFails (v := s.view) routine priority hr⟩

theorem step_refines_view (hs : s.Sound) (hg : s.Regular a) (h : s.step a = some (e, s')) :
    s.Refines a (e, s') := by
  cases (steps_of_step h).2 with
  | create routine priority hr => exact create_refines hs hr routine priority hg.1
  | launch hr =>
      obtain ⟨b, hi⟩ := hs.enabled
      obtain ⟨hg', hi', p, f, hv, hp⟩ := hs.good.osStart hi s.pc
      have hst := View.Step.launch (v := s.view) hr hp
      unfold view at hst
      rw [← hv] at hst
      exact ⟨hg', ⟨b, hi'⟩, hst⟩
  | call c hr hpc hp =>
      exact stepCall_refines hs.good (hs.enabled.open hp) hr hpc c (hg.2 _ hr) hg.1
  | resume hr hp hres =>
      exact stepResume_refines hs (hs.enabled.open hp) hr (hg.2 _ hr) hres
  | tick sp hr hgie =>
      obtain ⟨b, hi⟩ := hs.enabled
      obtain ⟨hi', woken, expired, ht⟩ := hs.good.view_osTick hi sp s.pc
      exact ⟨hs.good.osTick sp, ⟨false, hi'⟩, .tick sp (by rw [show s.view.run = _ from hr]; simp) ht⟩

/-- Every step of the system is one of the abstract kernel, and keeps the state in order. -/
theorem step_refines (hs : s.Sound) (hg : s.Regular a) (h : s.step a = some (e, s')) :
    s'.Sound ∧ s.view.Step a e s'.view := by
  have hr := step_refines_view hs hg h
  refine ⟨⟨hr.good, hr.enabled, ?_, ?_⟩, hr.step⟩
  · rcases hr.step.pc_eq with hpc | ⟨u, p, hpc, hu, -⟩
    · exact (congrFun hpc .idle).trans hs.idle
    · refine (congrFun hpc .idle).trans ?_
      rw [Function.update_of_ne]
      · exact hs.idle
      · rintro rfl
        rcases hu with ⟨-, hu⟩ | ⟨i, hi, -⟩
        · exact hu hs.idle
        · cases hi
  · intro t w
    rcases hr.step.pc_eq with hpc | ⟨u, p, hpc, -, hp⟩
    · rw [show s'.pc t = s.pc t from congrFun hpc t]
      exact hs.join t w
    · rw [show s'.pc t = _ from congrFun hpc t, Function.update_apply]
      split
      · exact hp w
      · exact hs.join t w

/-! ## Runs -/

theorem boot_sound (vals : Nat → Nat) : (boot vals).Sound where
  good :=
    { list := ⟨[], isList_init fun _ => rfl, rfl⟩
      queue := by
        intro o
        cases o with
        | sem n => exact Queue.ok_init (by decide)
        | mtx m => exact Queue.ok_init (by decide)
      joins := by
        intro t
        show Function.update (ram vals).sems (.join .idle) (Sem.init 0) (.join t) = _
        rw [Function.update_apply]
        split <;> rfl
      waiters := by
        intro o
        cases o with
        | sem n => exact List.not_mem_nil
        | mtx m => exact List.not_mem_nil
      sleepers := Multiset.notMem_zero _
      deadlines := Multiset.notMem_zero _ }
  enabled := ⟨false, rfl⟩
  idle := rfl
  join := by simp [boot]

/-- The rule for runs: a property that holds of the abstract kernel at first, and that its steps
keep, holds along every run of regular steps. -/
theorem run_view {vals : Nat → Nat} {G : Sys → Action → Prop} {h : List (Option Event)}
    {P : List (Option Event) → View → Prop} (hr : (system vals).Run G h s)
    (hG : ∀ s a, G s a → s.Regular a) (hinit : P [] (boot vals).view)
    (hstep : ∀ (h : List (Option Event)) (s s' : Sys) (a : Action) (e : Option Event),
      s.Sound → s.k.fault = false → P h s.view → G s a → s.step a = some (e, s') →
        s.view.Step a e s'.view → P (e :: h) s'.view) :
    s.Sound ∧ P h s.view := by
  refine hr.invariant (P := fun h s => s.Sound ∧ P h s.view) ?_ ?_
  · rintro s rfl
    exact ⟨boot_sound vals, hinit⟩
  · rintro h s a e s' ⟨hs, hP⟩ hg hst
    obtain ⟨hs', hv⟩ := step_refines hs (hG s a hg) hst
    exact ⟨hs', hstep h s s' a e hs (steps_of_step hst).1 hP hg hst hv⟩

end Sys

end MsTos
