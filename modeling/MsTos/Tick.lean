-- SUMMARY: What a tick does to the abstract state: whom `os_update` wakes and links, and whom `os_schedule` selects.
import MsTos.Abstraction
import MsTos.Frame

namespace MsTos

namespace Kernel

variable {k k' : Kernel} {t u : TaskId} {woken expired : Multiset ThrdPtr}

/-! ## `os_update` -/

/-- `k'` is `k` after the sleepers of `woken` and the threads of `expired` have been linked. -/
structure Updates (k k' : Kernel) (woken expired : Multiset ThrdPtr) : Prop where
  good : k'.Good
  sleepers : k.sleepQueue.handles = woken + k'.sleepQueue.handles
  deadlines : k.tWaitqueue.handles = expired + k'.tWaitqueue.handles
  linked : ∀ u, k'.runQueue.linked u = true ↔
    k.runQueue.linked u = true ∨ some u ∈ woken ∨ some u ∈ expired
  thrds : ∀ u, k'.thrds u = { k.thrds u with
    state := if some u ∈ woken then .ACTIVE else (k.thrds u).state }
  irq : k'.irq = k.irq
  run : k'.runPtr = k.runPtr
  sems : k'.sems = k.sems
  mtxs : k'.mtxs = k.mtxs
  fault : k'.fault = k.fault

theorem Good.updates_refl (hk : k.Good) : k.Updates k 0 0 where
  good := hk
  sleepers := (zero_add _).symm
  deadlines := (zero_add _).symm
  linked := by simp
  thrds := by simp
  irq := rfl
  run := rfl
  sems := rfl
  mtxs := rfl
  fault := rfl

/-- Linking one more thread. -/
theorem linked_osAdd (hk : k.Good) (u x : TaskId) :
    (k.runQueue.osAddTaskMmang u).2.linked x = true ↔ k.runQueue.linked x = true ∨ x = u := by
  obtain ⟨l, hl⟩ := hk.list
  rw [hl.linked_add, Function.update_apply]
  split
  · rename_i hx
    simp [hx]
  · rename_i hx
    simp [hx]

theorem Updates.wake (h : k.Updates k' woken 0) {d : ThrdPtr}
    {q : PQueue SleepDeadline numThreads} (hq : k'.sleepQueue.handles = d ::ₘ q.handles) :
    k.Updates { (k'.osAddTaskMmang d).2.store d (fun t => { t with state := .ACTIVE }) with
      sleepQueue := q } (d ::ₘ woken) 0 := by
  have hn := h.good.sleepers
  rw [hq, Multiset.mem_cons, not_or] at hn
  cases d with
  | none => exact absurd rfl hn.1
  | some u =>
      obtain ⟨l, hl⟩ := h.good.list
      constructor
      case good =>
          exact ⟨hl.exists_add u, h.good.queue, h.good.joins, h.good.waiters, hn.2,
            h.good.deadlines⟩
      case sleepers =>
          rw [h.sleepers, hq]
          simp
      case deadlines => exact h.deadlines
      case linked =>
          intro x
          rw [show ({ (k'.osAddTaskMmang (some u)).2.store (some u)
            (fun t => { t with state := .ACTIVE }) with sleepQueue := q } : Kernel).runQueue =
              (k'.runQueue.osAddTaskMmang u).2 from rfl, linked_osAdd h.good, h.linked]
          simp [or_comm, or_assoc]
      case thrds =>
          intro x
          show Function.update k'.thrds u { k'.thrds u with state := .ACTIVE } x = _
          rw [Function.update_apply]
          split
          · rename_i hx
            subst hx
            rw [h.thrds]
            simp
          · rename_i hx
            rw [h.thrds]
            simp [hx]
      case irq => exact h.irq
      case run => exact h.run
      case sems => exact h.sems
      case mtxs => exact h.mtxs
      case fault => exact h.fault

theorem Updates.expire (h : k.Updates k' woken expired) {d : ThrdPtr}
    {q : PQueue SleepDeadline numThreads} (hq : k'.tWaitqueue.handles = d ::ₘ q.handles) :
    k.Updates { (k'.osAddTaskMmang d).2 with tWaitqueue := q } woken (d ::ₘ expired) := by
  have hn := h.good.deadlines
  rw [hq, Multiset.mem_cons, not_or] at hn
  cases d with
  | none => exact absurd rfl hn.1
  | some u =>
      obtain ⟨l, hl⟩ := h.good.list
      constructor
      case good =>
          exact ⟨hl.exists_add u, h.good.queue, h.good.joins, h.good.waiters, h.good.sleepers, hn.2⟩
      case sleepers => exact h.sleepers
      case deadlines =>
          rw [h.deadlines, hq]
          simp
      case linked =>
          intro x
          rw [show ({ (k'.osAddTaskMmang (some u)).2 with tWaitqueue := q } : Kernel).runQueue =
            (k'.runQueue.osAddTaskMmang u).2 from rfl, linked_osAdd h.good, h.linked]
          simp only [Multiset.mem_cons, Option.some.injEq]
          tauto
      case thrds => exact h.thrds
      case irq => exact h.irq
      case run => exact h.run
      case sems => exact h.sems
      case mtxs => exact h.mtxs
      case fault => exact h.fault

/-- Rearranging the queues. -/
theorem Updates.congr (h : k.Updates k' woken expired) {q r : PQueue SleepDeadline numThreads}
    (hq : q.handles = k'.sleepQueue.handles) (hr : r.handles = k'.tWaitqueue.handles) :
    k.Updates { k' with sleepQueue := q, tWaitqueue := r } woken expired where
  good := ⟨h.good.list, h.good.queue, h.good.joins, h.good.waiters,
    by rw [hq]; exact h.good.sleepers, by rw [hr]; exact h.good.deadlines⟩
  sleepers := by rw [hq]; exact h.sleepers
  deadlines := by rw [hr]; exact h.deadlines
  linked := h.linked
  thrds := h.thrds
  irq := h.irq
  run := h.run
  sems := h.sems
  mtxs := h.mtxs
  fault := h.fault

theorem Good.wakeSleepers (hk : k.Good) : ∃ woken, k.Updates (wakeSleepers (k.sleepQueue.count / 2)
    k.sleepQueue.count { k with osTickCnt := (k.osTickCnt + 1) % wordSize }) woken 0 := by
  have h₀ : k.Updates { k with osTickCnt := (k.osTickCnt + 1) % wordSize } 0 0 := by
    refine { hk.updates_refl with good := hk.congr rfl rfl rfl rfl rfl }
  exact wakeSleepers_invariant (P := fun k' => ∃ woken, k.Updates k' woken 0)
    (fun k' q hq ⟨woken, h⟩ => ⟨woken, h.congr hq rfl⟩)
    (fun k' d q hq ⟨woken, h⟩ => ⟨d ::ₘ woken, h.wake hq⟩) ⟨0, h₀⟩ _ _

theorem Good.osUpdate (hk : k.Good) :
    ∃ woken expired, k.Updates k.osUpdate woken expired := by
  obtain ⟨woken, h₁⟩ := hk.wakeSleepers
  refine ⟨woken, ?_⟩
  exact expireDeadlines_invariant (P := fun k' => ∃ expired, k.Updates k' woken expired)
    (fun k' q hq ⟨expired, h⟩ => ⟨expired, h.congr rfl hq⟩)
    (fun k' d q hq ⟨expired, h⟩ => ⟨d ::ₘ expired, h.expire hq⟩)
    ⟨0, h₁⟩ _ _

/-! ## `os_schedule` -/

/-- What `os_schedule` selects: nothing behind a dangling cursor, a linked task, the idle task if
no task is linked, or the running task if it is active and has ticks left. -/
structure Selects (k k' : Kernel) : Prop where
  run : k'.runPtr = none ∨ (∃ u, k'.runPtr = some u ∧ k.runQueue.linked u = true) ∨
    k'.runPtr = some .idle ∧ (∀ u, k.runQueue.linked u = false) ∨
    k'.runPtr = k.runPtr ∧ (∃ u, k.runQueue.linked u = true) ∧ ∀ t, k.runPtr = some t →
      (k.thrds t).state ≠ .BLOCKING ∧ (k.thrds t).state ≠ .SLEEPING ∧ (k.thrds t).workingPrio ≠ 1
  fault : k'.fault = false → k.fault = false ∧ k'.runPtr ≠ none
  linked : k'.runQueue.linked = k.runQueue.linked
  list : ∃ l, k'.runQueue.Holds l
  slice : ∀ u, (k.thrds u).workingPrio = 1 → (k.thrds u).fixedPrio = 1 →
    (k'.thrds u).workingPrio = 1

theorem linked_osChangeTask : k.osChangeTask.runQueue.linked = k.runQueue.linked := by
  unfold osChangeTask RunQueue.osChangeTask
  dsimp only
  split <;> rfl

/-- `os_change_task` selects a linked task, or fails. -/
theorem Selects.osChangeTask (hk : ∃ l, k.runQueue.Holds l) (hr : k'.runQueue = k.runQueue)
    (hf : k'.fault = k.fault)
    (hs : ∀ u, (k.thrds u).workingPrio = 1 → (k.thrds u).fixedPrio = 1 →
      (k'.thrds u).workingPrio = 1) : k.Selects k'.osChangeTask := by
  obtain ⟨l, hl⟩ := hk
  have hl' : k'.runQueue.Holds l := hr ▸ hl
  constructor
  case run =>
      rcases hl'.changeTask with hn | ⟨u, hu, he⟩
      · exact .inl hn
      · exact .inr (.inl ⟨u, he, hl.linked_iff.2 hu⟩)
  case fault =>
      intro hf'
      have hf' : (k'.fault || k'.osChangeTask.runPtr.isNone) = false := hf'
      rw [Bool.or_eq_false_iff, hf] at hf'
      refine ⟨hf'.1, ?_⟩
      intro hn
      rw [hn] at hf'
      exact Bool.noConfusion hf'.2
  case linked => rw [linked_osChangeTask, hr]
  case list => exact ⟨l, hl'.changeTask_holds⟩
  case slice => exact hs

theorem Good.osSchedule (hk : k.Good) : k.Selects k.osSchedule := by
  obtain ⟨l, hl⟩ := hk.list
  have hset : ∀ (t : TaskId) (f : Thrd → Thrd) (u : TaskId),
      ((k.setThrd t f).thrds u) = if u = t then f (k.thrds t) else k.thrds u := fun t f u =>
    Function.update_apply _ _ _ _
  unfold Kernel.osSchedule
  split
  · rename_i hpos
    have hne : ∃ u, k.runQueue.linked u = true := by
      rw [hl.count] at hpos
      obtain ⟨u, hu⟩ := List.exists_mem_of_length_pos hpos
      exact ⟨u, hl.linked_iff.2 hu⟩
    unfold osNext
    cases hr : k.runPtr with
    | none =>
        refine ⟨.inl rfl, ?_, rfl, ⟨l, hl⟩, fun _ hw _ => hw⟩
        intro hf
        cases hf
    | some t =>
        dsimp only
        split
        · refine .osChangeTask ⟨l, hl⟩ rfl rfl ?_
          intro u hw hp
          rw [hset]
          split
          · rename_i hu
            rw [← hu]
            exact hp
          · exact hw
        · rename_i hst
          rw [not_or] at hst
          split
          · refine .osChangeTask ⟨l, hl⟩ rfl rfl ?_
            intro u hw hp
            simp only [setThrd, Function.update_apply]
            split
            · rename_i hu
              rw [if_pos trivial, ← hu]
              exact hp
            · exact hw
          · rename_i hz
            rw [hset, if_pos rfl] at hz
            refine ⟨.inr (.inr (.inr ⟨rfl, hne, ?_⟩)), ?_, rfl, ⟨l, hl⟩, ?_⟩
            · intro t' ht'
              rw [hr] at ht'
              cases ht'
              refine ⟨hst.1, hst.2, ?_⟩
              intro hw
              rw [hw] at hz
              exact hz rfl
            · intro hf
              exact ⟨hf, by rw [show (k.setThrd t _).runPtr = _ from hr]; simp⟩
            · intro u hw hp
              rw [hset]
              split
              · rename_i hu
                subst hu
                rw [hw] at hz
                exact absurd rfl hz
              · exact hw
  · rename_i hz
    have hnil : l = [] := by
      rw [hl.count] at hz
      exact List.eq_nil_of_length_eq_zero (Nat.le_zero.1 (not_lt.1 hz))
    subst hnil
    refine ⟨.inr (.inr (.inl ⟨rfl, ?_⟩)), ?_, rfl, ⟨[], hl⟩, fun _ hw _ => hw⟩
    · intro u
      rw [hl.linked_eq]
      simp
    · intro hf
      exact ⟨hf, by simp⟩

/-! ## The tick -/

/-- What is woken and what is selected make a tick of the abstract kernel. -/
theorem Updates.ticks (hu : k.Updates k' woken expired) (hs : k'.Selects k'.osSchedule) (irq : Irq)
    (hi : irq.wdtifg = false) (pc : TaskId → Pc) :
    (k.view pc).Ticks ({ k'.osSchedule with irq }.view pc) woken expired := by
  have hst : ∀ u, (k'.thrds u).state =
      if some u ∈ woken then .ACTIVE else (k.thrds u).state := by
    intro u
    rw [hu.thrds]
  have hwq : ∀ o, k'.osSchedule.wq o = k.wq o := by
    intro o
    cases o with
    | sem n => rw [wq, osSchedule_sems, hu.sems, wq]
    | mtx m => rw [wq, osSchedule_mtxs, hu.mtxs, wq]
  constructor
  case sleepers =>
      show k.sleepQueue.handles = woken + k'.osSchedule.sleepQueue.handles
      rw [osSchedule_sleepQueue, hu.sleepers]
  case deadlines =>
      show k.tWaitqueue.handles = expired + k'.osSchedule.tWaitqueue.handles
      rw [osSchedule_tWaitqueue, hu.deadlines]
  case linked =>
      intro u
      show k'.osSchedule.runQueue.linked u = true ↔ _
      rw [hs.linked]
      exact hu.linked u
  case thrds =>
      intro u
      obtain ⟨w, hw⟩ := k'.osSchedule_thrd u
      refine ⟨w, hw.trans ?_⟩
      rw [hu.thrds]
      rfl
  case slice =>
      intro u hw hp
      apply hs.slice
      · rw [hu.thrds]
        exact hw
      · rw [hu.thrds]
        exact hp
  case run =>
      rcases hs.run with hn | ⟨u, hr, hl⟩ | ⟨hr, hl⟩ | ⟨hr, hl, hk⟩
      · exact .inl hn
      · refine .inr (.inl ⟨u, hr, ?_⟩)
        show k'.osSchedule.runQueue.linked u = true
        rw [hs.linked, hl]
      · refine .inr (.inr (.inl ⟨hr, ?_⟩))
        show ∀ u, k'.osSchedule.runQueue.linked u = false
        rw [hs.linked]
        exact hl
      · refine .inr (.inr (.inr ⟨hr.trans hu.run, ?_, ?_⟩))
        · show ∃ u, k'.osSchedule.runQueue.linked u = true
          rw [hs.linked]
          exact hl
        · intro t ht
          have ht := hk t (hu.run.trans ht)
          refine ⟨?_, ?_, ?_⟩
          · show (k'.osSchedule.thrds t).state ≠ _
            rw [osSchedule_state]
            exact ht.1
          · show (k'.osSchedule.thrds t).state ≠ _
            rw [osSchedule_state]
            exact ht.2.1
          · have hw := ht.2.2
            rw [hu.thrds] at hw
            exact hw
  case fault =>
      intro hf
      have hf := hs.fault hf
      exact ⟨hu.fault.symm.trans hf.1, hf.2⟩
  case ifg => exact hi
  case pc => rfl
  case val =>
      show (fun n => (k'.osSchedule.sems (.app n)).val) = _
      rw [osSchedule_sems, hu.sems]
      rfl
  case holder =>
      show (fun m => (k'.osSchedule.mtxs m).holder) = _
      rw [osSchedule_mtxs, hu.mtxs]
      rfl
  case waiters =>
      funext o
      show (k'.osSchedule.wq o).toList = _
      rw [hwq]
      rfl

theorem Good.osTick (hk : k.Good) (sp : Addr) : (Sys.osTick k sp).Good := by
  have hs : (Sys.save k sp).Good := hk.congr rfl rfl rfl rfl rfl
  obtain ⟨woken, expired, hu⟩ := hs.osUpdate
  have hg : (Sys.save k sp).osUpdate.osSchedule.Good :=
    hu.good.of_list hu.good.osSchedule.list (osSchedule_sems _) (osSchedule_mtxs _)
      (osSchedule_sleepQueue _) (osSchedule_tWaitqueue _)
  exact hg.congr rfl rfl rfl rfl rfl

/-- A tick is one of the abstract kernel, and leaves interrupts enabled. -/
theorem Good.view_osTick (hk : k.Good) {b : Bool} (hi : k.irq = ⟨0, true, b⟩) (sp : Addr)
    (pc : TaskId → Pc) : (Sys.osTick k sp).irq = ⟨0, true, false⟩ ∧ ∃ woken expired,
      (k.view pc).Ticks ((Sys.osTick k sp).view pc) woken expired := by
  have hs : (Sys.save k sp).Good := hk.congr rfl rfl rfl rfl rfl
  obtain ⟨woken, expired, hu⟩ := hs.osUpdate
  have hirq : (Sys.save k sp).osUpdate.osSchedule.irq = ⟨0, false, false⟩ := by
    rw [osSchedule_irq, hu.irq, Sys.save, hi]
  have he : (Sys.osTick k sp).irq = ⟨0, true, false⟩ := by
    show ({ (Sys.save k sp).osUpdate.osSchedule.irq with gie := true } : Irq) = _
    rw [hirq]
  refine ⟨he, woken, expired, ?_⟩
  -- the request that `save` clears does not matter for a tick
  have ht := hu.ticks hu.good.osSchedule (Sys.osTick k sp).irq (by rw [he]) pc
  exact ⟨ht.sleepers, ht.deadlines, ht.linked, ht.thrds, ht.slice, ht.run, ht.fault, ht.ifg, ht.pc,
    ht.val, ht.holder, ht.waiters⟩

/-! ## The first task -/

theorem Good.osStart (hk : k.Good) {b : Bool} (hi : k.irq = ⟨0, true, b⟩) (pc : TaskId → Pc) :
    (Sys.osStart k).Good ∧ (Sys.osStart k).irq = ⟨0, true, b⟩ ∧
    ∃ p f, (Sys.osStart k).view pc = { k.view pc with run := p, fault := f } ∧
      (p = none ∧ f = true ∨ p = some .idle ∧ (∀ u, k.runQueue.linked u = false) ∧ f = k.fault ∨
        (∃ u, p = some u ∧ k.runQueue.linked u = true) ∧ f = k.fault) := by
  obtain ⟨l, hl⟩ := hk.list
  have he : ({ k.irq with gie := true } : Irq) = k.irq := by rw [hi]
  unfold Sys.osStart osFirstTask
  split
  · have hg : k.osChangeTask.Good := hk.of_list ⟨l, hl.changeTask_holds⟩ rfl rfl rfl rfl
    refine ⟨hg.congr rfl rfl rfl rfl rfl, he.trans hi, k.osChangeTask.runPtr, k.osChangeTask.fault,
      ?_, ?_⟩
    · ext1 <;> try rfl
      exact linked_osChangeTask
    · have hf : k.osChangeTask.fault = (k.fault || k.osChangeTask.runPtr.isNone) := rfl
      rw [hf]
      rcases hl.changeTask with hn | ⟨u, hu, hr⟩
      · have hn : k.osChangeTask.runPtr = none := hn
        exact .inl ⟨hn, by rw [hn]; simp⟩
      · have hr : k.osChangeTask.runPtr = some u := hr
        exact .inr (.inr ⟨⟨u, hr, hl.linked_iff.2 hu⟩, by rw [hr]; simp⟩)
  · rename_i hz
    rw [hl.count] at hz
    have hnil : l = [] := List.eq_nil_of_length_eq_zero (Nat.le_zero.1 (not_lt.1 hz))
    subst hnil
    refine ⟨hk.congr rfl rfl rfl rfl rfl, he.trans hi, some .idle, k.fault, rfl,
      .inr (.inl ⟨rfl, ?_, rfl⟩)⟩
    intro u
    rw [hl.linked_eq]
    simp

end Kernel

end MsTos
