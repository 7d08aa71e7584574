-- SUMMARY: Priority boosts over whole runs: a thread that holds no mutex is back at the priority it was created with.
import MsTos.PoolSafety
import MsTos.Primitives
import MsTos.QueueList

namespace MsTos

/-! ## Structures that hold threads of a set -/

section Within

variable {Q Q' : TaskId → Prop} {q q' : Queue ThrdPtr numThreads} {t u : TaskId}

/-- A wait queue in order, with handles of threads in `Q` only. -/
structure Queue.Within (Q : TaskId → Prop) (q : Queue ThrdPtr numThreads) : Prop where
  ok : q.Ok
  mem : ∀ u, some u ∈ q.toList → Q u

theorem Queue.Within.pop_fst (h : q.Within Q) (hp : q.pop.1 = some (some u)) : Q u := by
  cases hl : q.toList with
  | nil =>
      rw [Queue.pop_of_nil hl] at hp
      cases hp
  | cons p l =>
      rw [(Queue.toList_pop hl).1] at hp
      cases hp
      apply h.mem
      rw [hl]
      exact List.mem_cons_self

theorem Kernel.QueueOp.within (h : Kernel.QueueOp Q q q') (hq : q.Within Q) : q'.Within Q := by
  cases h with
  | keep => exact hq
  | push t ht =>
      obtain ⟨hok, hl⟩ := hq.ok.push_list (some t)
      refine ⟨hok, ?_⟩
      intro u hu
      rw [hl] at hu
      split at hu
      · rcases List.mem_append.1 hu with hu | hu
        · exact hq.mem u hu
        · cases List.mem_singleton.1 hu
          exact ht
      · exact hq.mem u hu
  | pop =>
      refine ⟨hq.ok.pop, ?_⟩
      intro u hu
      apply hq.mem
      cases hl : q.toList with
      | nil => rwa [Queue.pop_of_nil hl, hl] at hu
      | cons p l =>
          rw [(Queue.toList_pop hl).2] at hu
          exact List.mem_cons_of_mem _ hu

namespace RunQueue

variable {r : RunQueue}

/-- The run queue is a list of threads in `Q`. -/
def Within (Q : TaskId → Prop) (r : RunQueue) : Prop := ∃ l, r.Holds l ∧ ∀ t ∈ l, Q t

theorem Within.add (h : r.Within Q) (ht : Q t) : (r.osAddTaskMmang t).2.Within Q := by
  obtain ⟨l, hl, hQ⟩ := h
  rcases Classical.em (t ∈ l) with hm | hm
  · rw [hl.add_of_mem hm]
    exact ⟨l, hl, hQ⟩
  · refine ⟨l ++ [t], (hl.add hm).2, ?_⟩
    intro u hu
    rcases List.mem_append.1 hu with hu | hu
    · exact hQ u hu
    · cases List.mem_singleton.1 hu
      exact ht

theorem Within.del (h : r.Within Q) (t : TaskId) : (r.osDelTaskMmang t).2.Within Q := by
  obtain ⟨l, hl, hQ⟩ := h
  rcases Classical.em (t ∈ l) with hm | hm
  · cases hc : r.current with
    | none =>
        refine ⟨l, ?_, hQ⟩
        simp only [osDelTaskMmang, hc, listIteratorPreviousCircular]
        exact hl
    | some c =>
        refine ⟨l.erase t, (hl.del hm (by simp [hc])).2, ?_⟩
        intro u hu
        exact hQ u (List.mem_of_mem_erase hu)
  · exact ⟨l, hl.del_of_notMem hm, hQ⟩

theorem Within.elementInit (h : r.Within Q) (ht : ¬ Q t) :
    Within Q { r with links := listElementInit r.links (.elem t) } := by
  obtain ⟨l, hl, hQ⟩ := h
  have hm : t ∉ l := fun hm => ht (hQ t hm)
  rw [hl.list.elementInit (mt elem_mem.1 hm)]
  exact ⟨l, hl, hQ⟩

theorem Within.mono (h : r.Within Q) (hQ : ∀ t, Q t → Q' t) : r.Within Q' := by
  obtain ⟨l, hl, hm⟩ := h
  exact ⟨l, hl, fun t ht => hQ t (hm t ht)⟩

end RunQueue

end Within

namespace Kernel

variable {Q Q' : TaskId → Prop} {S : SemId → Prop} {A : Prop} {k k' : Kernel} {t u : TaskId}

/-- All structures of the kernel hold threads of `Q` only. -/
structure Within (Q : TaskId → Prop) (k : Kernel) : Prop where
  runQueue : k.runQueue.Within Q
  runPtr : ∀ t, k.runPtr = some t → Q t
  sems : ∀ s, (k.sems s).wq.Within Q
  mtxs : ∀ m, (k.mtxs m).wq.Within Q
  sleepers : ∀ u, some u ∈ k.sleepQueue.handles → Q u
  deadlines : ∀ u, some u ∈ k.tWaitqueue.handles → Q u

theorem Within.wakesIn (h : k.Within Q) : k.WakesIn Q :=
  ⟨fun s _ hp => (h.sems s).pop_fst hp, fun m _ hp => (h.mtxs m).pop_fst hp, h.sleepers, h.deadlines⟩

theorem Within.mono (h : k.Within Q) (hQ : ∀ t, Q t → Q' t) : k.Within Q' where
  runQueue := h.runQueue.mono hQ
  runPtr t hr := hQ t (h.runPtr t hr)
  sems s := ⟨(h.sems s).ok, fun u hu => hQ u ((h.sems s).mem u hu)⟩
  mtxs m := ⟨(h.mtxs m).ok, fun u hu => hQ u ((h.mtxs m).mem u hu)⟩
  sleepers u hu := hQ u (h.sleepers u hu)
  deadlines u hu := hQ u (h.deadlines u hu)

theorem Prim.within (hi : Q .idle) (hp : Prim Q S A k k') (h : k.Within Q) : k'.Within Q := by
  cases hp with
  | irq | fault | thrd | tickCnt | pool =>
      exact ⟨h.runQueue, h.runPtr, h.sems, h.mtxs, h.sleepers, h.deadlines⟩
  | sem s v wq hs hw =>
      refine ⟨h.runQueue, h.runPtr, ?_, h.mtxs, h.sleepers, h.deadlines⟩
      intro x
      show (Function.update k.sems s ⟨v, wq⟩ x).wq.Within Q
      rw [Function.update_apply]
      split
      · exact hw.within (h.sems s)
      · exact h.sems x
  | mtx m p wq hw hp =>
      refine ⟨h.runQueue, h.runPtr, h.sems, ?_, h.sleepers, h.deadlines⟩
      intro x
      show (Function.update k.mtxs m ⟨p, wq⟩ x).wq.Within Q
      rw [Function.update_apply]
      split
      · exact hw.within (h.mtxs m)
      · exact h.mtxs x
  | add t ht => exact ⟨h.runQueue.add ht, h.runPtr, h.sems, h.mtxs, h.sleepers, h.deadlines⟩
  | del t => exact ⟨h.runQueue.del t, h.runPtr, h.sems, h.mtxs, h.sleepers, h.deadlines⟩
  | sleep t n ht =>
      refine ⟨h.runQueue, h.runPtr, h.sems, h.mtxs, ?_, h.deadlines⟩
      intro u hu
      rcases PQueue.mem_handles_push hu with hut | hu
      · obtain rfl := Option.some.inj hut
        exact ht
      · exact h.sleepers u hu
  | arm t n ht =>
      refine ⟨h.runQueue, h.runPtr, h.sems, h.mtxs, h.sleepers, ?_⟩
      intro u hu
      rcases PQueue.mem_handles_push hu with hut | hu
      · obtain rfl := Option.some.inj hut
        exact ht
      · exact h.deadlines u hu
  | sleepQueue q hq =>
      refine ⟨h.runQueue, h.runPtr, h.sems, h.mtxs, ?_, h.deadlines⟩
      intro u hu
      exact h.sleepers u (Multiset.mem_of_le hq hu)
  | tWaitqueue q hq =>
      refine ⟨h.runQueue, h.runPtr, h.sems, h.mtxs, h.sleepers, ?_⟩
      intro u hu
      exact h.deadlines u (Multiset.mem_of_le hq hu)
  | changeTask =>
      obtain ⟨l, hl, hQ⟩ := h.runQueue
      refine ⟨⟨l, hl.changeTask_holds, hQ⟩, ?_, h.sems, h.mtxs, h.sleepers, h.deadlines⟩
      intro t ht
      rcases hl.changeTask with hn | ⟨u, hu, hr⟩
      · cases hn.symm.trans ht
      · cases hr.symm.trans ht
        exact hQ t hu
  | idle =>
      refine ⟨h.runQueue, ?_, h.sems, h.mtxs, h.sleepers, h.deadlines⟩
      rintro t ⟨⟩
      exact hi

/-! ## Priorities -/

/-- A thread that holds no mutex has its base priority. -/
def Restored (k : Kernel) : Prop :=
  ∀ t, (∀ m, (k.mtxs m).holder ≠ some t) → (k.thrds t).fixedPrio = (k.thrds t).basePrio

theorem Prim.basePrio (hp : Prim Q S A k k') (t : TaskId) :
    (k'.thrds t).basePrio = (k.thrds t).basePrio := by
  cases hp with
  | thrd u f hb hf =>
      show (Function.update k.thrds u (f (k.thrds u)) t).basePrio = _
      rw [Function.update_apply]
      split
      · rename_i he
        rw [he, hb]
      · rfl
  | _ => rfl

theorem Prim.restored (hp : Prim Q S A k k') (h : k.Restored) : k'.Restored := by
  cases hp with
  | thrd u f hb hf =>
      intro t hn
      show (Function.update k.thrds u (f (k.thrds u)) t).fixedPrio =
        (Function.update k.thrds u (f (k.thrds u)) t).basePrio
      rw [Function.update_apply]
      split
      · rename_i he
        subst he
        rw [hb]
        rcases hf with hf | hf | ⟨m, hm⟩
        · rw [hf]
          exact h _ hn
        · exact hf
        · exact absurd hm (hn m)
      · exact h t hn
  | mtx m p wq hw hp =>
      intro t hn
      have hn' : ∀ m', (Function.update k.mtxs m ⟨p, wq⟩ m').holder ≠ some t := hn
      by_cases hm : (k.mtxs m).holder = some t
      · -- the mutex goes over to another thread
        rcases hp t hm with rfl | hp
        · exact absurd (by simp) (hn' m)
        · exact hp
      · apply h
        intro m' hm'
        rcases eq_or_ne m' m with rfl | hne
        · exact hm hm'
        · apply hn' m'
          rwa [Function.update_of_ne hne]
  | _ => exact h

/-! ## Creation -/

theorem Within.created {i : Fin numThreads} (h : k.Within Q) (hi : ¬ Q (.slot i)) (priority : Nat)
    (irq : Irq) : ({ k.created i priority with irq } : Kernel).Within fun t => t = .slot i ∨ Q t := by
  have hm : k.Within fun t => t = .slot i ∨ Q t := h.mono fun t ht => .inr ht
  refine ⟨?_, hm.runPtr, ?_, hm.mtxs, hm.sleepers, hm.deadlines⟩
  · exact RunQueue.Within.add ((h.runQueue.elementInit hi).mono fun t ht => .inr ht) (.inl rfl)
  · intro s
    show (Function.update k.sems (.join (.slot i)) (Sem.init 0) s).wq.Within _
    rw [Function.update_apply]
    split
    · exact ⟨Queue.ok_init (by decide), by rintro u ⟨⟩⟩
    · exact hm.sems s

theorem created_thrds (i : Fin numThreads) (priority : Nat) (t : TaskId) :
    (k.created i priority).thrds t = if t = .slot i then { k.thrds t with
      basePrio := priority, fixedPrio := priority, workingPrio := priority, state := .ACTIVE }
    else k.thrds t := by
  show Function.update k.thrds (.slot i) _ t = _
  rw [Function.update_apply]
  split
  · rename_i he
    rw [he]
    rfl
  · rfl

theorem Restored.created {i : Fin numThreads} (h : k.Restored) (priority : Nat) (irq : Irq) :
    ({ k.created i priority with irq } : Kernel).Restored := by
  intro t hn
  show ((k.created i priority).thrds t).fixedPrio = ((k.created i priority).thrds t).basePrio
  rw [created_thrds]
  split
  · rfl
  · exact h t hn

theorem osAddTask_endCritical (k : Kernel) (t : TaskId) : ∃ irq,
    (k.osAddTask (some t)).2.endCritical = ({ k with irq }.osAddTaskMmang (some t)).2 :=
  ⟨_, rfl⟩

/-- `thrd_create` fails, or it starts a thread in a free slot, whatever the state of the
interrupts. -/
theorem thrdCreate_cases {l : List (Fin numThreads)} (hf : k.taskMem.Free l)
    (hh : k.runQueue.HeadLinked) (routine priority : Nat) :
    (∃ irq, k.thrdCreate routine priority = ((-1, none), { k with irq })) ∨
      ∃ i ∈ l, ∃ irq,
        k.thrdCreate routine priority = ((0, some (.slot i)), { k.created i priority with irq }) := by
  unfold thrdCreate
  split
  · exact .inl ⟨k.irq, rfl⟩
  · split
    · exact .inl ⟨k.irq, rfl⟩
    · rename_i hr hp
      have ht : k.startCritical.startCritical.talloc.1 = (poolAlloc k.taskMem).1 := rfl
      cases l with
      | nil =>
          left
          have hc : k.startCritical.osTaskCreate =
              (none, k.startCritical.startCritical.talloc.2) := by
            unfold osTaskCreate
            simp only [ht, hf.alloc_nil, if_true]
          simp only [hc]
          refine ⟨k.startCritical.startCritical.talloc.2.endCritical.irq, ?_⟩
          show (((-1 : Int), (none : ThrdPtr)), { k with
            irq := _
            taskMem := (poolAlloc k.taskMem).2 }) = _
          rw [hf.alloc_nil]
          rfl
      | cons i l =>
          right
          refine ⟨i, List.mem_cons_self, ?_⟩
          have hs : ¬ (Kernel.osAddTask
              { k.startCritical.startCritical.talloc.2 with
                runQueue.links := listElementInit
                  k.startCritical.startCritical.talloc.2.runQueue.links (.elem (.slot i)) }
              (some (.slot i))).1 < 0 := not_lt.2 (le_of_eq (hh.add_elementInit (.slot i)).symm)
          have hc : ∃ irq, k.startCritical.osTaskCreate = (some (.slot i), ({ k with
              irq
              taskMem := (poolAlloc k.taskMem).2
              runQueue.links := listElementInit k.runQueue.links (.elem (.slot i)) }.osAddTaskMmang
                (some (.slot i))).2) := by
            unfold osTaskCreate
            simp only [ht, hf.alloc_cons.1, if_neg (itemAddr_ne_zero i), itemAt_itemAddr]
            rw [if_neg hs]
            obtain ⟨irq, ha⟩ := osAddTask_endCritical
              { k.startCritical.startCritical.talloc.2 with
                runQueue.links := listElementInit
                  k.startCritical.startCritical.talloc.2.runQueue.links (.elem (.slot i)) } (.slot i)
            rw [ha]
            exact ⟨irq, rfl⟩
          obtain ⟨irq, hc⟩ := hc
          simp only [hc]
          unfold thrdInit
          rw [if_neg hr]
          exact ⟨irq.start.stop.stop, rfl⟩

end Kernel

/-! ## Steps -/

namespace Sys

open Kernel

variable {s s' : Sys} {a : Action} {e : Option Event} {t : TaskId}

/-- `t` is the idle thread, or a thread that has been created. -/
def Live (s : Sys) (t : TaskId) : Prop := t = .idle ∨ s.pc t ≠ .none

/-- The thread that a step creates, with its priority. -/
def creation (s : Sys) (a : Action) : Option (TaskId × Nat) :=
  match a with
  | .create routine priority | .call (.thrdCreate routine priority) =>
      (s.k.thrdCreate routine priority).1.2.map fun t => (t, priority.val)
  | _ => none

/-- Threads neither exit nor call `mtx_trylock`. -/
def BoostGuard (_ : Sys) (a : Action) : Prop :=
  match a with
  | .call (.thrdExit _) | .call (.mtxTrylock _) => False
  | _ => True

instance (s : Sys) (a : Action) : Decidable (s.BoostGuard a) := by
  unfold BoostGuard
  split <;> infer_instance

/-- A step is a sequence of primitive effects on live threads, or it creates a thread. -/
inductive Moves (s : Sys) (a : Action) (s' : Sys) : Prop
  | prims (hp : Prims s.Live (fun _ => True) True s.k s'.k) (hc : s.creation a = none)
      (hpc : ∀ t, s'.pc t = .none ↔ s.pc t = .none)
  | creates (i : Fin numThreads) (priority : Nat) (irq : Irq) (hi : s.pc (.slot i) = .none)
      (hc : s.creation a = some (.slot i, priority))
      (hk : s'.k = { s.k.created i priority with irq })
      (hpc : ∀ t, s'.pc t = .none ↔ t ≠ .slot i ∧ s.pc t = .none)

theorem update_none_iff {pc : TaskId → Pc} {p : Pc} (ht : pc t ≠ .none) (hp : p ≠ .none)
    (u : TaskId) : Function.update pc t p u = .none ↔ pc u = .none := by
  rw [Function.update_apply]
  split
  · rename_i he
    rw [he]
    exact ⟨fun h => absurd h hp, fun h => absurd h ht⟩
  · rfl

/-- Creating a thread, from `main` or from a thread. -/
theorem moves_thrdCreate (hpool : s.PoolOk) {routine priority : SizeT} {a : Action}
    (ha : s.creation a = (s.k.thrdCreate routine priority).1.2.map fun t => (t, priority.val))
    (hk : s'.k = (s.k.thrdCreate routine priority).2)
    (hpc : ∀ u, s'.pc u = .none ↔ ({ s with k := (s.k.thrdCreate routine priority).2 }.spawn
      (s.k.thrdCreate routine priority).1.2).pc u = .none) : s.Moves a s' := by
  obtain ⟨⟨l, hf, hl⟩, hh⟩ := hpool
  rcases thrdCreate_cases hf hh routine priority with ⟨irq, he⟩ | ⟨i, hi, irq, he⟩
  · rw [he] at ha hk hpc
    refine .prims ?_ ha hpc
    rw [hk]
    exact Prims.refl.setIrq irq
  · rw [he] at ha hk hpc
    refine .creates i priority irq ((hl i).1 hi) ha hk ?_
    intro u
    rw [hpc]
    show Function.update s.pc (.slot i) .user u = .none ↔ _
    rw [Function.update_apply]
    split
    · simp_all
    · simp_all

theorem step_moves (hpool : s.PoolOk) (hw : s.k.Within s.Live) (hn : ∀ t, s.pc t ≠ .kill)
    (hg : s.BoostGuard a) (hs : s.step a = some (e, s')) : s.Moves a s' := by
  cases (steps_of_step hs).2 with
  | create r p => exact moves_thrdCreate hpool rfl (by rw [spawn_k]) fun _ => Iff.rfl
  | launch => exact .prims osStart_prims rfl fun _ => Iff.rfl
  | tick sp => exact .prims (osTick_prims hw.wakesIn trivial sp) rfl fun _ => Iff.rfl
  | @resume u _ _ hr hp hs =>
      obtain ⟨q, hq, he⟩ := stepResume_pc u (hn u) hs
      have hu : s.pc u ≠ .none := by
        intro hu
        simp [stepResume, hu] at hs
      refine .prims (stepResume_prims hw.wakesIn (fun _ => trivial) hs) rfl ?_
      rw [he]
      exact update_none_iff hu hq
  | @call u c hr hpc hp =>
      have hu : s.pc u ≠ .none := by simp [hpc]
      by_cases hc : ∃ r p, c = .thrdCreate r p
      · obtain ⟨r, p, rfl⟩ := hc
        have hu' : ({ s with k := (s.k.thrdCreate r p).2 }.spawn (s.k.thrdCreate r p).1.2).pc u
            ≠ .none := spawn_pc (s := { s with k := (s.k.thrdCreate r p).2 }) hu _
        rcases complete_pc (s := { s with k := (s.k.thrdCreate r p).2 }.spawn
          (s.k.thrdCreate r p).1.2) u (.thrdCreate r p) (s.k.thrdCreate r p).1.1 with ⟨q, hq, he⟩
        refine moves_thrdCreate hpool rfl (by simp [stepCall]) ?_
        intro x
        rw [stepCall, he]
        exact update_none_iff hu' hq x
      · have hne : ∀ r p, c ≠ .thrdCreate r p := fun r p h => hc ⟨r, p, h⟩
        obtain ⟨q, hq, he⟩ := stepCall_pc (s := s) u c hne
        refine .prims (stepCall_prims c hr (.inr hu) hw.wakesIn (fun _ _ => trivial) (fun _ => trivial) hne ?_
          ?_) ?_ ?_
        · rintro r rfl
          exact hg
        · rintro m rfl
          exact hg
        · cases c with
          | thrdCreate r p => exact absurd rfl (hne r p)
          | _ => rfl
        · rw [he]
          exact update_none_iff hu hq

/-! ## Runs -/

/-- The invariant of the runs without exits. -/
structure BoostOk (s : Sys) : Prop where
  pool : s.PoolOk
  within : s.k.Within s.Live
  stays : ∀ t, s.pc t ≠ .kill
  idle : s.pc .idle = .none
  restored : s.k.Restored

theorem BoostOk.step (h : s.BoostOk) (hg : s.BoostGuard a) (hs : s.step a = some (e, s')) :
    s'.BoostOk := by
  have hsave : s.SaveGuard a := by
    cases a with
    | tick sp =>
        intro i hr hi
        rcases h.within.runPtr _ hr with hid | hlive
        · cases hid
        · exact absurd hi hlive
    | _ => trivial
  have hstays : ∀ t, s'.pc t ≠ .kill := by
    intro t hk
    rcases step_of_kill hs hk with hk | ⟨-, r, rfl⟩
    · exact h.stays t hk
    · exact hg
  have hpool := step_poolOk h.pool hsave hs
  cases step_moves h.pool h.within h.stays hg hs with
  | prims hp hc hpc =>
      have hlive : s.Live = s'.Live := by
        funext t
        rw [Live, Live, ne_eq, ne_eq, hpc]
      refine ⟨hpool, ?_, hstays, (hpc _).2 h.idle, ?_⟩
      · rw [← hlive]
        exact hp.keeps (fun _ _ hk hp => hp.within (.inl rfl) hk) h.within
      · exact hp.keeps (fun _ _ hk hp => hp.restored hk) h.restored
  | creates i priority irq hi hc hk hpc =>
      refine ⟨hpool, ?_, hstays, (hpc _).2 ⟨by simp, h.idle⟩, ?_⟩
      · rw [hk]
        refine (h.within.created (by simp [Live, hi]) priority irq).mono ?_
        rintro t (rfl | hid | hlive)
        · exact .inr fun hn => ((hpc _).1 hn).1 rfl
        · exact .inl hid
        · exact .inr fun hn => hlive ((hpc t).1 hn).2
      · rw [hk]
        exact h.restored.created priority irq

theorem boot_boostOk (vals : Nat → Nat) : (boot vals).BoostOk where
  pool := boot_poolOk vals
  within := by
    refine ⟨⟨[], ⟨isList_init fun _ => rfl, rfl⟩, by rintro t ⟨⟩⟩, by rintro t ⟨⟩, ?_, ?_, by rintro u ⟨⟩,
      by rintro u ⟨⟩⟩
    · rintro (n | t)
      · exact ⟨Queue.ok_init (by decide), by rintro u ⟨⟩⟩
      · cases t <;> exact ⟨Queue.ok_init (by decide), by rintro u ⟨⟩⟩
    · intro m
      exact ⟨Queue.ok_init (by decide), by rintro u ⟨⟩⟩
  stays := by
    intro t ht
    cases ht
  idle := rfl
  restored := by
    intro t _
    cases t <;> rfl

/-- The log of all creations tells the base priority of every thread. -/
structure Logged (h : List (Option (TaskId × Nat))) (s : Sys) : Prop where
  live : ∀ t p, some (t, p) ∈ h → s.pc t ≠ .none
  basePrio : ∀ t p, some (t, p) ∈ h → (s.k.thrds t).basePrio = p
  created : ∀ t, s.pc t ≠ .none → ∃ p, some (t, p) ∈ h

theorem Logged.step {h : List (Option (TaskId × Nat))} (hl : Logged h s) (hok : s.BoostOk)
    (hg : s.BoostGuard a) (hs : s.step a = some (e, s')) : Logged (s.creation a :: h) s' := by
  cases step_moves hok.pool hok.within hok.stays hg hs with
  | prims hp hc hpc =>
      have hold : ∀ t p, some (t, p) ∈ s.creation a :: h → some (t, p) ∈ h := by
        intro t p hm
        rw [hc] at hm
        simpa using hm
      have hbase : ∀ t, (s'.k.thrds t).basePrio = (s.k.thrds t).basePrio := by
        intro t
        exact hp.keeps (P := fun k => (k.thrds t).basePrio = (s.k.thrds t).basePrio)
          (fun _ _ hk hp => (hp.basePrio t).trans hk) rfl
      refine ⟨?_, ?_, ?_⟩
      · intro t p hm hn
        exact hl.live t p (hold t p hm) ((hpc t).1 hn)
      · intro t p hm
        rw [hbase]
        exact hl.basePrio t p (hold t p hm)
      · intro t ht
        obtain ⟨p, hm⟩ := hl.created t (mt (hpc t).2 ht)
        exact ⟨p, List.mem_cons_of_mem _ hm⟩
  | creates i priority irq hi hc hk hpc =>
      have hmem : ∀ t p, some (t, p) ∈ s.creation a :: h →
          t = .slot i ∧ p = priority ∨ t ≠ .slot i ∧ some (t, p) ∈ h := by
        intro t p hm
        rw [hc] at hm
        rcases List.mem_cons.1 hm with he | hm
        · cases he
          exact .inl ⟨rfl, rfl⟩
        · refine .inr ⟨?_, hm⟩
          -- the slot was free, so that no creation of a thread in it is logged
          rintro rfl
          exact hl.live _ p hm hi
      refine ⟨?_, ?_, ?_⟩
      · intro t p hm hn
        rcases hmem t p hm with ⟨rfl, -⟩ | ⟨-, hm⟩
        · exact ((hpc _).1 hn).1 rfl
        · exact hl.live t p hm ((hpc t).1 hn).2
      · intro t p hm
        rw [hk]
        show ((s.k.created i priority).thrds t).basePrio = p
        rw [created_thrds]
        rcases hmem t p hm with ⟨rfl, rfl⟩ | ⟨hne, hm⟩
        · rw [if_pos rfl]
        · rw [if_neg hne]
          exact hl.basePrio t p hm
      · intro t ht
        rcases eq_or_ne t (.slot i) with rfl | hne
        · exact ⟨priority, by rw [hc]; exact List.mem_cons_self⟩
        · obtain ⟨p, hm⟩ := hl.created t fun hn => ht ((hpc t).2 ⟨hne, hn⟩)
          exact ⟨p, List.mem_cons_of_mem _ hm⟩

/-- In every state a thread that holds no mutex has the priority that it was created with as its
`fixed_prio`, and every thread has this priority as its `base_prio`. -/
theorem boosts_undone {vals : Nat → Nat} {h : List (Option (TaskId × Nat))}
    (hr : ((system vals).observe creation).Run BoostGuard h s) :
    (∀ t, s.pc t ≠ .none → ∃ p, some (t, p) ∈ h) ∧
    ∀ t p, some (t, p) ∈ h → (s.k.thrds t).basePrio = p ∧
      ((∀ m, (s.k.mtxs m).holder ≠ some t) → (s.k.thrds t).fixedPrio = p) := by
  have hok : s.BoostOk ∧ Logged h s := by
    refine hr.invariant (P := fun h s => s.BoostOk ∧ Logged h s) ?_ ?_
    · rintro s rfl
      refine ⟨boot_boostOk vals, ?_, ?_, ?_⟩
      · rintro t p ⟨⟩
      · rintro t p ⟨⟩
      · intro t ht
        exact absurd rfl ht
    · rintro h s a e s' ⟨hok, hl⟩ hg hs
      obtain ⟨rfl, e', hs⟩ := TransitionSystem.observe_step hs
      exact ⟨hok.step hg hs, hl.step hok hg hs⟩
  refine ⟨hok.2.created, ?_⟩
  intro t p hm
  have hb := hok.2.basePrio t p hm
  refine ⟨hb, ?_⟩
  intro hn
  rw [hok.1.restored t hn, hb]

/-- A thread takes a mutex, a thread of higher priority boosts it and blocks, and the holder gives
the mutex away. -/
theorem boosts_undone_two_threads :
    ∃ h s, ((system fun _ => 0).observe creation).Run BoostGuard h s ∧
      (s.k.mtxs 0).holder = some (.slot 14) ∧ some (.slot 15, 1) ∈ h ∧
      (∀ t, s.pc t ≠ .none → ∃ p, some (t, p) ∈ h) ∧
      ∀ t p, some (t, p) ∈ h → (s.k.thrds t).basePrio = p ∧
        ((∀ m, (s.k.mtxs m).holder ≠ some t) → (s.k.thrds t).fixedPrio = p) := by
  rcases TransitionSystem.exists_run_of_exec (M := (system fun _ => 0).observe creation)
    (G := BoostGuard) (s := boot fun _ => 0) rfl
    [.create 1 1, .create 1 2, .launch, .call (.mtxLock 0), .tick 0, .call (.mtxLock 0), .tick 0,
      .call (.mtxUnlock 0)]
    (P := fun h s => (s.k.mtxs 0).holder = some (.slot 14) ∧ some (.slot 15, 1) ∈ h)
    (by decide +kernel) with ⟨h, s, hr, hh, hm⟩
  exact ⟨h, s, hr, hh, hm, boosts_undone hr⟩

end Sys

end MsTos
