-- SUMMARY: Joining and exiting in any order: whoever joins a thread does not get its exit code.
import MsTos.Join
import MsTos.Primitives
import MsTos.SemaphoreQueue
import MsTos.Tick

namespace MsTos

/-! ## Join semaphores -/

namespace Sem

variable {l : List TaskId} {u : TaskId}

/-- `join_sem` of a thread that the threads of `l` have joined, in this order, and that has woken
none of them. -/
def joinedBy (l : List TaskId) : Sem where
  val := -l.length
  wq :=
    { storage := fun
        | 0 => none
        | j + 1 => l[j]?
      read := 0
      write := l.length
      count := l.length }

theorem joinedBy_nil : joinedBy [] = Sem.init 0 := by
  have hs : ∀ j, (joinedBy []).wq.storage j = none := by
    intro j
    cases j <;> rfl
  have hstorage : (joinedBy []).wq.storage = fun _ => none := funext hs
  unfold joinedBy Sem.init Queue.init
  exact congrArg (fun f => (⟨0, ⟨f, 0, 0, 0⟩⟩ : Sem)) hstorage

theorem joinedBy_wait_count (h : l.length < numThreads) :
    ((joinedBy l).wait u).2.wq.count = l.length + 1 := by
  have hneg : toInt ((joinedBy l).val - 1) < 0 := by
    show toInt (-(l.length : Int) - 1) < 0
    simp only [numThreads] at h
    rw [toInt_of_mem (by omega) (by omega)]
    omega
  unfold wait Queue.push
  dsimp only
  rw [if_pos hneg, if_pos (show (joinedBy l).wq.count < numThreads from h)]
  rfl

/-- A full queue takes nobody any more. -/
theorem wait_full {sem : Sem} (h : sem.wq.count = numThreads) :
    (sem.wait u).2.wq.count = numThreads := by
  unfold wait Queue.push
  dsimp only
  split
  · rw [if_neg (Nat.not_lt.2 h.ge)]
    exact h
  · exact h

theorem joinedBy_wait (h : l.length + 1 < numThreads) :
    ((joinedBy l).wait u).2 = joinedBy (l ++ [u]) := by
  have hlen : l.length < numThreads := Nat.lt_of_succ_lt h
  have hval : toInt (-(l.length : Int) - 1) = -((l ++ [u]).length : Int) := by
    simp only [numThreads] at hlen
    rw [List.length_append, List.length_singleton, toInt_of_mem (by omega) (by omega)]
    omega
  have hneg : toInt (-(l.length : Int) - 1) < 0 := by
    rw [hval, List.length_append, List.length_singleton]
    omega
  have hstorage : Function.update (joinedBy l).wq.storage (l.length + 1) (some u) =
      (joinedBy (l ++ [u])).wq.storage := by
    funext j
    rw [Function.update_apply]
    cases j with
    | zero => rfl
    | succ j =>
        show (if j + 1 = l.length + 1 then some u else l[j]?) = (l ++ [u])[j]?
        rw [List.getElem?_append]
        split
        · rename_i hj
          obtain rfl : j = l.length := Nat.succ.inj hj
          simp
        · rename_i hj
          split
          · rfl
          · rename_i hge
            rw [List.getElem?_eq_none (Nat.le_of_not_lt hge),
              List.getElem?_eq_none (by simp only [List.length_singleton]; omega)]
  unfold wait
  dsimp only
  rw [show (joinedBy l).val = -(l.length : Int) from rfl, if_pos hneg]
  unfold Queue.push
  rw [if_pos (show (joinedBy l).wq.count < numThreads from hlen)]
  simp only [show (joinedBy l).wq.write = l.length from rfl, Nat.mod_eq_of_lt h, hstorage, hval]
  simp [joinedBy]

theorem joinedBy_toList (h : l.length < numThreads) : (joinedBy l).wq.toList = l.map some := by
  apply List.ext_getElem
  · rw [Queue.length_toList, List.length_map]
    rfl
  · intro j hj hj'
    rw [List.length_map] at hj'
    have hmod : (0 + 1 + j) % numThreads = j + 1 := by
      rw [zero_add, add_comm]
      exact Nat.mod_eq_of_lt (Nat.lt_of_le_of_lt hj' h)
    simp only [Queue.toList, List.getElem_map, List.getElem_range]
    show (joinedBy l).wq.storage ((0 + 1 + j) % numThreads) = some l[j]
    rw [hmod]
    exact List.getElem?_eq_getElem hj'

end Sem

namespace Kernel

variable {k : Kernel} {t u : TaskId} {l : List TaskId}

/-- The slot behind the last one that was written is empty, or not there. -/
theorem wakeupThrd_joinedBy (h : k.sems (.join t) = Sem.joinedBy l) : k.wakeupThrd t = none := by
  unfold wakeupThrd
  split
  · rw [h]
    have hback : (Sem.joinedBy l).wq.storage (l.length + 1) = none :=
      List.getElem?_eq_none (le_refl _)
    unfold Queue.back
    split
    · exact congrArg (fun p => (some p).join) hback
    · rfl
  · rfl

/-- `os_task_exit` of a thread that others have joined does not get past the first one. -/
theorem osTaskExit_joinedBy (hr : k.runPtr = some t) (h : k.sems (.join t) = Sem.joinedBy l)
    (r : Int) : (k.osTaskExit r).fault = true ∨ (k.osTaskExit r).sems = k.sems := by
  cases l with
  | nil =>
      right
      have hcount : (k.startCritical.osTaskCurrent.2.sems (.join t)).wq.count = 0 := by
        show (k.sems (.join t)).wq.count = 0
        rw [h]
        rfl
      rw [osTaskExit_run hr, wakeJoiners_of_count hcount r _ (by simp)]
      rfl
  | cons u l =>
      refine .inl (osTaskExit_fault hr ?_ (wakeupThrd_joinedBy h))
      rw [h]
      exact Nat.succ_pos _

/-- Creating a thread sets up its own join semaphore only. -/
theorem thrdCreate_joins (routine priority : Nat) :
    (k.thrdCreate routine priority).2.sems (.join u) =
      if (k.thrdCreate routine priority).1.2 = some u then Sem.init 0 else k.sems (.join u) := by
  obtain ⟨hn, _, _, _, _, h⟩ | ⟨_, i, ⟨_, _, _, _, rfl⟩, hr, -, hp, h⟩ :=
    thrdCreate_allots (k := k) routine priority
  · rw [h, hn, if_neg (by simp)]
  · have hi : (k.thrdCreate routine priority).2.sems =
        Function.update k.sems (.join (.slot i)) (Sem.init 0) := by
      rw [h]
      unfold thrdInit semInit
      rw [if_neg hr]
      rfl
    rw [hi, hp, Function.update_apply]
    refine if_congr ⟨?_, ?_⟩ rfl rfl
    · rintro ⟨⟩
      rfl
    · rintro ⟨⟩
      rfl

/-- The thread `t` is created, or its join semaphore stays as it is. -/
theorem thrdCreate_made (routine priority : Nat) {k' : Kernel}
    (hk : k'.sems = (k.thrdCreate routine priority).2.sems) (t : TaskId) :
    (k.thrdCreate routine priority).1.2 = some t ∧ k'.sems (.join t) = Sem.init 0 ∨
      (k.thrdCreate routine priority).1.2 ≠ some t ∧ k'.sems (.join t) = k.sems (.join t) := by
  rw [hk, thrdCreate_joins]
  split
  · rename_i h
    exact .inl ⟨h, rfl⟩
  · rename_i h
    exact .inr ⟨h, rfl⟩

end Kernel

/-! ## Steps -/

namespace Sys

open Kernel

variable {s s' : Sys} {a : Action} {e : Option Event} {t u : TaskId} {r : Int}

/-- The thread that the step creates. -/
def made (s : Sys) (a : Action) : ThrdPtr :=
  match a with
  | .create routine priority | .call (.thrdCreate routine priority) =>
      (s.k.thrdCreate routine priority).1.2
  | _ => none

/-- What a step does to the join semaphore of `t`. -/
inductive JoinStep (s : Sys) (a : Action) (t : TaskId) (s' : Sys) : Prop
  | made : s.made a = some t → s'.k.sems (.join t) = Sem.init 0 → JoinStep s a t s'
  | join (u : TaskId) : s.k.runPtr = some u → a = .call (.thrdJoin t) →
      s'.k.sems (.join t) = ((s.k.sems (.join t)).wait u).2 → JoinStep s a t s'
  | exit (r : Int) : s.k.runPtr = some t → a = .call (.thrdExit r) → s'.k = s.k.osTaskExit r →
      s'.pc t = .kill → JoinStep s a t s'
  | keep : s.made a ≠ some t → a ≠ .call (.thrdJoin t) →
      (s.k.runPtr = some t → ∀ r, a ≠ .call (.thrdExit r)) →
      s'.k.sems (.join t) = s.k.sems (.join t) → JoinStep s a t s'

theorem step_join (hs : s.step a = some (e, s')) (t : TaskId) : JoinStep s a t s' := by
  have hkeep : ∀ {k' : Kernel}, Prims (fun _ => True) (fun x => x ≠ .join t) True s.k k' →
      k'.sems (.join t) = s.k.sems (.join t) := fun hp => hp.sems_eq fun hne => hne rfl
  cases (steps_of_step hs).2 with
  | create r p hr =>
      have hsems : ({ s with k := (s.k.thrdCreate r p).2 }.spawn (s.k.thrdCreate r p).1.2).k.sems =
          (s.k.thrdCreate r p).2.sems := by rw [spawn_k]
      rcases thrdCreate_made r p hsems t with ⟨hm, hk⟩ | ⟨hm, hk⟩
      · exact .made hm hk
      · exact .keep hm (by simp) (by simp) hk
  | launch => exact .keep (by simp [Sys.made]) (by simp) (by simp) (hkeep osStart_prims)
  | tick sp =>
      exact .keep (by simp [Sys.made]) (by simp) (by simp)
        (hkeep (osTick_prims (wakesIn_true _) trivial sp))
  | resume hr hp hs =>
      exact .keep (by simp [Sys.made]) (by simp) (by simp)
        (hkeep (stepResume_prims (wakesIn_true _) (by simp) hs))
  | @call u c hr hpc hp =>
      cases c with
      | thrdCreate r p =>
          have hsems : (s.stepCall u (.thrdCreate r p)).2.k.sems =
              (s.k.thrdCreate r p).2.sems := by simp [stepCall]
          rcases thrdCreate_made r p hsems t with ⟨hm, hk⟩ | ⟨hm, hk⟩
          · exact .made hm hk
          · exact .keep hm (by simp) (by simp) hk
      | mtxTrylock m =>
          refine .keep (by simp [Sys.made]) (by simp) (by simp) ?_
          have he : (s.k.mtxTrylock m).2.sems = s.k.sems := by
            unfold Kernel.mtxTrylock
            dsimp only
            split <;> rfl
          simp [stepCall, he]
      | thrdExit r =>
          rcases eq_or_ne t u with rfl | hne
          · exact .exit r hr rfl rfl (Function.update_self ..)
          · refine .keep (by simp [Sys.made]) (by simp) ?_ ?_
            · intro ht
              cases hr.symm.trans ht
              exact absurd rfl hne
            · have hp : Prims (fun _ => True) (fun x => x ≠ .join t) True s.k (s.k.osTaskExit r) :=
                Prims.refl.osTaskExit (fun _ => trivial) hr (by simpa using hne.symm) r
              exact hkeep hp
      | thrdJoin other =>
          rcases eq_or_ne other t with rfl | hne
          · refine .join u hr rfl ?_
            show (s.k.semWait (.join other)).sems (.join other) = _
            rw [semWait_sems hr, Function.update_self]
          · refine .keep (by simp [Sys.made]) (by simpa using hne) (by simp) ?_
            exact hkeep (stepCall_prims (.thrdJoin other) hr trivial (wakesIn_true _)
              (by simpa [Call.sem] using hne) (fun _ => trivial) (by simp) (by simp) (by simp))
      | _ =>
          refine .keep (by simp [Sys.made]) (by simp) (by simp) ?_
          exact hkeep (stepCall_prims _ hr trivial (wakesIn_true _) (by simp [Call.sem])
            (fun _ => trivial) (by simp) (by simp) (by simp))

theorem spawn_pc_of_ne {p : ThrdPtr} (hp : p ≠ some t) : (s.spawn p).pc t = s.pc t := by
  cases p with
  | none => rfl
  | some u => exact Function.update_of_ne (fun he => hp (congrArg some he.symm)) _ _

/-- A thread that has run `os_task_exit` does nothing but end. -/
theorem step_over (hs : s.step a = some (e, s')) (h : s.pc t = .kill ∨ s.pc t = .none) :
    s.made a = some t ∨ s'.pc t = .kill ∨ s'.pc t = .none := by
  cases (steps_of_step hs).2 with
  | create r p =>
      rcases eq_or_ne (s.k.thrdCreate r p).1.2 (some t) with hm | hm
      · exact .inl hm
      · right
        rw [spawn_pc_of_ne hm]
        exact h
  | launch | tick => exact .inr h
  | @call u c hr hpc hp =>
      have hne : t ≠ u := by
        rintro rfl
        rw [hpc] at h
        rcases h with h | h <;> cases h
      by_cases hc : ∃ r p, c = .thrdCreate r p
      · obtain ⟨r, p, rfl⟩ := hc
        rcases eq_or_ne (s.k.thrdCreate r p).1.2 (some t) with hm | hm
        · exact .inl hm
        · obtain ⟨q, -, he⟩ := complete_pc (s := { s with k := (s.k.thrdCreate r p).2 }.spawn
            (s.k.thrdCreate r p).1.2) u (.thrdCreate r p) (s.k.thrdCreate r p).1.1
          have he : (s.stepCall u (.thrdCreate r p)).2.pc t = s.pc t := by
            refine (congrFun he t).trans ?_
            rw [Function.update_of_ne hne, spawn_pc_of_ne hm]
          right
          rw [he]
          exact h
      · obtain ⟨q, -, he⟩ := stepCall_pc (s := s) u c (fun r p he => hc ⟨r, p, he⟩)
        right
        rw [he, Function.update_of_ne hne]
        exact h
  | @resume u _ _ hr hp hs =>
      right
      rcases eq_or_ne (s.pc u) .kill with hk | hk
      · rw [stepResume_kill u hk] at hs
        cases hs
        show Function.update s.pc u .none t = _ ∨ Function.update s.pc u .none t = _
        rw [Function.update_apply]
        split
        · exact .inr rfl
        · exact h
      · obtain ⟨q, -, he⟩ := stepResume_pc u hk hs
        have hne : t ≠ u := by
          rintro rfl
          rcases h with h | h
          · exact hk h
          · unfold stepResume at hs
            rw [h] at hs
            cases hs
        rw [he, Function.update_of_ne hne]
        exact h

/-- `u` is blocked on `join_sem` of `t`. -/
def Joining (s : Sys) (u t : TaskId) : Prop := some u ∈ (s.k.sems (.join t)).wq.toList

instance (s : Sys) (u t : TaskId) : Decidable (s.Joining u t) := inferInstanceAs (Decidable (_ ∈ _))

/-- A thread is joined after `os_task_kill`, or between `os_task_exit` and `os_task_kill`: its slot
is free, and the thread that joins it is blocked. -/
theorem joining_exited :
    (∃ h s, (system fun _ => 0).Run (fun _ _ => True) h s ∧ s.pc (.slot 15) = .none ∧
      s.pc (.slot 14) = .join (.slot 15) ∧ s.k.runQueue.linked (.slot 14) = false ∧
      s.Joining (.slot 14) (.slot 15)) ∧
    ∃ h s, (system fun _ => 0).Run (fun _ _ => True) h s ∧ s.pc (.slot 15) = .none ∧
      s.pc (.slot 14) = .join (.slot 15) ∧ s.k.runQueue.linked (.slot 14) = false ∧
      s.Joining (.slot 14) (.slot 15) :=
  ⟨exists_run (fun _ => 0)
    [.create 1 1, .create 1 1, .launch, .call (.thrdExit 7), .resume, .tick 0,
      .call (.thrdJoin (.slot 15)), .tick 0]
    (by decide +kernel),
  exists_run (fun _ => 0)
    [.create 1 1, .create 1 1, .launch, .call (.thrdExit 7), .tick 0,
      .call (.thrdJoin (.slot 15)), .tick 0, .resume]
    (by decide +kernel)⟩

end Sys

/-! ## Runs -/

/-- The running system, with a log of joins and exits. -/
structure JoinLog where
  sys : Sys
  /-- The threads that have called `thrd_join` on a thread since it was created, in this order. -/
  joined : TaskId → List TaskId
  /-- The code that a thread has called `os_task_exit` with since it was created. -/
  code : TaskId → Option Int

namespace JoinLog

variable {vals : Nat → Nat} {c c' : JoinLog} {h : List (Option Event)} {a : Action}
  {e : Option Event} {t u : TaskId} {r : Int}

def step (c : JoinLog) (a : Action) : Option (Option Event × JoinLog) :=
  (c.sys.step a).map fun x => (x.1, {
    sys := x.2
    joined := fun t =>
      if c.sys.made a = some t then []
      else
        match a, c.sys.k.runPtr with
        | .call (.thrdJoin other), some u =>
            if other = t then c.joined t ++ [u] else c.joined t
        | _, _ => c.joined t
    code := fun t =>
      if c.sys.made a = some t then none
      else
        match a with
        | .call (.thrdExit r) => if c.sys.k.runPtr = some t then some r else c.code t
        | _ => c.code t })

def system (vals : Nat → Nat) : TransitionSystem JoinLog Action (Option Event) where
  init c := c = ⟨Sys.boot vals, fun _ => [], fun _ => none⟩
  step := step

theorem sys_of_step (hs : c.step a = some (e, c')) : c.sys.step a = some (e, c'.sys) := by
  obtain ⟨x, hx, he⟩ := Option.map_eq_some_iff.1 hs
  cases he
  exact hx

theorem log_of_made (hs : c.step a = some (e, c')) (hm : c.sys.made a = some t) :
    c'.joined t = [] ∧ c'.code t = none := by
  obtain ⟨x, -, he⟩ := Option.map_eq_some_iff.1 hs
  cases he
  exact ⟨if_pos hm, if_pos hm⟩

theorem log_of_join (hs : c.step (.call (.thrdJoin t)) = some (e, c'))
    (hr : c.sys.k.runPtr = some u) :
    c'.joined t = c.joined t ++ [u] ∧ c'.code t = c.code t := by
  obtain ⟨x, -, he⟩ := Option.map_eq_some_iff.1 hs
  cases he
  simp [Sys.made, hr]

theorem log_of_exit (hs : c.step (.call (.thrdExit r)) = some (e, c'))
    (hr : c.sys.k.runPtr = some t) : c'.joined t = c.joined t ∧ c'.code t = some r := by
  obtain ⟨x, -, he⟩ := Option.map_eq_some_iff.1 hs
  cases he
  simp [Sys.made, hr]

theorem log_of_keep (hs : c.step a = some (e, c')) (hm : c.sys.made a ≠ some t)
    (hj : a ≠ .call (.thrdJoin t)) (hx : c.sys.k.runPtr = some t → ∀ r, a ≠ .call (.thrdExit r)) :
    c'.joined t = c.joined t ∧ c'.code t = c.code t := by
  obtain ⟨x, -, he⟩ := Option.map_eq_some_iff.1 hs
  cases he
  simp only [if_neg hm]
  constructor
  · split
    · exact if_neg fun ht => hj (congrArg _ (congrArg _ ht))
    · rfl
  · split
    · exact if_neg fun hr => hx hr _ rfl
    · rfl

/-- Everybody who has joined a thread is still in its join queue, as long as fewer than `NUM_THREADS`
have. A queue that is full stays full until its thread exits, and a thread that has exited does not
run any more. -/
structure Pending (c : JoinLog) : Prop where
  few : ∀ t, (c.joined t).length < numThreads → c.sys.k.sems (.join t) = Sem.joinedBy (c.joined t)
  many : ∀ t, c.code t = none → numThreads ≤ (c.joined t).length →
    (c.sys.k.sems (.join t)).wq.count = numThreads
  gone : ∀ t, c.code t ≠ none → c.sys.pc t = .kill ∨ c.sys.pc t = .none

theorem Pending.step (h : c.Pending) (hs : c.step a = some (e, c')) (hf : c'.sys.k.fault = false) :
    c'.Pending := by
  have hsys := sys_of_step hs
  refine ⟨fun t hlt => ?_, fun t hn hge => ?_, fun t hx => ?_⟩
  · cases Sys.step_join hsys t with
    | made hm hk => rw [hk, (log_of_made hs hm).1, Sem.joinedBy_nil]
    | join u hr ha hk =>
        subst ha
        rw [(log_of_join hs hr).1] at hlt ⊢
        rw [List.length_append, List.length_singleton] at hlt
        rw [hk, h.few t (Nat.lt_of_succ_lt hlt), Sem.joinedBy_wait hlt]
    | exit r hr ha hk hpc =>
        subst ha
        rw [(log_of_exit hs hr).1] at hlt ⊢
        rcases Kernel.osTaskExit_joinedBy hr (h.few t hlt) r with hfault | hsems
        · rw [hk, hfault] at hf
          cases hf
        · rw [hk, hsems]
          exact h.few t hlt
    | keep hm hj hx hk =>
        rw [(log_of_keep hs hm hj hx).1] at hlt ⊢
        rw [hk]
        exact h.few t hlt
  · cases Sys.step_join hsys t with
    | made hm hk =>
        rw [(log_of_made hs hm).1] at hge
        exact absurd hge (by decide)
    | join u hr ha hk =>
        subst ha
        obtain ⟨hj, hc⟩ := log_of_join hs hr
        rw [hj, List.length_append, List.length_singleton] at hge
        rw [hc] at hn
        rw [hk]
        rcases Nat.lt_or_ge (c.joined t).length numThreads with hlt | hge'
        · rw [h.few t hlt, Sem.joinedBy_wait_count hlt]
          exact Nat.le_antisymm hlt hge
        · exact Sem.wait_full (h.many t hn hge')
    | exit r hr ha hk hpc =>
        subst ha
        rw [(log_of_exit hs hr).2] at hn
        cases hn
    | keep hm hj hx hk =>
        obtain ⟨hj, hc⟩ := log_of_keep hs hm hj hx
        rw [hj] at hge
        rw [hc] at hn
        rw [hk]
        exact h.many t hn hge
  · cases Sys.step_join hsys t with
    | made hm hk => exact absurd (log_of_made hs hm).2 hx
    | join u hr ha hk =>
        subst ha
        rw [(log_of_join hs hr).2] at hx
        exact (Sys.step_over hsys (h.gone t hx)).resolve_left (by simp [Sys.made])
    | exit r hr ha hk hpc =>
        exact .inl hpc
    | keep hm hj hx' hk =>
        rw [(log_of_keep hs hm hj hx').2] at hx
        exact (Sys.step_over hsys (h.gone t hx)).resolve_left hm

theorem run_pending (hr : (system vals).Run (fun _ _ => True) h c) :
    c.sys.k.fault = true ∨ c.Pending := by
  refine hr.invariant (P := fun _ c => c.sys.k.fault = true ∨ c.Pending) ?_ ?_
  · rintro c rfl
    refine .inr ⟨fun t _ => ?_, fun t _ hge => ?_, fun t hx => absurd rfl hx⟩
    · rw [Sem.joinedBy_nil]
      cases t <;> rfl
    · exact absurd (show numThreads ≤ 0 from hge) (by decide)
  · intro h c a e c' hp _ hs
    cases hf : c'.sys.k.fault with
    | true => exact .inl rfl
    | false =>
        have hp := hp.resolve_left (by rw [(Sys.steps_of_step (sys_of_step hs)).1]; simp)
        exact .inr (hp.step hs hf)

/-- A thread that has joined another one still waits for it, unless an exit has gone wrong. -/
theorem joining_of_joined (hr : (system vals).Run (fun _ _ => True) h c) (hu : u ∈ c.joined t)
    (hlt : (c.joined t).length < numThreads) : c.sys.k.fault = true ∨ c.sys.Joining u t := by
  rcases run_pending hr with hf | hp
  · exact .inl hf
  · right
    unfold Sys.Joining
    rw [hp.few t hlt, Sem.joinedBy_toList hlt]
    exact List.mem_map_of_mem hu

/-- What it takes that `u` can join `t` before or after `t` exits: once both have happened, `u` does not
wait any more, and as long as it has not returned from `thrd_join`, what it is going to return is the
code of `t`. -/
def Commutes (c : JoinLog) (u t : TaskId) : Prop :=
  u ∈ c.joined t → ∀ r, c.code t = some r →
    c.sys.k.fault = false ∧ ¬ c.sys.Joining u t ∧
      (c.sys.pc u = .join t → (c.sys.k.thrds u).mbox = r)

/-- Whatever the order in which `u` joins `t` and `t` exits, and wherever ticks and other threads
come in between: once both have happened, `u` does not get what it should. -/
theorem join_exit_commute_iff (hr : (system vals).Run (fun _ _ => True) h c)
    (hlt : (c.joined t).length < numThreads) :
    c.Commutes u t ↔ u ∉ c.joined t ∨ c.code t = none := by
  constructor
  · intro hc
    by_contra hn
    obtain ⟨hu, hx⟩ := not_or.1 hn
    have hu := not_not.1 hu
    obtain ⟨r, hx⟩ := Option.ne_none_iff_exists'.1 hx
    obtain ⟨hf, hj, -⟩ := hc hu r hx
    rcases joining_of_joined hr hu hlt with hf' | hj'
    · rw [hf] at hf'
      cases hf'
    · exact hj hj'
  · rintro (hn | hn) hu r hx
    · exact absurd hu hn
    · rw [hn] at hx
      cases hx

/-- One thread joins another one that has exited, or that exits afterwards, and then a third thread
exits that nobody has joined. -/
theorem join_exit_commute_iff_three_threads :
    (∃ h c, (system fun _ => 0).Run (fun _ _ => True) h c ∧ .slot 14 ∈ c.joined (.slot 15) ∧
      c.code (.slot 15) = some 7 ∧ c.sys.pc (.slot 15) = .none ∧
      ¬ c.Commutes (.slot 14) (.slot 15) ∧ c.code (.slot 13) = some 8 ∧
      c.Commutes (.slot 14) (.slot 13)) ∧
    ∃ h c, (system fun _ => 0).Run (fun _ _ => True) h c ∧ .slot 15 ∈ c.joined (.slot 14) ∧
      c.code (.slot 14) = some 7 ∧ ¬ c.Commutes (.slot 15) (.slot 14) := by
  constructor
  · obtain ⟨h, c, hr, hj, hx, hp, hl, hj', hx', hl'⟩ := TransitionSystem.exists_run_of_exec
      (M := system fun _ => 0) (G := fun _ _ => True)
      (s := ⟨Sys.boot fun _ => 0, fun _ => [], fun _ => none⟩) rfl
      [.create 1 1, .create 1 1, .create 1 1, .launch, .call (.thrdExit 7), .resume, .tick 0,
        .call (.thrdJoin (.slot 15)), .tick 0, .call (.thrdExit 8), .resume]
      (P := fun _ c => .slot 14 ∈ c.joined (.slot 15) ∧ c.code (.slot 15) = some 7 ∧
        c.sys.pc (.slot 15) = .none ∧ (c.joined (.slot 15)).length < numThreads ∧
        .slot 14 ∉ c.joined (.slot 13) ∧ c.code (.slot 13) = some 8 ∧
        (c.joined (.slot 13)).length < numThreads)
      (by decide +kernel)
    refine ⟨h, c, hr, hj, hx, hp, ?_, hx', (join_exit_commute_iff hr hl').2 (.inl hj')⟩
    intro hc
    rcases (join_exit_commute_iff hr hl).1 hc with hn | hn
    · exact hn hj
    · rw [hx] at hn
      cases hn
  · obtain ⟨h, c, hr, hj, hx, hl⟩ := TransitionSystem.exists_run_of_exec
      (M := system fun _ => 0) (G := fun _ _ => True)
      (s := ⟨Sys.boot fun _ => 0, fun _ => [], fun _ => none⟩) rfl
      [.create 1 1, .create 1 1, .launch, .call (.thrdJoin (.slot 14)), .tick 0,
        .call (.thrdExit 7)]
      (P := fun _ c => .slot 15 ∈ c.joined (.slot 14) ∧ c.code (.slot 14) = some 7 ∧
        (c.joined (.slot 14)).length < numThreads)
      (by decide +kernel)
    refine ⟨h, c, hr, hj, hx, ?_⟩
    intro hc
    rcases (join_exit_commute_iff hr hl).1 hc with hn | hn
    · exact hn hj
    · rw [hx] at hn
      cases hn

/-! ## The queue of a thread that exits -/

/-- Every run can be logged. -/
theorem exists_log {s : Sys} (hr : (MsTos.system vals).Run (fun _ _ => True) h s) :
    ∃ c, (system vals).Run (fun _ _ => True) h c ∧ c.sys = s := by
  refine hr.simulate (R := fun s (c : JoinLog) => c.sys = s) ?_ ?_
  · rintro s rfl
    exact ⟨_, rfl, rfl⟩
  · rintro s c a e s' rfl hs
    exact ⟨_, Option.map_eq_some_iff.2 ⟨_, hs, rfl⟩, rfl⟩

/-- When a thread calls `os_task_exit` in a run, the slot behind the handle of the only thread that
has joined it holds no handle. -/
theorem back_of_joined {s : Sys} {ws : List TaskId}
    (hr : (MsTos.system vals).Run (fun _ _ => True) h s) (hf : s.k.fault = false)
    (hu : s.pc t = .user) (hj : s.k.Joined t ws) (hw : ws.length = 1) :
    (s.k.sems (.join t)).wq.storage (s.k.sems (.join t)).wq.backIndex = none := by
  obtain ⟨c, hc, rfl⟩ := exists_log hr
  have hp := (run_pending hc).resolve_left (by simp [hf])
  have hcount : (c.sys.k.sems (.join t)).wq.count = 1 := hj.count.trans hw
  have hlive : c.code t = none := by
    by_contra hx
    rcases hp.gone t hx with h | h
    all_goals
      rw [hu] at h
      cases h
  have hlt : (c.joined t).length < numThreads := by
    by_contra hge
    have := hp.many t hlive (Nat.le_of_not_lt hge)
    rw [hcount] at this
    cases this
  rw [hp.few t hlt]
  exact List.getElem?_eq_none (le_refl _)

end JoinLog

end MsTos
