-- SUMMARY: Bounded overtaking: how often the scheduler selects others before a thread that is ready.
import Mathlib.Algebra.GroupWithZero.Nat
import MsTos.Cursor
import MsTos.CyclicOrder
import MsTos.Lib.Overtaking
import MsTos.Slices

namespace MsTos

/-! ## The run queue -/

namespace RunQueue

variable {q q' : RunQueue} {r r' : Round TaskId} {t u : TaskId}

theorem Turns.linked_iff (h : q.Turns r) : q.linked t = true ↔ t ∈ r.toList := h.holds.linked_iff

/-- Clearing the links of a task that is not linked changes nothing. -/
theorem Turns.elementInit (h : q.Turns r) (ht : q.linked t = false) :
    RunQueue.Turns { q with links := listElementInit q.links (.elem t) } r := by
  have hn : t ∉ r.toList := by
    rw [← h.linked_iff, ht]
    exact Bool.false_ne_true
  rw [h.holds.list.elementInit (mt elem_mem.1 hn)]
  exact h

/-- Adding and changing tasks keeps a cyclic sequence with a cursor. -/
theorem kept_turns : RunQueue.Kept fun q => ∃ r, q.Turns r where
  add := by
    rintro q u ⟨r, h⟩
    by_cases hu : u ∈ r.toList
    · rw [h.add_of_mem hu]
      exact ⟨r, h⟩
    · exact ⟨_, (h.add hu).2⟩
  changeTask := by
    rintro q ⟨r, h⟩
    by_cases hr : r.toList = []
    · exact ⟨r, h.holds.changeTask_holds, fun hn => absurd hr hn⟩
    · exact ⟨_, (h.changeTask hr).2⟩

/-- From the tasks of `r`, those of `js` have joined. -/
def Joined (r : Round TaskId) (t : TaskId) (js : List TaskId) (q : RunQueue) : Prop :=
  ∃ r', q.Turns r' ∧ r.Overtakes t js 0 r' ∧ r'.toList = r.toList ++ js.reverse

theorem Turns.joined (h : q.Turns r) : Joined r t [] q := ⟨r, h, .refl, by simp⟩

theorem Joined.add {js : List TaskId} (h : Joined r t js q) (u : TaskId) :
    ∃ js, Joined r t js (q.osAddTaskMmang u).2 := by
  obtain ⟨r', ht, ho, hl⟩ := h
  by_cases hu : u ∈ r'.toList
  · rw [ht.add_of_mem hu]
    exact ⟨js, r', ht, ho, hl⟩
  · exact ⟨u :: js, r'.join u, (ht.add hu).2, ho.join u hu, by simp [hl]⟩

/-- The tasks that have joined are linked now, and were not before. -/
theorem Joined.fresh {js : List TaskId} (h : Joined r t js q') (hq : q.Turns r) :
    js.Nodup ∧ ∀ u ∈ js, q.linked u = false ∧ q'.linked u = true := by
  obtain ⟨r', ht, -, hl⟩ := h
  have hn := ht.holds.nodup
  rw [hl] at hn
  obtain ⟨-, hjs, hdisj⟩ := List.nodup_append.1 hn
  refine ⟨List.nodup_reverse.1 hjs, ?_⟩
  intro u hu
  have hu' := List.mem_reverse.2 hu
  refine ⟨?_, ?_⟩
  · rw [Bool.eq_false_iff, ne_eq, hq.linked_iff]
    exact fun hm => hdisj u hm u hu' rfl
  · rw [ht.linked_iff, hl]
    exact List.mem_append_right _ hu'

end RunQueue

/-! ## The scheduler -/

namespace Kernel

variable {k : Kernel}

/-- `os_change_task` has been called, with some task active. -/
structure Changes (k k' : Kernel) : Prop where
  active : 0 < k.runQueue.taskActiveCnt
  runQueue : k'.runQueue = k.runQueue.osChangeTask.2
  runPtr : k'.runPtr = k.runQueue.osChangeTask.1

/-- `os_schedule` changes the task, or the cursor stays where it is and the running thread goes on or
is the idle thread. -/
theorem osSchedule_cases (k : Kernel) : k.Changes k.osSchedule ∨
    k.osSchedule.runQueue = k.runQueue ∧
      (k.osSchedule.runPtr = k.runPtr ∨ k.osSchedule.runPtr = some .idle) := by
  unfold osSchedule
  split
  · rename_i hpos
    unfold osNext
    split
    · exact .inr ⟨rfl, .inl rfl⟩
    · split
      · exact .inl ⟨hpos, rfl, rfl⟩
      · dsimp only
        split
        · exact .inl ⟨hpos, rfl, rfl⟩
        · exact .inr ⟨rfl, .inl rfl⟩
  · exact .inr ⟨rfl, .inr rfl⟩

theorem osFirstTask_cases (k : Kernel) : k.Changes k.osFirstTask ∨
    k.osFirstTask.runQueue = k.runQueue ∧ k.osFirstTask.runPtr = some .idle := by
  unfold osFirstTask
  split
  · rename_i hpos
    exact .inl ⟨hpos, rfl, rfl⟩
  · exact .inr ⟨rfl, rfl⟩

end Kernel

/-! ## Steps -/

namespace Sys

variable {s s' : Sys} {a : Action} {e : Option Event} {r : Round TaskId} {t u : TaskId}

/-- A thread is created in a slot that is not linked, and a thread that leaves the run queue is the
one under its cursor. -/
def TurnGuard (s : Sys) (a : Action) : Prop :=
  (creates a = true → s.AllocOk) ∧
    ∀ t, s.deletes a t = true → s.k.runQueue.current = some (.elem t)

instance (s : Sys) (a : Action) : Decidable (s.TurnGuard a) := inferInstanceAs (Decidable (_ ∧ _))

/-- A step that passes the running thread to `os_del_task_mmang` links nobody. -/
theorem step_deletes (hd : s.deletes a t = true) (hs : s.step a = some (e, s')) :
    s'.k.runQueue = s.k.runQueue ∨ s'.k.runQueue = (s.k.runQueue.osDelTaskMmang t).2 := by
  cases (steps_of_step hs).2 with
  | create | launch | tick => cases hd
  | @call u c hr hpc hp =>
      obtain ⟨hrt, hc⟩ : s.k.runPtr = some t ∧ s.callDeletes c = true := of_decide_eq_true hd
      cases c with
      | semWait n =>
          simp only [stepCall, complete_k]
          exact Kernel.semWait_keeps (P := fun q => q = _ ∨ q = _) (.inl rfl) hrt fun _ => .inr rfl
      | thrdJoin other =>
          exact Kernel.semWait_keeps (P := fun q => q = _ ∨ q = _) (.inl rfl) hrt fun _ => .inr rfl
      | semTimedwait n timeout =>
          exact Kernel.semTimedwaitEnter_keeps (P := fun q => q = _ ∨ q = _) (.inl rfl) hrt _
            fun _ _ => .inr rfl
      | mtxLock m =>
          simp only [stepCall, complete_k]
          exact Kernel.mtxLock_keeps (P := fun q => q = _ ∨ q = _) (.inl rfl) hrt fun _ => .inr rfl
      | mtxTimedlock m timeout =>
          exact Kernel.mtxTimedlockEnter_keeps (P := fun q => q = _ ∨ q = _) (.inl rfl) hrt _
            fun _ _ => .inr rfl
      | _ => cases hc
  | @resume u _ _ hr hp hres =>
      obtain ⟨hrt, hc⟩ : s.k.runPtr = some t ∧ s.resumeDeletes t = true := of_decide_eq_true hd
      cases hr.symm.trans hrt
      cases resumes_of_stepResume hres with
      | sleepPause ticks hpc =>
          rw [complete_k]
          exact .inr rfl
      | kill hpc =>
          exact Kernel.osTaskKill_keeps (P := fun q => q = _ ∨ q = _) hr (.inr rfl)
      | ret _ _ hpc | semTimedwait _ _ _ hpc | mtxTimedlock _ _ _ hpc | mtxPanic _ _ _ hpc
      | join _ hpc => simp [resumeDeletes, hpc] at hc

/-- Creation keeps the tasks in their turns. -/
theorem createKeeps_joined (h : s.k.runQueue.Turns r) (hg : s.TurnGuard a) :
    s.CreateKeeps (fun q => ∃ js, RunQueue.Joined r t js q) a := by
  intro hc i hi
  exact ⟨[], (h.elementInit ((hg.1 hc).not_linked i hi)).joined⟩

/-- Between the calls of the scheduler, threads join, or the one under the cursor leaves. -/
theorem step_joined (h : s.k.runQueue.Turns r) (hg : s.TurnGuard a)
    (hs : s.step a = some (e, s')) (ha : a ≠ .launch ∧ ∀ sp, a ≠ .tick sp)
    (hl : s'.k.runQueue.linked t = true) :
    (∃ js, RunQueue.Joined r t js s'.k.runQueue) ∨
      r.cursor ≠ some t ∧ s'.k.runQueue.Turns r.leave := by
  have hadd : RunQueue.AddKept fun q => ∃ js, RunQueue.Joined r t js q := by
    rintro q u ⟨js, hj⟩
    exact hj.add u
  have hq : ∃ js, RunQueue.Joined r t js s.k.runQueue := ⟨[], h.joined⟩
  by_cases hd : ∃ u, s.deletes a u = true
  · obtain ⟨u, hd⟩ := hd
    rcases step_deletes hd hs with hq' | hq'
    · exact .inl (by rw [hq']; exact hq)
    · by_cases hr : r.toList = []
      · refine .inl ⟨[], ?_⟩
        rw [hq']
        exact (h.del_of_nil hr).2.joined
      · have hc := h.cursor_of_current hr (hg.2 u hd)
        have ht := (h.del hc).2
        rw [← hq'] at ht
        refine .inr ⟨?_, ht⟩
        intro hct
        cases hc.symm.trans hct
        have hm := ht.linked_iff.1 hl
        rw [Round.leave_toList hc h.holds.nodup] at hm
        exact h.holds.nodup.not_mem_erase hm
  · left
    have hd : ∀ u, s.deletes a u = true → ∃ js, RunQueue.Joined r t js
        (s.k.runQueue.osDelTaskMmang u).2 := fun u hu => absurd ⟨u, hu⟩ hd
    cases (steps_of_step hs).2 with
    | launch => exact absurd rfl ha.1
    | tick sp => exact absurd rfl (ha.2 sp)
    | create routine priority hr =>
        rw [spawn_k]
        exact Kernel.thrdCreate_keeps (P := fun q => ∃ js, RunQueue.Joined r t js q) hadd hq
          fun hr hp => createKeeps_joined h hg (decide_eq_true ⟨hr, hp⟩)
    | call c hr hpc hp =>
        exact stepCall_keeps (P := fun q => ∃ js, RunQueue.Joined r t js q) hadd c hq hr
          (createKeeps_joined h hg) fun hcd => hd _ (decide_eq_true ⟨hr, hcd⟩)
    | resume hr hp hres =>
        exact stepResume_keeps (P := fun q => ∃ js, RunQueue.Joined r t js q) hadd hq hr
          (fun hrd => hd _ (decide_eq_true ⟨hr, hrd⟩)) hres

/-- A step selects another thread, which is not the idle one. -/
def Switched (s s' : Sys) : Prop := s'.k.runPtr ≠ s.k.runPtr ∧ s'.k.runPtr ≠ some .idle

instance (s s' : Sys) : Decidable (s.Switched s') := inferInstanceAs (Decidable (_ ∧ _))

/-- The threads that a step links. -/
def joiners (s s' : Sys) : Finset TaskId :=
  {u | s.k.runQueue.linked u = false ∧ s'.k.runQueue.linked u = true}

theorem step_not_switched (hs : s.step a = some (e, s')) (ha : a ≠ .launch ∧ ∀ sp, a ≠ .tick sp) :
    ¬ s.Switched s' := by
  refine fun h => h.1 ?_
  cases hr : s.k.runPtr with
  | some t => exact step_runPtr hs ha.2 hr
  | none =>
      cases (steps_of_step hs).2 with
      | create r p _ =>
          rw [spawn_k, Kernel.thrdCreate_runPtr, hr]
      | launch => exact absurd rfl ha.1
      | call _ hr' | resume hr' | tick _ hr' => cases hr.symm.trans hr'

/-- What a step does to the turns, as long as `t` neither leaves nor is selected. -/
def Passes (s : Sys) (r : Round TaskId) (t : TaskId) (s' : Sys) : Prop :=
  ∃ r' js n, s'.k.runQueue.Turns r' ∧ r.Overtakes t js n r' ∧ (s.Switched s' → 0 < n) ∧
    js.length ≤ (s.joiners s').card

theorem joined_length {js : List TaskId}
    (hf : js.Nodup ∧ ∀ u ∈ js, s.k.runQueue.linked u = false ∧ s'.k.runQueue.linked u = true) :
    js.length ≤ (s.joiners s').card := by
  rw [← List.toFinset_card_of_nodup hf.1]
  refine Finset.card_le_card fun u hu => ?_
  exact Finset.mem_filter.2 ⟨Finset.mem_univ u, hf.2 u (List.mem_toFinset.1 hu)⟩

/-- The scheduler is called after the threads of `js` have joined. -/
theorem passes_of_schedule (k k' : Kernel) {js : List TaskId} (h : s.k.runQueue.Turns r)
    (hj : RunQueue.Joined r t js k.runQueue) (hs' : s'.k.runQueue = k'.runQueue)
    (hrun : s'.k.runPtr = k'.runPtr) (hn : s'.k.runPtr ≠ some t)
    (hk : k.Changes k' ∨ k'.runQueue = k.runQueue ∧
      (k'.runPtr = s.k.runPtr ∨ k'.runPtr = some .idle)) : s.Passes r t s' := by
  have hfresh := hj.fresh h
  obtain ⟨r', ht, ho, hl⟩ := hj
  rcases hk with hc | ⟨hq, hr⟩
  · have hne : r'.toList ≠ [] := by
      have hpos := hc.active
      rw [ht.holds.count] at hpos
      exact List.ne_nil_of_length_pos hpos
    obtain ⟨hcur, ht'⟩ := ht.changeTask hne
    rw [← hc.runPtr, ← hrun] at hcur
    rw [← hc.runQueue, ← hs'] at ht'
    refine ⟨r'.advance, js, 1, ht', ho.advance (hcur ▸ hn), fun _ => Nat.one_pos, ?_⟩
    refine joined_length ⟨hfresh.1, fun u hu => ⟨(hfresh.2 u hu).1, ?_⟩⟩
    rw [ht'.linked_iff, Round.advance_toList, ← ht.linked_iff]
    exact (hfresh.2 u hu).2
  · rw [← hs'] at hq
    refine ⟨r', js, 0, by rw [hq]; exact ht, ho, ?_, ?_⟩
    · rintro ⟨h₁, h₂⟩
      rw [hrun] at h₁ h₂
      rcases hr with hr | hr
      · exact absurd hr h₁
      · exact absurd hr h₂
    · exact joined_length (by rw [hq]; exact hfresh)

theorem step_passes (h : s.k.runQueue.Turns r) (hg : s.TurnGuard a)
    (hs : s.step a = some (e, s')) (hl : s'.k.runQueue.linked t = true)
    (hn : s'.k.runPtr ≠ some t) : s.Passes r t s' := by
  by_cases ha : a ≠ .launch ∧ ∀ sp, a ≠ .tick sp
  · have hsw := step_not_switched hs ha
    rcases step_joined h hg hs ha hl with ⟨js, hj⟩ | ⟨hc, ht⟩
    · have hfresh := hj.fresh h
      obtain ⟨r', ht, ho, -⟩ := hj
      exact ⟨r', js, 0, ht, ho, fun hs => absurd hs hsw, joined_length hfresh⟩
    · exact ⟨r.leave, [], 0, ht, .leave .refl hc, fun hs => absurd hs hsw, Nat.zero_le _⟩
  · cases (steps_of_step hs).2 with
    | create | call | resume => exact absurd ⟨nofun, nofun⟩ ha
    | launch hr =>
        refine passes_of_schedule s.k s.k.osFirstTask h h.joined rfl rfl hn ?_
        rcases s.k.osFirstTask_cases with hc | ⟨hq, hi⟩
        · exact .inl hc
        · exact .inr ⟨hq, .inr hi⟩
    | tick sp hr hgie =>
        have hadd : RunQueue.AddKept fun q => ∃ js, RunQueue.Joined r t js q := by
          rintro q u ⟨js, hj⟩
          exact hj.add u
        obtain ⟨js, hj⟩ := Kernel.osUpdate_keeps (k := save s.k sp) hadd ⟨[], h.joined⟩
        refine passes_of_schedule (save s.k sp).osUpdate (save s.k sp).osUpdate.osSchedule h hj
          rfl rfl hn ?_
        rcases (save s.k sp).osUpdate.osSchedule_cases with hc | ⟨hq, hi⟩
        · exact .inl hc
        · refine .inr ⟨hq, hi.imp_left fun hi => ?_⟩
          rw [hi, Kernel.osUpdate_runPtr]
          rfl

/-! ## Runs -/

/-- `t` is ready after the step, and has not been selected. -/
def PassedOver (t : TaskId) (s : Sys) (a : Action) : Prop :=
  ∀ r ∈ s.step a, r.2.k.runQueue.linked t = true ∧ r.2.k.runPtr ≠ some t

instance (t : TaskId) (s : Sys) (a : Action) : Decidable (s.PassedOver t a) :=
  inferInstanceAs (Decidable (∀ r ∈ s.step a, _))

/-- What is counted of a step: whether another thread is selected, and how many threads are
linked. -/
structure Turnover where
  selected : Nat
  linked : Nat

def turnover (s : Sys) (a : Action) : Turnover :=
  match s.step a with
  | none => ⟨0, 0⟩
  | some (_, s') => ⟨if s.Switched s' then 1 else 0, (s.joiners s').card⟩

variable {vals : Nat → Nat} {h : List (Option Event)} {hs : List Turnover}

theorem boot_turns (vals : Nat → Nat) : (boot vals).k.runQueue.Turns ⟨[], []⟩ :=
  ⟨⟨isList_init fun _ => rfl, rfl⟩, fun hn => absurd rfl hn⟩

theorem run_turns (hr : (system vals).Run TurnGuard h s) : ∃ r, s.k.runQueue.Turns r := by
  refine hr.invariant (P := fun _ s => ∃ r, s.k.runQueue.Turns r) ?_ ?_
  · rintro s rfl
    exact ⟨_, boot_turns vals⟩
  · rintro h s a e s' ⟨r, ht⟩ hg hs
    refine step_keeps RunQueue.kept_turns ⟨r, ht⟩ ?_ ?_ hs
    · intro hc i hi
      exact ⟨r, ht.elementInit ((hg.1 hc).not_linked i hi)⟩
    · intro t hd
      by_cases hr : r.toList = []
      · exact ⟨r, (ht.del_of_nil hr).2⟩
      · exact ⟨_, (ht.del (ht.cursor_of_current hr (hg.2 t hd))).2⟩

/-- The turns of others along a run in which `t` is passed over. -/
theorem run_passes (ht : s.k.runQueue.Turns r) (hr : (((system vals).observe turnover).startedAt s).Run
      (fun s a => s.TurnGuard a ∧ s.PassedOver t a) hs s') :
    ∃ r' js n, s'.k.runQueue.Turns r' ∧ r.Overtakes t js n r' ∧
      (hs.map Turnover.selected).sum ≤ n ∧ js.length ≤ (hs.map Turnover.linked).sum := by
  refine hr.invariant (P := fun hs s' => ∃ r' js n, s'.k.runQueue.Turns r' ∧
    r.Overtakes t js n r' ∧ (hs.map Turnover.selected).sum ≤ n ∧
      js.length ≤ (hs.map Turnover.linked).sum) ?_ ?_
  · rintro s' rfl
    exact ⟨r, [], 0, ht, .refl, by simp, by simp⟩
  · rintro hs s₁ a c s₂ ⟨r₁, js, n, ht, ho, hsel, hjs⟩ ⟨hg, hp⟩ hstep
    obtain ⟨rfl, e, hs₂⟩ := TransitionSystem.observe_step (M := system vals) hstep
    have hs₂ : s₁.step a = some (e, s₂) := hs₂
    obtain ⟨hl, hn⟩ := hp _ hs₂
    obtain ⟨r₂, js', n', ht₂, ho', hpos, hjs'⟩ := step_passes ht hg hs₂ hl hn
    refine ⟨r₂, js' ++ js, n + n', ht₂, ho.trans ho', ?_, ?_⟩
    · simp only [turnover, hs₂, List.map_cons, List.sum_cons]
      split
      · rename_i hsw
        have := hpos hsw
        omega
      · omega
    · simp only [turnover, hs₂, List.map_cons, List.sum_cons, List.length_append]
      omega

/-- One step more of a run in which `t` is passed over. -/
theorem passes_step {a : Action} {e : Option Event} {s'' : Sys}
    (hr : (((system vals).observe turnover).startedAt s).Run
      (fun s a => s.TurnGuard a ∧ s.PassedOver t a) hs s')
    (hg : s'.TurnGuard a) (hp : s'.PassedOver t a) (hs' : s'.step a = some (e, s'')) :
    (((system vals).observe turnover).startedAt s).Run
      (fun s a => s.TurnGuard a ∧ s.PassedOver t a) (s'.turnover a :: hs) s'' := by
  refine hr.step ⟨hg, hp⟩ ?_
  show ((s'.step a).map fun r => (s'.turnover a, r.2)) = _
  rw [hs']
  rfl

end Sys

end MsTos
