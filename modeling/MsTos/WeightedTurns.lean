-- SUMMARY: Weighted round robin: the task that runs after any number of calls of the scheduler.
import MsTos.CyclicOrder
import MsTos.Lib.RoundRobin

namespace MsTos

namespace Kernel

variable {k : Kernel} {w : TaskId → Nat} {s : RoundRobin TaskId} {ts : List TaskId} {t : TaskId}

/-- `os_add_task_mmang` of every task of `ts`. -/
def addTasks (k : Kernel) (ts : List TaskId) : Kernel :=
  ts.foldl (fun k t => (k.osAddTaskMmang (some t)).2) k

/-- `m` calls of `os_schedule` after `os_first_task`. -/
def scheduled (k : Kernel) (m : Nat) : Kernel := osSchedule^[m] k.osFirstTask

/-! ## Adding the tasks -/

theorem addTasks_thrds (k : Kernel) (ts : List TaskId) : (k.addTasks ts).thrds = k.thrds := by
  induction ts generalizing k with
  | nil => rfl
  | cons t ts ih => exact ih _

theorem addTasks_turns {r : Round TaskId} (h : k.runQueue.Turns r)
    (hn : (r.toList ++ ts).Nodup) :
    (k.addTasks ts).runQueue.Turns { r with ahead := r.ahead ++ ts } := by
  induction ts generalizing k r with
  | nil => simpa [addTasks] using h
  | cons t ts ih =>
      have ht : t ∉ r.toList := by
        rw [List.nodup_middle, List.nodup_cons, List.mem_append, not_or] at hn
        exact hn.1.1
      have hadd : (k.osAddTaskMmang (some t)).2.runQueue.Turns (r.join t) := (h.add ht).2
      have hts := ih hadd (by simpa using hn)
      rw [Round.join, List.append_assoc] at hts
      exact hts

/-! ## Turns -/

/-- What a store to another field of a thread leaves as it is. -/
theorem update_field {β : Type} (f : Thrd → β) {thrds : TaskId → Thrd} {thrd : Thrd}
    (hf : f thrd = f (thrds t)) (u : TaskId) : f (Function.update thrds t thrd u) = f (thrds u) := by
  rcases eq_or_ne u t with rfl | hut
  · rw [Function.update_self, hf]
  · rw [Function.update_of_ne hut]

/-- The scheduler is where the weighted round robin `s` is. -/
structure Follows (w : TaskId → Nat) (k : Kernel) (s : RoundRobin TaskId) : Prop where
  turns : k.runQueue.Turns s.round
  run : k.runPtr = s.round.cursor
  active : ∀ t ∈ s.round.toList, (k.thrds t).state = .ACTIVE
  fixed : ∀ t ∈ s.round.toList, (k.thrds t).fixedPrio = w t
  left : ∀ t, s.round.cursor = some t → (k.thrds t).workingPrio = s.left
  full : ∀ t ∈ s.round.toList, s.round.cursor ≠ some t → (k.thrds t).workingPrio = w t

/-- `os_change_task` begins the next turn, once no task has begun one. -/
theorem follows_turn {r : Round TaskId} (h : k.runQueue.Turns r) (hr : r.toList ≠ [])
    (ha : ∀ t ∈ r.toList, (k.thrds t).state = .ACTIVE)
    (hf : ∀ t ∈ r.toList, (k.thrds t).fixedPrio = w t)
    (hw : ∀ t ∈ r.toList, (k.thrds t).workingPrio = w t) :
    k.osChangeTask.Follows w (RoundRobin.turn w r) := by
  obtain ⟨hc, ht⟩ := h.changeTask hr
  have hmem : ∀ {t}, t ∈ r.advance.toList ↔ t ∈ r.toList := by
    intro t
    rw [Round.advance_toList]
  refine ⟨ht, hc, fun t ht => ha t (hmem.1 ht), fun t ht => hf t (hmem.1 ht), ?_, ?_⟩
  · intro t hcur
    rw [RoundRobin.turn, show r.advance.cursor = some t from hcur]
    exact hw t (hmem.1 (Round.mem_of_cursor hcur))
  · intro t ht _
    exact hw t (hmem.1 ht)

theorem Follows.schedule (h : k.Follows w s) (ht : s.round.cursor = some t) (hpos : 0 < s.left)
    (hlt : s.left < wordSize) : k.osSchedule.Follows w (s.tick w) := by
  have hm := Round.mem_of_cursor ht
  have hcnt : k.runQueue.taskActiveCnt > 0 := by
    rw [h.turns.holds.count]
    exact List.length_pos_of_mem hm
  have hrun : k.runPtr = some t := h.run.trans ht
  have hwork : ((k.thrds t).workingPrio + (wordSize - 1)) % wordSize = s.left - 1 := by
    rw [h.left t ht]
    simp only [wordSize] at *
    omega
  have hactive : ¬ ((k.thrds t).state = .BLOCKING ∨ (k.thrds t).state = .SLEEPING) := by
    simp [h.active t hm]
  rw [osSchedule, if_pos hcnt]
  simp only [osNext, hrun, if_neg hactive, setThrd, Function.update_self, Function.update_idem,
    hwork]
  rw [RoundRobin.tick]
  split
  · -- the turn is over, and the priority of the task is loaded again
    refine follows_turn (w := w) h.turns (List.ne_nil_of_mem hm) ?_ ?_ ?_
    · intro u hu
      refine (update_field Thrd.state ?_ u).trans (h.active u hu)
      rfl
    · intro u hu
      refine (update_field Thrd.fixedPrio ?_ u).trans (h.fixed u hu)
      rfl
    · intro u hu
      rcases eq_or_ne u t with rfl | hut
      · simpa using h.fixed u hu
      · simpa [hut] using h.full u hu (by simpa [ht] using hut.symm)
  · refine ⟨h.turns, ht.symm, ?_, ?_, ?_, ?_⟩
    · intro u hu
      refine (update_field Thrd.state ?_ u).trans (h.active u hu)
      rfl
    · intro u hu
      refine (update_field Thrd.fixedPrio ?_ u).trans (h.fixed u hu)
      rfl
    · intro u hu
      obtain rfl : t = u := Option.some.inj (ht.symm.trans hu)
      simp
    · intro u hu hcur
      have hut : u ≠ t := fun he => hcur (he ▸ ht)
      simpa [hut] using h.full u hu hcur

/-! ## The schedule -/

/-- No task runs, and the tasks of `ts` are ready: each has its whole priority left. -/
structure Ready (k : Kernel) (ts : List TaskId) : Prop where
  empty : k.runQueue.Holds []
  nodup : ts.Nodup
  active : ∀ t ∈ ts, (k.thrds t).state = .ACTIVE
  working : ∀ t ∈ ts, (k.thrds t).workingPrio = (k.thrds t).fixedPrio
  pos : ∀ t ∈ ts, 0 < (k.thrds t).fixedPrio
  lt : ∀ t ∈ ts, (k.thrds t).fixedPrio < wordSize

/-- The priority of a task. -/
abbrev prio (k : Kernel) (t : TaskId) : Nat := (k.thrds t).fixedPrio

theorem Ready.turns (h : k.Ready ts) : (k.addTasks ts).runQueue.Turns ⟨[], ts⟩ :=
  addTasks_turns (r := ⟨[], []⟩) ⟨h.empty, fun hn => absurd rfl hn⟩ (by simpa [Round.toList] using h.nodup)

theorem Ready.scheduled (h : k.Ready ts) (hne : ts ≠ []) (m : Nat) :
    ((k.addTasks ts).scheduled m).Follows k.prio
      ((RoundRobin.tick k.prio)^[m] (RoundRobin.turn k.prio ⟨[], ts⟩)) := by
  induction m with
  | zero =>
      have hcnt : (k.addTasks ts).runQueue.taskActiveCnt > 0 := by
        rw [h.turns.holds.count]
        exact List.length_pos_of_ne_nil hne
      show (k.addTasks ts).osFirstTask.Follows _ _
      rw [osFirstTask, if_pos hcnt]
      refine follows_turn h.turns hne ?_ ?_ ?_
      · intro t ht
        rw [addTasks_thrds]
        exact h.active t ht
      · intro t _
        rw [addTasks_thrds]
      · intro t ht
        rw [addTasks_thrds]
        exact h.working t ht
  | succ m ih =>
      obtain ⟨t, ht⟩ := RoundRobin.at_iterate hne h.pos m
      rw [Kernel.scheduled, Function.iterate_succ_apply', Function.iterate_succ_apply']
      refine ih.schedule ht.cursor ht.left_pos ?_
      obtain ⟨l₁, l₂, -, -, -, hle⟩ := ht.split
      exact hle.trans_lt (h.lt t ht.mem)

theorem Ready.runPtr (h : k.Ready ts) (hne : ts ≠ []) (m : Nat) :
    ((k.addTasks ts).scheduled m).runPtr = RoundRobin.cursorAt k.prio ts m :=
  (h.scheduled hne m).run

/-- Exact weighted round robin. -/
theorem weighted_round_robin (h : k.Ready ts) (hne : ts ≠ []) :
    (∀ m l₁ t l₂, ts = l₁ ++ t :: l₂ →
      (((k.addTasks ts).scheduled m).runPtr = some t ↔
        RoundRobin.total k.prio l₁ ≤ m % RoundRobin.total k.prio ts ∧
          m % RoundRobin.total k.prio ts < RoundRobin.total k.prio l₁ + k.prio t)) ∧
    (∀ m, ∃ t ∈ ts, ((k.addTasks ts).scheduled m).runPtr = some t) ∧
    (.idle ∉ ts → ∀ m, ((k.addTasks ts).scheduled m).runPtr ≠ some .idle) ∧
    ∀ m t, t ∈ ts → ((Finset.Ico m (m + RoundRobin.total k.prio ts)).filter fun i =>
      ((k.addTasks ts).scheduled i).runPtr = some t).card = k.prio t := by
  have hmem : ∀ m, ∃ t ∈ ts, ((k.addTasks ts).scheduled m).runPtr = some t := by
    intro m
    rw [h.runPtr hne]
    exact RoundRobin.cursorAt_mem hne h.pos m
  refine ⟨?_, hmem, ?_, ?_⟩
  · rintro m l₁ t l₂ rfl
    rw [h.runPtr hne]
    exact RoundRobin.cursorAt_iff h.nodup h.pos m
  · intro hidle m hm
    obtain ⟨t, ht, hrun⟩ := hmem m
    cases hm.symm.trans hrun
    exact hidle ht
  · intro m t ht
    simp only [h.runPtr hne]
    exact RoundRobin.card_window h.nodup h.pos ht m

/-- Two tasks of priorities 2 and 3. -/
theorem weighted_round_robin_two : ∃ k : Kernel, k.Ready [.slot 0, .slot 1] ∧
    ∀ m, ((k.addTasks [.slot 0, .slot 1]).scheduled m).runPtr = some (.slot 1) ↔
      2 ≤ m % 5 ∧ m % 5 < 5 := by
  have hready : Ready { (Sys.ram fun _ => 0).osMemInit with
      thrds := fun t => if t = .slot 0 then ⟨0, 2, 2, 2, .ACTIVE⟩ else ⟨0, 3, 3, 3, .ACTIVE⟩ }
      [.slot 0, .slot 1] :=
    ⟨⟨isList_init fun _ => rfl, rfl⟩, by decide, by decide, by decide, by decide, by decide⟩
  refine ⟨_, hready, fun m => ?_⟩
  exact (weighted_round_robin hready (by simp)).1 m [.slot 0] (.slot 1) [] rfl

end Kernel

end MsTos
