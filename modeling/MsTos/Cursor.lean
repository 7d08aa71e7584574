-- SUMMARY: The cursor of the round robin scheduler over whole runs: when it stays on a linked element, and how it is left dangling.
import MsTos.RunQueueInvariant

namespace MsTos

namespace RunQueue

/-- The run queue is a well formed list with its cursor in order. -/
def Ok (q : RunQueue) : Prop := ∃ l, q.Holds l ∧ q.CursorOk l

variable {q : RunQueue} {t : TaskId}

theorem Ok.add (h : q.Ok) (t : TaskId) : (q.osAddTaskMmang t).2.Ok := by
  obtain ⟨l, hl, hc⟩ := h
  by_cases ht : t ∈ l
  · rw [hl.add_of_mem ht]
    exact ⟨l, hl, hc⟩
  · exact ⟨l ++ [t], (hl.add ht).2, hc.add hl ht⟩

theorem Ok.del (h : q.Ok) (hk : q.DelKeepsCursor t) : (q.osDelTaskMmang t).2.Ok := by
  obtain ⟨l, hl, hc⟩ := h
  by_cases ht : t ∈ l
  · obtain ⟨c, -, hq⟩ := hc.mem (List.ne_nil_of_mem ht)
    exact ⟨l.erase t, (hl.del ht (by simp [hq])).2, hc.del hl ht hk⟩
  · exact ⟨l, hl.del_of_notMem ht, hc.del_of_notMem hl ht⟩

theorem Ok.changeTask (h : q.Ok) : (q.osChangeTask).2.Ok := by
  obtain ⟨l, hl, hc⟩ := h
  by_cases hne : l = []
  · subst hne
    refine ⟨[], ?_, fun h => absurd rfl h⟩
    simp only [osChangeTask]
    split
    · exact hl
    · exact ⟨hl.list, hl.count⟩
  · obtain ⟨t, ht, he⟩ := hc.changeTask hl hne
    rw [he]
    exact ⟨l, ⟨hl.list, hl.count⟩, fun _ => .inr ⟨t, ht, rfl⟩⟩

/-- Clearing the links of a task that is not linked does not disturb the list. -/
theorem Ok.elementInit (hq : q.Ok) (ht : q.linked t = false) :
    RunQueue.Ok { q with links := listElementInit q.links (.elem t) } := by
  obtain ⟨l, hl, hc⟩ := hq
  have hn : t ∉ l := by
    rw [← hl.linked_iff, ht]
    simp
  rw [hl.list.elementInit (mt elem_mem.1 hn)]
  exact ⟨l, hl, hc⟩

end RunQueue

/-! ## Runs -/

namespace Sys

variable {s s' : Sys} {a : Action} {e : Option Event}

/-- Every thread is created in a slot that is not linked, and every unlinking leaves the cursor
on a linked element. -/
def CursorGuard (s : Sys) (a : Action) : Prop :=
  (creates a = true → s.AllocOk) ∧ ∀ t, s.deletes a t = true → s.k.runQueue.DelKeepsCursor t

instance (s : Sys) (a : Action) : Decidable (s.CursorGuard a) :=
  inferInstanceAs (Decidable (_ ∧ _))

theorem boot_ok (vals : Nat → Nat) : (boot vals).k.runQueue.Ok :=
  ⟨[], ⟨isList_init fun _ => rfl, rfl⟩, fun h => absurd rfl h⟩

/-- Where `AllocOk` holds, the slot that the pool hands out is not linked. -/
theorem AllocOk.not_linked (ha : s.AllocOk) (i : Fin numThreads)
    (hi : itemAt (poolAlloc s.k.taskMem).1 = some i) : s.k.runQueue.linked (.slot i) = false := by
  unfold poolAlloc slistRemoveHead at hi
  cases ha with
  | inl h0 =>
      rw [if_pos h0] at hi
      cases hi
  | inr hj =>
      obtain ⟨j, hj, -, hl⟩ := hj
      have hne : s.k.taskMem.freeList ≠ 0 := by
        intro h0
        rw [h0] at hj
        cases hj
      rw [if_neg hne, hj] at hi
      cases hi
      exact hl

/-- A step that meets the guard keeps the run queue and its cursor in order. -/
theorem step_ok (hk : s.k.runQueue.Ok) (hg : s.CursorGuard a) (hs : s.step a = some (e, s')) :
    s'.k.runQueue.Ok := by
  refine step_keeps ⟨fun _ t h => h.add t, fun h => h.changeTask⟩ hk ?_ ?_ hs
  · intro hc i hi
    exact hk.elementInit ((hg.1 hc).not_linked i hi)
  · intro t hd
    exact hk.del (hg.2 t hd)

/-- Along every run that meets the guard, the run queue and its cursor are in order. -/
theorem run_ok {vals : Nat → Nat} {h : List (Option Event)}
    (hr : (system vals).Run CursorGuard h s) : s.k.runQueue.Ok := by
  refine hr.invariant (P := fun _ s => s.k.runQueue.Ok) ?_ ?_
  · rintro s rfl
    exact boot_ok vals
  · intro h s a e s' hk hg hs
    exact step_ok hk hg hs

/-- While a task is active, the cursor is on the head or on a linked element, and `os_change_task`
would select a linked task. -/
theorem cursor_on_linked {vals : Nat → Nat} {h : List (Option Event)}
    (hr : (system vals).Run CursorGuard h s) (hpos : 0 < s.k.runQueue.taskActiveCnt) :
    (s.k.runQueue.current = some .head ∨
      ∃ t, s.k.runQueue.linked t = true ∧ s.k.runQueue.current = some (.elem t)) ∧
    ∃ t, s.k.runQueue.linked t = true ∧ s.k.osChangeTask.runPtr = some t ∧
      s.k.osChangeTask.fault = s.k.fault := by
  obtain ⟨l, hl, hc⟩ := run_ok hr
  have hne : l ≠ [] := by
    rintro rfl
    simp [hl.count] at hpos
  refine ⟨?_, ?_⟩
  · cases hc hne with
    | inl hh => exact .inl hh
    | inr hu =>
        obtain ⟨u, hu, hcur⟩ := hu
        exact .inr ⟨u, hl.linked_iff.2 hu, hcur⟩
  · obtain ⟨u, hu, he⟩ := hc.changeTask hl hne
    exact ⟨u, hl.linked_iff.2 hu, by simp [Kernel.osChangeTask, he]⟩

/-- One thread sleeps, is woken and posts; another one blocks, is woken by that post and exits. Each
time an element is removed from the run queue. -/
theorem cursor_on_linked_three_threads :
    ∃ h s, (system fun _ => 0).Run CursorGuard h s ∧ s.pc (.slot 14) = .none ∧
      s.k.runQueue.linked (.slot 14) = false ∧ s.k.runQueue.taskActiveCnt = 2 ∧
      (s.k.runQueue.current = some .head ∨
        ∃ t, s.k.runQueue.linked t = true ∧ s.k.runQueue.current = some (.elem t)) ∧
      ∃ t, s.k.runQueue.linked t = true ∧ s.k.osChangeTask.runPtr = some t ∧
        s.k.osChangeTask.fault = s.k.fault := by
  rcases exists_run (fun _ => 0) (G := CursorGuard)
    [.create 1 1, .create 1 1, .create 1 2, .launch, .call (.thrdSleep 2), .resume, .tick 0,
      .call (.semWait 0), .tick 0, .resume, .call (.semPost 0), .tick 0, .resume,
      .call (.thrdExit 3), .resume]
    (P := fun _ s => s.pc (.slot 14) = .none ∧ s.k.runQueue.linked (.slot 14) = false ∧
      s.k.runQueue.taskActiveCnt = 2) (by decide +kernel) with ⟨h, s, hr, hpc, hl, hc⟩
  have hpos : 0 < s.k.runQueue.taskActiveCnt := hc ▸ Nat.two_pos
  exact ⟨h, s, hr, hpc, hl, hc, cursor_on_linked hr hpos⟩

/-- `A` (priority 1) and `B` (priority 2) run. `B` sleeps for one tick and is woken in the tick in
which it yields: it is linked again behind `A`, but keeps the rest of its slice while the cursor
stays on `A`. When it sleeps again, the cursor moves back onto `B` itself, which is unlinked. -/
theorem cursor_on_unlinked :
    ∃ h s, (system fun _ => 0).Run (fun _ _ => True) h s ∧ 0 < s.k.runQueue.taskActiveCnt ∧
      s.k.runQueue.current = some (.elem (.slot 14)) ∧
      s.k.runQueue.linked (.slot 14) = false ∧ s.k.osChangeTask.fault = true :=
  exists_run (fun _ => 0)
    [.create 1 1, .create 1 2, .launch, .tick 0, .call (.thrdSleep 1), .resume, .tick 0, .resume,
      .call (.thrdSleep 2), .resume]
    (by decide +kernel)

end Sys

end MsTos
