-- SUMMARY: The window between the two critical sections of `os_task_sleep`: which ticks in it lose the wake-up.
import MsTos.Cursor
import MsTos.WakeTick

namespace MsTos

namespace Kernel

variable {k : Kernel} {c : TaskId}

/-! ## The two critical sections -/

theorem osTaskSleepEnter_sleepQueue (c : TaskId) (t : Nat) :
    (k.osTaskSleepEnter (some c) t).sleepQueue = (k.sleepQueue.push t ⟨some c, t⟩).2 := rfl

/-- The first one gives the thread its one entry. -/
theorem osTaskSleepEnter_entry (hfew : k.sleepQueue.count < 15)
    (hc : some c ∉ k.sleepQueue.handles) (t : Nat) :
    (k.osTaskSleepEnter (some c) t).sleepQueue.handles.count (some c) = 1 := by
  rw [osTaskSleepEnter_sleepQueue, PQueue.handles_push (Nat.succ_lt_succ hfew)]
  rw [Multiset.count_cons_self, Multiset.count_eq_zero_of_notMem hc]

/-- The second one unlinks the thread. -/
theorem osTaskPause_unlinks (h : k.runQueue.Ok) :
    (k.osTaskPause (some c)).runQueue.linked c = false := by
  rw [osTaskPause_runQueue]
  obtain ⟨l, hl, hcur⟩ := h
  cases hm : decide (c ∈ l) with
  | true =>
      have hm := of_decide_eq_true hm
      obtain ⟨n, -, hn⟩ := hcur.mem (List.ne_nil_of_mem hm)
      have hd := (hl.del hm (by simp [hn])).2
      rw [← Bool.not_eq_true, hd.linked_iff]
      exact hl.nodup.not_mem_erase
  | false =>
      rw [← Bool.not_eq_true, (hl.del_of_notMem (of_decide_eq_false hm)).linked_iff]
      exact of_decide_eq_false hm

theorem osTaskPause_sleepQueue (c : TaskId) :
    (k.osTaskPause (some c)).sleepQueue = k.sleepQueue := rfl

/-! ## Ticks between them -/

theorem osTick_ok (h : k.runQueue.Ok) (sp : Addr) : (Sys.osTick k sp).runQueue.Ok :=
  osSchedule_keeps ⟨fun _ t h => h.add t, fun h => h.changeTask⟩
    (osUpdate_keeps (k := Sys.save k sp) (fun _ t h => h.add t) h)

theorem osTick_sleepQueue (sp : Addr) : (Sys.osTick k sp).sleepQueue = k.sleepQueue.tick := by
  show (Sys.save k sp).osUpdate.osSchedule.sleepQueue = _
  rw [osSchedule_sleepQueue, osUpdate_tick]
  rfl

theorem osTicks (h : k.runQueue.Ok) (sps : List Addr) : (sps.foldl Sys.osTick k).runQueue.Ok ∧
    (sps.foldl Sys.osTick k).sleepQueue = PQueue.tick^[sps.length] k.sleepQueue := by
  induction sps generalizing k with
  | nil => exact ⟨h, rfl⟩
  | cons sp sps ih =>
      obtain ⟨hok, hq⟩ := ih (osTick_ok h sp)
      refine ⟨hok, ?_⟩
      rw [List.foldl_cons, hq, osTick_sleepQueue, List.length_cons, Function.iterate_succ_apply]

/-- For every number of ticks between the two critical sections of `os_task_sleep`: the thread
keeps an entry, or stays linked, exactly if they are fewer than it takes `sleep_queue`, with the new
entry in it, to get to this entry. -/
theorem sleep_wakeup_kept_iff (k : Kernel) (c : TaskId) (t : Nat) (sps : List Addr)
    (hrq : k.runQueue.Ok) (hfew : k.sleepQueue.count < 15) (hc : some c ∉ k.sleepQueue.handles) :
    some c ∈ ((sps.foldl Sys.osTick (k.osTaskSleepEnter (some c) t)).osTaskPause
          (some c)).sleepQueue.handles ∨
        ((sps.foldl Sys.osTick (k.osTaskSleepEnter (some c) t)).osTaskPause
          (some c)).runQueue.linked c = true ↔
      sps.length < (k.sleepQueue.push t ⟨some c, t⟩).2.wakeTick (some c) := by
  have hok : (k.osTaskSleepEnter (some c) t).runQueue.Ok := by
    simpa using hrq
  obtain ⟨hok', hq⟩ := osTicks hok sps
  rw [osTaskPause_unlinks hok', osTaskPause_sleepQueue, hq,
    PQueue.mem_ticks_iff (osTaskSleepEnter_entry hfew hc t), osTaskSleepEnter_sleepQueue]
  simp

/-- Two threads sleep when a third one calls `os_task_sleep` for seven ticks. Five ticks may come
between the critical sections, but not six: the first sleeper is woken by the second tick, and
charges its three ticks to the third one. -/
theorem sleep_wakeup_kept_iff_three_threads :
    ∃ h s, (system fun _ => 0).Run Sys.CursorGuard h s ∧ s.k.runPtr = some (.slot 13) ∧
      s.k.sleepQueue.count = 2 ∧
      (some (.slot 13) ∈ (([0, 0, 0, 0, 0].foldl Sys.osTick (s.k.osTaskSleepEnter (some (.slot 13))
            7)).osTaskPause (some (.slot 13))).sleepQueue.handles ∨
          (([0, 0, 0, 0, 0].foldl Sys.osTick (s.k.osTaskSleepEnter (some (.slot 13)) 7)).osTaskPause
            (some (.slot 13))).runQueue.linked (.slot 13) = true) ∧
      ¬ (some (.slot 13) ∈ (([0, 0, 0, 0, 0, 0].foldl Sys.osTick (s.k.osTaskSleepEnter
            (some (.slot 13)) 7)).osTaskPause (some (.slot 13))).sleepQueue.handles ∨
          (([0, 0, 0, 0, 0, 0].foldl Sys.osTick (s.k.osTaskSleepEnter (some (.slot 13))
            7)).osTaskPause (some (.slot 13))).runQueue.linked (.slot 13) = true) := by
  rcases Sys.exists_run (fun _ => 0) (G := Sys.CursorGuard)
    [.create 1 1, .create 1 1, .create 1 1, .launch, .call (.thrdSleep 9), .resume, .tick 0,
      .call (.thrdSleep 3), .resume, .tick 0]
    (P := fun _ s => s.k.runPtr = some (.slot 13) ∧ s.k.sleepQueue.count = 2 ∧
      some (.slot 13) ∉ s.k.sleepQueue.handles ∧
      (s.k.sleepQueue.push 7 ⟨some (.slot 13), 7⟩).2.wakeTick (some (.slot 13)) = 6)
    (by decide +kernel) with ⟨h, s, hr, hp, hcount, hc, hw⟩
  have hfew : s.k.sleepQueue.count < 15 := by
    rw [hcount]
    decide
  refine ⟨h, s, hr, hp, hcount, ?_, ?_⟩
  · rw [sleep_wakeup_kept_iff s.k (.slot 13) 7 [0, 0, 0, 0, 0] (Sys.run_ok hr) hfew hc, hw]
    decide
  · rw [sleep_wakeup_kept_iff s.k (.slot 13) 7 [0, 0, 0, 0, 0, 0] (Sys.run_ok hr) hfew hc, hw]
    decide

/-- The thread sleeps for one tick, and that tick comes between its critical sections. -/
theorem sleep_wakeup_lost :
    ∃ h s, (system fun _ => 0).Run (fun _ _ => True) h s ∧ s.pc (.slot 15) = .ret (.thrdSleep 1) 0 ∧
      s.k.sleepQueue.handles = 0 ∧ s.k.tWaitqueue.handles = 0 ∧
      s.k.runQueue.linked (.slot 15) = false :=
  Sys.exists_run (fun _ => 0)
    [.create 1 1, .launch, .call (.thrdSleep 1), .tick 0, .resume]
    (by decide +kernel)

end Kernel

end MsTos
