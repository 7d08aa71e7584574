-- SUMMARY: Timed locks that fail: they end in `os_panic`, with the caller's handle left behind.
import MsTos.Conditions
import MsTos.Frame
import MsTos.QueueList

namespace MsTos

namespace Kernel

variable {k : Kernel} {m : Nat} {t : TaskId}

/-- A thread that does not hold the mutex panics in `mtx_unlock`. -/
theorem mtxUnlock_of_ne (hr : k.runPtr = some t) (hh : (k.mtxs m).holder ≠ some t) :
    (k.mtxUnlock m).1 = none ∧ (k.mtxUnlock m).2.mtxs = k.mtxs := by
  have hc : (k.startCritical.osTaskCurrent.2.mtxs m).holder ≠ k.startCritical.osTaskCurrent.1 := by
    rw [show k.startCritical.osTaskCurrent.1 = some t from hr]
    exact hh
  unfold mtxUnlock
  dsimp only
  rw [if_pos hc]
  exact ⟨rfl, rfl⟩

/-- So it does at the end of a timed lock that has failed. -/
theorem mtxTimedlockLeave_of_ne (hr : k.runPtr = some t) (hh : (k.mtxs m).holder ≠ some t) :
    ∃ k', k.mtxTimedlockLeave m t false = (none, k') ∧ k'.mtxs = k.mtxs := by
  have hu := mtxUnlock_of_ne (k := k.startCritical.store (some t) fun t => { t with state := .ACTIVE })
    (m := m) hr hh
  have hc : (!false) = true ∧ (k.startCritical.mtxs m).holder ≠ some t := ⟨rfl, hh⟩
  unfold mtxTimedlockLeave
  dsimp only
  rw [if_pos hc]
  split
  · rename_i k' he
    rw [he] at hu
    exact ⟨k', rfl, hu.2⟩
  · rename_i r k' he
    rw [he] at hu
    cases hu.1

/-- A timed lock that returns has succeeded. -/
theorem mtxTimedlockLeave_status (hr : k.runPtr = some t) {locked : Bool} {r : Int} {k' : Kernel}
    (h : k.mtxTimedlockLeave m t locked = (some r, k')) : r = 0 := by
  by_cases hh : locked = false ∧ (k.mtxs m).holder ≠ some t
  · obtain ⟨rfl, hh⟩ := hh
    obtain ⟨_, he, -⟩ := mtxTimedlockLeave_of_ne hr hh
    cases he.symm.trans h
  · have hc : ¬ ((!locked) = true ∧ (k.startCritical.mtxs m).holder ≠ some t) := by
      rintro ⟨hl, hne⟩
      exact hh ⟨by simpa using hl, hne⟩
    unfold mtxTimedlockLeave at h
    dsimp only at h
    rw [if_neg hc] at h
    exact (Option.some.inj (Prod.mk.inj h).1).symm

end Kernel

namespace Sys

variable {s s' : Sys} {a : Action} {e : Option Event} {t : TaskId} {c : Call} {r : Int}
  {vals : Nat → Nat} {h : List (Option Event)}

/-! ## What timed locks return -/

/-- A timed lock returns 0. -/
def Locks (c : Call) (r : Int) : Prop := ∀ m timeout, c = .mtxTimedlock m timeout → r = 0

/-- So do the calls that are about to return. -/
def WillLock (pc : TaskId → Pc) : Prop := ∀ t c r, pc t = .ret c r → Locks c r

theorem WillLock.update {pc : TaskId → Pc} {p : Pc} (h : WillLock pc)
    (hp : ∀ c r, p = .ret c r → Locks c r) : WillLock (Function.update pc t p) := by
  intro u c r hu
  rw [Function.update_apply] at hu
  split at hu
  · exact hp c r hu
  · exact h u c r hu

theorem WillLock.complete (h : WillLock s.pc) (hc : Locks c r) :
    (∀ ev, (s.complete t c r).1 = some ev → Locks ev.call ev.ret) ∧
      WillLock (s.complete t c r).2.pc := by
  unfold Sys.complete
  split
  · refine ⟨nofun, h.update ?_⟩
    intro c' r' he
    cases he
    exact hc
  · refine ⟨?_, h.update nofun⟩
    intro ev he
    cases he
    exact hc

theorem WillLock.spawn (h : WillLock s.pc) (p : ThrdPtr) : WillLock (s.spawn p).pc := by
  cases p with
  | none => exact h
  | some u => exact h.update nofun

theorem WillLock.stepCall (h : WillLock s.pc) (c : Call) :
    (∀ ev, (s.stepCall t c).1 = some ev → Locks ev.call ev.ret) ∧ WillLock (s.stepCall t c).2.pc := by
  cases c with
  | thrdCreate routine priority =>
      have hspawn := WillLock.spawn (s := { s with k := (s.k.thrdCreate routine priority).2 }) h
        (s.k.thrdCreate routine priority).1.2
      exact hspawn.complete (c := .thrdCreate routine priority) nofun
  | thrdYield | semWait | semTrywait | semPost | mtxLock | mtxTrylock =>
      exact WillLock.complete (s := { s with k := _ }) h nofun
  | thrdSleep ticks =>
      unfold Sys.stepCall
      dsimp only
      split
      · exact WillLock.complete (s := { s with k := _ }) h nofun
      · exact ⟨nofun, h.update nofun⟩
  | thrdExit | thrdJoin | semTimedwait | mtxTimedlock => exact ⟨nofun, h.update nofun⟩
  | mtxUnlock m =>
      unfold Sys.stepCall
      dsimp only
      split
      · exact ⟨nofun, h.update nofun⟩
      · exact WillLock.complete (s := { s with k := _ }) h nofun

theorem WillLock.stepResume (h : WillLock s.pc) (hr : s.k.runPtr = some t)
    (hs : s.stepResume t = some (e, s')) :
    (∀ ev, e = some ev → Locks ev.call ev.ret) ∧ WillLock s'.pc := by
  cases Sys.resumes_of_stepResume hs with
  | ret c r hpc =>
      refine ⟨?_, h.update nofun⟩
      intro ev he
      cases he
      exact h t c r hpc
  | sleepPause ticks =>
      exact WillLock.complete (s := { s with k := s.k.osTaskPause (some t) }) h nofun
  | semTimedwait n timeout locked =>
      exact WillLock.complete (s := { s with k := (s.k.semTimedwaitLeave (.app n) t locked).2 }) h
        nofun
  | mtxTimedlock m timeout locked hpc hl =>
      exact WillLock.complete (s := { s with k := (s.k.mtxTimedlockLeave m t locked).2 }) h
        fun _ _ _ => Kernel.mtxTimedlockLeave_status hr (Prod.ext hl rfl)
  | join other => exact h.complete nofun
  | mtxPanic | kill => exact ⟨nofun, h.update nofun⟩

theorem WillLock.step (h : WillLock s.pc) (hs : s.step a = some (e, s')) :
    (∀ ev, e = some ev → Locks ev.call ev.ret) ∧ WillLock s'.pc := by
  cases (steps_of_step hs).2 with
  | create r p =>
      exact ⟨nofun, WillLock.spawn (s := { s with k := (s.k.thrdCreate r p).2 }) h _⟩
  | launch | tick => exact ⟨nofun, h⟩
  | call c hr hu hp => exact h.stepCall c
  | resume hr hp hs => exact h.stepResume hr hs

theorem run_willLock (hr : (system vals).Run (fun _ _ => True) h s) :
    (∀ ev, some ev ∈ h → Locks ev.call ev.ret) ∧ WillLock s.pc := by
  refine hr.invariant (P := fun h s => (∀ ev, some ev ∈ h → Locks ev.call ev.ret) ∧ WillLock s.pc) ?_ ?_
  · rintro s rfl
    exact ⟨by simp, nofun⟩
  · rintro h s a e s' ⟨hev, hw⟩ - hs
    obtain ⟨he, hw'⟩ := hw.step hs
    refine ⟨?_, hw'⟩
    intro ev hm
    rcases List.mem_cons.1 hm with hm | hm
    · exact he ev hm.symm
    · exact hev ev hm

/-! ## Failed timed locks -/

/-- What a timed lock should do when the caller `t` has not been handed the mutex: it returns -1,
and it takes its handle, and nothing else, out of the wait queue. -/
structure FailsCleanly (s : Sys) (t : TaskId) (m : Nat) (timeout : SizeT) (e : Option Event) (s' : Sys) :
    Prop where
  returns : e = some ⟨t, .mtxTimedlock m timeout, -1⟩
  runs : s'.pc t ≠ .panic
  holder : (s'.k.mtxs m).holder = (s.k.mtxs m).holder
  queue : (s'.k.mtxs m).wq.toList = (s.k.mtxs m).wq.toList.filter (· ≠ some t)

/-- A caller that has not been handed the mutex panics, and its handle stays where it is. -/
theorem timedlock_panics {m : Nat} {timeout : SizeT} (hr : s.k.runPtr = some t)
    (hpc : s.pc t = .mtxTimedlock m timeout false) (hh : (s.k.mtxs m).holder ≠ some t)
    (hs : s.step .resume = some (e, s')) :
    e = none ∧ s'.pc t = .panic ∧ s'.k.mtxs = s.k.mtxs := by
  cases (steps_of_step hs).2 with
  | resume hr' hp hs =>
      cases hr.symm.trans hr'
      obtain ⟨k', hl, hm⟩ := Kernel.mtxTimedlockLeave_of_ne hr hh
      unfold Sys.stepResume at hs
      rw [hpc] at hs
      dsimp only at hs
      rw [hl] at hs
      cases hs
      exact ⟨rfl, Function.update_self _ _ _, hm⟩

/-- No timed lock ever fails cleanly: none returns -1, and one that goes on without the mutex ends in
`os_panic`. -/
theorem timedlock_never_fails_cleanly (hr : (system vals).Run (fun _ _ => True) h s) :
    (∀ t m timeout, some ⟨t, .mtxTimedlock m timeout, -1⟩ ∉ h) ∧
    (∀ a e s', s.step a = some (e, s') → ∀ t m timeout, ¬ s.FailsCleanly t m timeout e s') ∧
    ∀ t m timeout e s', s.k.runPtr = some t → s.pc t = .mtxTimedlock m timeout false →
      (s.k.mtxs m).holder ≠ some t → s.step .resume = some (e, s') →
        e = none ∧ s'.pc t = .panic ∧ s'.k.mtxs = s.k.mtxs := by
  obtain ⟨hev, hw⟩ := run_willLock hr
  refine ⟨?_, ?_, ?_⟩
  · intro t m timeout hm
    cases hev _ hm m timeout rfl
  · intro a e s' hs t m timeout hf
    cases (hw.step hs).1 _ hf.returns m timeout rfl
  · intro t m timeout e s' hrun hpc hh hs
    exact timedlock_panics hrun hpc hh hs

/-- `A` holds the mutex while the deadline of `B` passes. -/
theorem timedlock_never_fails_cleanly_two_threads :
    ∃ h s s', (system fun _ => 0).Run (fun _ _ => True) h s ∧
      (s.k.mtxs 0).holder = some (.slot 15) ∧ s.step .resume = some (none, s') ∧
      (∀ t m timeout, some ⟨t, .mtxTimedlock m timeout, -1⟩ ∉ h) ∧
      s'.pc (.slot 14) = .panic := by
  rcases exists_step (fun _ => 0) (G := fun _ _ => True)
    [.create 1 1, .create 1 1, .launch, .call (.mtxLock 0), .call .thrdYield, .tick 0,
      .call (.mtxTimedlock 0 1), .tick 0] .resume
    (P := fun s => s.k.runPtr = some (.slot 14) ∧ s.pc (.slot 14) = .mtxTimedlock 0 1 false ∧
      (s.k.mtxs 0).holder = some (.slot 15))
    (Q := fun e _ => e = none) (by decide +kernel) with ⟨h, s, e, s', hr, ⟨hrun, hpc, hh⟩, hs, rfl⟩
  obtain ⟨hev, -, hpanic⟩ := timedlock_never_fails_cleanly hr
  have hne : (s.k.mtxs 0).holder ≠ some (.slot 14) := by simp [hh]
  exact ⟨h, s, s', hr, hh, hs, hev, (hpanic _ 0 1 _ _ hrun hpc hne hs).2.1⟩

/-- `B` goes on after its deadline: it panics instead of returning -1, and its handle is still the
first in the wait queue of the mutex. -/
theorem timedlock_panics_two_threads : ∃ h s s', (system fun _ => 0).Run (fun _ _ => True) h s ∧
    s.k.runPtr = some (.slot 14) ∧ s.pc (.slot 14) = .mtxTimedlock 0 1 false ∧
    (s.k.mtxs 0).holder = some (.slot 15) ∧ s.step .resume = some (none, s') ∧
    s'.pc (.slot 14) = .panic ∧ (s'.k.mtxs 0).wq.toList = [some (.slot 14)] := by
  rcases exists_step (fun _ => 0) (G := fun _ _ => True)
    [.create 1 1, .create 1 1, .launch, .call (.mtxLock 0), .call .thrdYield, .tick 0,
      .call (.mtxTimedlock 0 1), .tick 0] .resume
    (P := fun s => s.k.runPtr = some (.slot 14) ∧ s.pc (.slot 14) = .mtxTimedlock 0 1 false ∧
      (s.k.mtxs 0).holder = some (.slot 15))
    (Q := fun e s' => e = none ∧ s'.pc (.slot 14) = .panic ∧
      (s'.k.mtxs 0).wq.toList = [some (.slot 14)])
    (by decide +kernel) with ⟨h, s, e, s', hr, ⟨hrun, hpc, hh⟩, hs, rfl, hp, hq⟩
  exact ⟨h, s, s', hr, hrun, hpc, hh, hs, hp, hq⟩

end Sys

end MsTos
