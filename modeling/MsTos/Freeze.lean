-- SUMMARY: Sections that stay open: after a creation that fails, no tick is taken and only its caller runs.
import MsTos.Balance
import MsTos.Slices

namespace MsTos

/-! ## Interrupts within sections -/

namespace Kernel

variable {k k' : Kernel} {p : ThrdPtr} {t : TaskId} {sem : SemId} {m : Nat}

/-- Interrupts are disabled while a section is open. -/
def Masks (k : Kernel) : Prop := 0 < k.irq.nest → k.irq.gie = false

namespace Masks

theorem congr (h : k.Masks) (he : k'.irq = k.irq) : k'.Masks := by
  unfold Masks
  rw [he]
  exact h

theorem start (k : Kernel) : k.startCritical.Masks := fun _ => rfl

theorem stop (h : k.Masks) : k.endCritical.Masks := by
  unfold Masks endCritical Irq.stop
  dsimp only
  split
  · rename_i hn
    split
    · rename_i h0
      intro hlt
      exact absurd h0 (Nat.ne_of_gt hlt)
    · intro _
      exact h hn
  · rename_i hn
    intro hlt
    exact absurd hlt hn

theorem yield (h : k.Masks) : k.osTaskYield.Masks := h

end Masks

/-! ### Tasks -/

theorem osTaskCurrent_masks (k : Kernel) : k.osTaskCurrent.2.Masks := (Masks.start k).stop

theorem osAddTask_masks (k : Kernel) (p : ThrdPtr) : (k.osAddTask p).2.Masks :=
  ((Masks.start k).congr osAddTaskMmang_irq).stop

theorem osDelTask_masks (k : Kernel) (p : ThrdPtr) : (k.osDelTask p).2.Masks :=
  ((Masks.start k).congr osDelTaskMmang_irq).stop

theorem osTaskPause_masks (k : Kernel) (p : ThrdPtr) : (k.osTaskPause p).Masks :=
  (osDelTask_masks k.startCritical p).yield.stop

theorem osTaskUnpause_masks (k : Kernel) (p : ThrdPtr) : (k.osTaskUnpause p).Masks :=
  (osAddTask_masks _ p).stop

theorem osTaskBlock_masks (k : Kernel) (p : ThrdPtr) : (k.osTaskBlock p).Masks :=
  (osTaskPause_masks _ p).stop

theorem osTaskSleepEnter_masks (k : Kernel) (p : ThrdPtr) (n : Nat) :
    (k.osTaskSleepEnter p n).Masks := by
  unfold osTaskSleepEnter
  exact Masks.stop ((Masks.start k).congr (store_irq _))

theorem osTaskTimedwait_masks (h : k.Masks) (n : Nat) : (k.osTaskTimedwait p n).Masks := by
  unfold osTaskTimedwait
  split
  · exact h.yield
  · exact osTaskPause_masks _ p

theorem tfree_masks (k : Kernel) (p : ThrdPtr) : (k.tfree p).Masks := by
  unfold tfree
  refine Masks.stop ((Masks.start k).congr ?_)
  split <;> rfl

theorem osTaskKill_masks (k : Kernel) : k.osTaskKill.Masks := (tfree_masks _ _).yield.stop

/-! ### Semaphores -/

theorem semInit_masks (h : k.Masks) (n : Nat) : (k.semInit sem n).2.Masks := by
  unfold semInit
  split
  · exact h
  · exact ((Masks.start k).congr rfl).stop

theorem semWait_masks (k : Kernel) (sem : SemId) : (k.semWait sem).Masks := by
  unfold semWait
  dsimp only
  split
  · exact (osTaskBlock_masks _ _).stop
  · exact ((Masks.start k).congr rfl).stop

theorem semPost_masks (k : Kernel) (sem : SemId) : (k.semPost sem).Masks := by
  unfold semPost
  dsimp only
  split
  · exact (osTaskUnpause_masks _ _).stop
  · exact ((Masks.start k).congr rfl).stop

theorem semTimedwaitEnter_masks (k : Kernel) (sem : SemId) (n : Nat) :
    (k.semTimedwaitEnter sem n).2.Masks := by
  unfold semTimedwaitEnter
  dsimp only
  split
  · have hcur := osTaskCurrent_masks (k.startCritical.semDown sem)
    refine Masks.stop (osTaskTimedwait_masks (hcur.congr ?_) n)
    rfl
  · exact ((Masks.start k).congr rfl).stop

theorem semTimedwaitLeave_masks (k : Kernel) (sem : SemId) (t : TaskId) (b : Bool) :
    (k.semTimedwaitLeave sem t b).2.Masks := by
  unfold semTimedwaitLeave
  dsimp only
  split
  · exact (semPost_masks _ sem).stop
  · exact (Masks.start k).stop

theorem semTrywait_masks (k : Kernel) (sem : SemId) : (k.semTrywait sem).2.Masks := by
  unfold semTrywait
  dsimp only
  split
  · exact ((Masks.start k).congr rfl).stop
  · exact (Masks.start k).stop

/-! ### Mutexes -/

theorem mtxBoost_masks (h : k.Masks) (u : TaskId) : (k.mtxBoost u t).Masks := by
  unfold mtxBoost
  dsimp only
  split
  · exact h.congr rfl
  · exact h

theorem mtxLock_masks (k : Kernel) (m : Nat) : (k.mtxLock m).Masks := by
  have hcur := osTaskCurrent_masks k.startCritical
  unfold mtxLock
  dsimp only
  split
  · exact (osTaskBlock_masks _ _).stop
  · exact (hcur.congr rfl).stop
  · exact (hcur.congr rfl).stop

theorem mtxTimedlockEnter_masks (k : Kernel) (m n : Nat) : (k.mtxTimedlockEnter m n).2.Masks := by
  have hcur := osTaskCurrent_masks k.startCritical
  unfold mtxTimedlockEnter
  dsimp only
  split
  · rename_i u t _ _
    have hboost := mtxBoost_masks (t := t) hcur u
    refine Masks.stop (osTaskTimedwait_masks (hboost.congr ?_) n)
    rfl
  · exact (hcur.congr rfl).stop
  · exact (hcur.congr rfl).stop

theorem mtxTrylock_masks (k : Kernel) (m : Nat) : (k.mtxTrylock m).2.Masks := by
  have hcur := osTaskCurrent_masks k.startCritical
  unfold mtxTrylock
  dsimp only
  split
  · exact (hcur.congr rfl).stop
  · exact hcur.stop

theorem mtxRelease_masks (h : k.Masks) (u : TaskId) : (k.mtxRelease m u).Masks := by
  unfold mtxRelease
  dsimp only
  split
  · exact osTaskUnpause_masks _ _
  · exact h.congr rfl

theorem mtxUnlock_masks {r : Int} (hu : k.mtxUnlock m = (some r, k')) : k'.Masks := by
  have hcur := osTaskCurrent_masks k.startCritical
  unfold mtxUnlock at hu
  dsimp only at hu
  split at hu
  · cases hu
  · split at hu
    · cases hu
      exact hcur.congr rfl
    · cases hu
      exact (mtxRelease_masks hcur _).stop

theorem mtxTimedlockLeave_masks {b : Bool} {r : Int} (hl : k.mtxTimedlockLeave m t b = (some r, k')) :
    k'.Masks := by
  unfold mtxTimedlockLeave at hl
  dsimp only at hl
  split at hl
  · split at hl
    · cases hl
    · rename_i hu
      cases hl
      exact (mtxUnlock_masks hu).stop
  · cases hl
    exact (Masks.start k).stop

/-! ### Threads -/

theorem osTaskCreate_masks (k : Kernel) : k.osTaskCreate.2.Masks := by
  have halloc : k.startCritical.talloc.2.Masks := ((Masks.start _).congr rfl).stop
  unfold osTaskCreate
  dsimp only
  split
  · exact halloc
  · split
    · exact halloc.congr rfl
    · split <;> dsimp only
      · exact osAddTask_masks _ _
      · exact (osAddTask_masks _ _).stop

theorem thrdInit_masks (h : k.Masks) (routine priority : Nat) :
    (k.thrdInit t routine priority).2.Masks := by
  unfold thrdInit
  split
  · exact h
  · cases t with
    | idle =>
        have hs : (k.semInit (.join .idle) 0).2.Masks := semInit_masks h 0
        exact hs.congr rfl
    | slot i =>
        have hsp : Masks { k with taskMem := k.taskMem.setSp i (initialSp i) } := h.congr rfl
        have hs : (semInit { k with taskMem := k.taskMem.setSp i (initialSp i) }
            (.join (.slot i)) 0).2.Masks := semInit_masks hsp 0
        exact hs.congr rfl

theorem thrdCreate_masks {routine priority : Nat} (h : routine = 0 ∨ priority = 0 → k.Masks) :
    (k.thrdCreate routine priority).2.Masks := by
  have hcreate := osTaskCreate_masks k.startCritical
  unfold thrdCreate
  split
  · exact h (.inl ‹_›)
  · split
    · exact h (.inr ‹_›)
    · dsimp only
      split
      · exact hcreate.stop
      · exact (thrdInit_masks hcreate routine priority).stop

theorem wakeJoiners_masks (h : k.Masks) (t : TaskId) (r : Int) (fuel : Nat) :
    (wakeJoiners t r fuel k).Masks := by
  induction fuel generalizing k with
  | zero => exact h.congr rfl
  | succ fuel ih =>
      unfold wakeJoiners
      dsimp only
      split
      · exact ih (semPost_masks _ _)
      · exact h

theorem osTaskExit_masks (k : Kernel) (r : Int) : (k.osTaskExit r).Masks := by
  have hcur := osTaskCurrent_masks k.startCritical
  unfold osTaskExit
  dsimp only
  split
  · exact (hcur.congr rfl).stop
  · exact (wakeJoiners_masks hcur _ r _).stop

/-! ### Time -/

theorem osTaskKill_osTickCnt (k : Kernel) : k.osTaskKill.osTickCnt = k.osTickCnt := by
  have hfree : ∀ (k : Kernel) p, (k.tfree p).osTickCnt = k.osTickCnt := by
    rintro k (_ | _ | i) <;> rfl
  have hdel : ∀ (k : Kernel) p, (k.osDelTask p).2.osTickCnt = k.osTickCnt :=
    fun k p => congrArg Base.osTickCnt (k.osDelTask_base p)
  exact (hfree _ _).trans (hdel _ _)

theorem thrdCreate_osTickCnt (routine priority : Nat) :
    (k.thrdCreate routine priority).2.osTickCnt = k.osTickCnt := by
  rcases thrdCreate_allots (k := k) routine priority with
    ⟨-, _, _, _, _, h⟩ | ⟨_, i, ⟨_, _, _, _, rfl⟩, hr, -, -, h⟩
  · rw [h]
  · rw [h]
    unfold thrdInit
    rw [if_neg hr]
    rfl

end Kernel

namespace Sys

open Kernel

variable {s s' : Sys} {a : Action} {e : Option Event} {t u : TaskId} {vals : Nat → Nat}
  {h h' : List (Option Event)} {ev : Event}

/-- Time goes on with the ticks only. -/
theorem step_osTickCnt (hs : s.step a = some (e, s')) (ha : ∀ sp, a ≠ .tick sp)
    (hl : a ≠ .launch) : s'.k.osTickCnt = s.k.osTickCnt := by
  cases (steps_of_step hs).2 with
  | create routine priority =>
      rw [spawn_k]
      exact thrdCreate_osTickCnt _ _
  | launch => exact absurd rfl hl
  | tick sp => exact absurd rfl (ha sp)
  | call c =>
      by_cases hc : ∃ r p, c = .thrdCreate r p
      · obtain ⟨routine, priority, rfl⟩ := hc
        simp only [stepCall, complete_k, spawn_k]
        exact thrdCreate_osTickCnt _ _
      · by_cases hn : ∃ n, c = .thrdSleep n
        · obtain ⟨n, rfl⟩ := hn
          unfold stepCall
          dsimp only
          split
          · rw [complete_k]
            rfl
          · rfl
        · exact congrArg Base.osTickCnt (s.stepCall_base _ c (fun r p he => hc ⟨r, p, he⟩)
            fun n he => hn ⟨n, he⟩)
  | @resume t _ _ hr hp hs =>
      by_cases hk : s.pc t = .kill
      · rw [stepResume_kill t hk] at hs
        cases hs
        exact osTaskKill_osTickCnt s.k
      · exact congrArg Base.osTickCnt (stepResume_base t hk hs)

/-! ## Steps with a section open -/

/-- The nesting counter has room for the sections of a call. -/
def Room (k : Kernel) : Prop := k.irq.nest + 4 < wordSize

instance (k : Kernel) : Decidable (Room k) := inferInstanceAs (Decidable (_ < _))

theorem Room.lt {k : Kernel} (h : Room k) : k.irq.nest < wordSize := by
  unfold Room at h
  omega

/-- A part of a call brings the counter back to its value, unless a creation fails. -/
theorem Room.part {p : Part} {k k' : Kernel} (h : Room k) (hr : k.runPtr = some t)
    (hc : p.Creates k) (hp : p.run t k = some k') : k.irq.nest ≤ k'.irq.nest := by
  have hd := Part.depth_le p k t
  unfold Room at h
  exact ((Part.run_nested (by omega) hr hc hp).nest.keeps (by omega)).ge

theorem thrdCreate_nest (hn : Room s.k) (routine priority : Nat) :
    s.k.irq.nest ≤ (s.k.thrdCreate routine priority).2.irq.nest := by
  have hlt := hn.lt
  unfold Room at hn
  by_cases hc : routine = 0 ∨ priority = 0 ∨ s.k.CanCreate
  · have hd : thrdCreateDepth routine priority ≤ 3 := by
      unfold thrdCreateDepth
      split <;> decide
    exact ((thrdCreate_nested hlt hc).nest.keeps (by omega)).ge
  · push Not at hc
    have ho := (thrdCreate_leaks hlt hc.1 hc.2.1 hc.2.2).opens (by omega)
    omega

theorem osTaskExit_nest (hn : Room s.k) (hr : s.k.runPtr = some t) (r : Int) :
    s.k.irq.nest ≤ (s.k.osTaskExit r).irq.nest := by
  have hr' : s.k.startCritical.osTaskCurrent.1 = some t := hr
  unfold Room at hn
  have hs : s.k.startCritical.irq.nest = s.k.irq.nest + 1 := by
    rw [startCritical_nest, Nat.mod_eq_of_lt (by omega)]
  have hcur := osTaskCurrent_nested (k := s.k.startCritical) (by omega)
  have hone := hcur.nest.keeps (by omega)
  have hloop := wakeJoiners_loop (t := t) hcur.lt r (wordSize + numThreads)
  have hend := hloop.keeps (by omega)
  unfold osTaskExit
  simp only [hr', endCritical_nest]
  omega

/-- A call that ends in `os_panic` leaves its sections open. -/
theorem mtxUnlock_panics {k k' : Kernel} {m : Nat} (hn : k.irq.nest + 2 < wordSize)
    (hu : k.mtxUnlock m = (none, k')) : k'.irq.nest = k.irq.nest + 2 := by
  have hs : k.startCritical.irq.nest = k.irq.nest + 1 := by
    rw [startCritical_nest, Nat.mod_eq_of_lt (by omega)]
  have hcur := (osTaskCurrent_nested (k := k.startCritical) (by omega)).nest.keeps (by omega)
  unfold Kernel.mtxUnlock at hu
  dsimp only at hu
  split at hu
  · cases hu
    show (k.startCritical.osTaskCurrent.2.irq.nest + 1) % wordSize = _
    rw [hcur, hs, Nat.mod_eq_of_lt (by omega)]
  · split at hu <;> cases hu

theorem mtxTimedlockLeave_panics {k k' : Kernel} {m : Nat} {b : Bool} (hn : Room k)
    (hl : k.mtxTimedlockLeave m t b = (none, k')) : k'.irq.nest = k.irq.nest + 3 := by
  unfold Room at hn
  have hs : k.startCritical.irq.nest = k.irq.nest + 1 := by
    rw [startCritical_nest, Nat.mod_eq_of_lt (by omega)]
  unfold Kernel.mtxTimedlockLeave at hl
  dsimp only at hl
  split at hl
  · split at hl
    · rename_i hu
      cases hl
      have hstore : (k.startCritical.store (some t) fun t => { t with state := .ACTIVE }).irq.nest =
          k.irq.nest + 1 := hs
      have hp := mtxUnlock_panics (by omega) hu
      omega
    · cases hl
  · cases hl

theorem stepCall_nest (c : Call) (hn : Room s.k) (hr : s.k.runPtr = some t) :
    s.k.irq.nest ≤ (s.stepCall t c).2.k.irq.nest := by
  have hpart : ∀ {p : Part} {k' : Kernel}, p.Creates s.k → p.run t s.k = some k' →
      s.k.irq.nest ≤ k'.irq.nest := hn.part hr
  cases c with
  | thrdCreate routine priority =>
      simp only [stepCall, complete_k, spawn_k]
      exact thrdCreate_nest hn _ _
  | thrdSleep ticks =>
      unfold stepCall
      dsimp only
      split
      · rw [complete_k]
        exact hpart (p := .yield) trivial rfl
      · exact hpart (p := .sleepEnter ticks) trivial rfl
  | thrdExit retCode => exact osTaskExit_nest hn hr retCode
  | thrdJoin other => exact hpart (p := .semWait (.join other)) trivial rfl
  | semTimedwait sem timeout =>
      exact hpart (p := .semTimedwaitEnter (.app sem) timeout) trivial rfl
  | mtxTimedlock mtx timeout => exact hpart (p := .mtxTimedlockEnter mtx timeout) trivial rfl
  | mtxUnlock mtx =>
      rcases he : s.k.mtxUnlock mtx with ⟨r, k'⟩
      cases r with
      | none =>
          have hroom : s.k.irq.nest + 4 < wordSize := hn
          have hp := mtxUnlock_panics (by omega) he
          simp only [stepCall, he, setPc_k]
          omega
      | some r =>
          simp only [stepCall, he, complete_k]
          exact hpart (p := .mtxUnlock mtx) trivial (by simp [Part.run, he])
  | thrdYield =>
      simp only [stepCall, complete_k]
      exact hpart (p := .yield) trivial rfl
  | semWait sem =>
      simp only [stepCall, complete_k]
      exact hpart (p := .semWait (.app sem)) trivial rfl
  | semTrywait sem =>
      simp only [stepCall, complete_k]
      exact hpart (p := .semTrywait (.app sem)) trivial rfl
  | semPost sem =>
      simp only [stepCall, complete_k]
      exact hpart (p := .semPost (.app sem)) trivial rfl
  | mtxLock mtx =>
      simp only [stepCall, complete_k]
      exact hpart (p := .mtxLock mtx) trivial rfl
  | mtxTrylock mtx =>
      simp only [stepCall, complete_k]
      exact hpart (p := .mtxTrylock mtx) trivial rfl

theorem stepResume_nest (hn : Room s.k) (hr : s.k.runPtr = some t)
    (hs : s.stepResume t = some (e, s')) : s.k.irq.nest ≤ s'.k.irq.nest := by
  have hpart : ∀ {p : Part} {k' : Kernel}, p.Creates s.k → p.run t s.k = some k' →
      s.k.irq.nest ≤ k'.irq.nest := hn.part hr
  cases resumes_of_stepResume hs with
  | ret => exact Nat.le_refl _
  | sleepPause =>
      rw [complete_k]
      exact hpart (p := .sleepPause) trivial rfl
  | semTimedwait n timeout locked =>
      rw [complete_k]
      exact hpart (p := .semTimedwaitLeave (.app n) locked) trivial rfl
  | mtxTimedlock m timeout locked hpc hl =>
      rw [complete_k]
      exact hpart (p := .mtxTimedlockLeave m locked) trivial (by simp [Part.run, hl])
  | mtxPanic m timeout locked hpc hl =>
      have hp : (s.k.mtxTimedlockLeave m t locked).2.irq.nest = s.k.irq.nest + 3 :=
        mtxTimedlockLeave_panics hn (Prod.ext hl rfl)
      show s.k.irq.nest ≤ (s.k.mtxTimedlockLeave m t locked).2.irq.nest
      omega
  | join => rw [complete_k]
  | kill =>
      have hlt := hn.lt
      unfold Room at hn
      exact ((osTaskKill_nested hlt).nest.keeps (by omega)).ge

/-- The call enters a section. -/
def enters : Call → Bool
  | .thrdYield => false
  | .thrdSleep n => n.val ≠ 0
  | .thrdCreate routine priority => routine.val ≠ 0 ∧ priority.val ≠ 0
  | _ => true

theorem stepCall_masks (c : Call) (hk : enters c = false → s.k.Masks) (hg : s.Returns (.call c)) :
    (s.stepCall t c).2.k.Masks := by
  cases c with
  | thrdCreate routine priority =>
      simp only [stepCall, complete_k, spawn_k]
      refine thrdCreate_masks fun hz => hk ?_
      simp only [enters, decide_eq_false_iff_not, not_and_or, not_not]
      exact hz
  | thrdYield =>
      simp only [stepCall, complete_k]
      exact (hk rfl).yield
  | thrdSleep ticks =>
      unfold stepCall
      dsimp only
      split
      · rename_i h0
        rw [complete_k]
        exact (hk (by simp [enters, h0])).yield
      · exact osTaskSleepEnter_masks _ _ _
  | thrdExit retCode => exact osTaskExit_masks s.k retCode
  | thrdJoin other => exact semWait_masks _ _
  | semTimedwait sem timeout => exact semTimedwaitEnter_masks _ _ _
  | mtxTimedlock mtx timeout => exact mtxTimedlockEnter_masks _ _ _
  | mtxUnlock mtx =>
      rcases he : s.k.mtxUnlock mtx with ⟨r, k'⟩
      cases r with
      | none =>
          have hh : (s.k.mtxs mtx).holder = s.k.runPtr := hg
          unfold Kernel.mtxUnlock at he
          dsimp only at he
          split at he
          · rename_i hne
            exact absurd hh hne
          · split at he <;> cases he
      | some r =>
          simp only [stepCall, he, complete_k]
          exact mtxUnlock_masks he
  | semWait sem =>
      simp only [stepCall, complete_k]
      exact semWait_masks _ _
  | semTrywait sem =>
      simp only [stepCall, complete_k]
      exact semTrywait_masks _ _
  | semPost sem =>
      simp only [stepCall, complete_k]
      exact semPost_masks _ _
  | mtxLock mtx =>
      simp only [stepCall, complete_k]
      exact mtxLock_masks _ _
  | mtxTrylock mtx =>
      simp only [stepCall, complete_k]
      exact mtxTrylock_masks _ _

theorem stepResume_masks (hk : s.k.Masks) (hr : s.k.runPtr = some t) (hg : s.LockGranted)
    (hs : s.stepResume t = some (e, s')) : s'.k.Masks := by
  cases resumes_of_stepResume hs with
  | ret => exact hk
  | sleepPause =>
      rw [complete_k]
      exact osTaskPause_masks _ _
  | semTimedwait n timeout locked =>
      rw [complete_k]
      exact semTimedwaitLeave_masks _ _ _ _
  | mtxTimedlock m timeout locked hpc hl =>
      rw [complete_k]
      exact mtxTimedlockLeave_masks (Prod.ext hl rfl)
  | mtxPanic m timeout locked hpc hl =>
      have hlocked : locked = true ∨ (s.k.mtxs m).holder = some t := by
        unfold LockGranted at hg
        rw [hr] at hg
        dsimp only at hg
        rw [hpc] at hg
        exact hg
      unfold Kernel.mtxTimedlockLeave at hl
      dsimp only at hl
      rw [if_neg] at hl
      · cases hl
      · rintro ⟨hf, hne⟩
        rcases hlocked with rfl | hh
        · cases hf
        · exact hne hh
  | join =>
      rw [complete_k]
      exact hk
  | kill => exact osTaskKill_masks _

/-- The thread whose call ends. -/
theorem complete_thrd {c : Call} {r : Int} (he : (s.complete t c r).1 = some ev) : ev.thrd = t := by
  unfold complete at he
  split at he
  · cases he
  · cases he
    rfl

/-- A call moves its caller only, and starts a thread in a free slot at most. -/
theorem stepCall_others (hp : s.PoolOk) (c : Call) :
    (∀ ev, (s.stepCall t c).1 = some ev → ev.thrd = t) ∧
      ∀ u, u ≠ t → s.pc u ≠ .none → (s.stepCall t c).2.pc u = s.pc u := by
  refine ⟨fun ev he => ?_, fun u hu hn => ?_⟩
  · cases c with
    | thrdSleep ticks =>
        unfold stepCall at he
        dsimp only at he
        split at he
        · exact complete_thrd he
        · cases he
    | thrdExit | thrdJoin | semTimedwait | mtxTimedlock => cases he
    | mtxUnlock mtx =>
        unfold stepCall at he
        dsimp only at he
        split at he
        · cases he
        · exact complete_thrd he
    | thrdCreate | thrdYield | semWait | semTrywait | semPost | mtxLock | mtxTrylock =>
        exact complete_thrd he
  · by_cases hc : ∃ r p, c = .thrdCreate r p
    · obtain ⟨routine, priority, rfl⟩ := hc
      obtain ⟨l, hf, hl⟩ := hp.free
      obtain ⟨q, -, hq⟩ := complete_pc (s := { s with k := (s.k.thrdCreate routine priority).2 }.spawn
        (s.k.thrdCreate routine priority).1.2) t (.thrdCreate routine priority)
        (s.k.thrdCreate routine priority).1.1
      refine (congrFun hq u).trans ((Function.update_of_ne hu _ _).trans ?_)
      rcases Kernel.thrdCreate_free hf hp.headLinked routine priority with
        ⟨hnone, -⟩ | ⟨i, l', rfl, hsome, -⟩
      · rw [hnone]
        rfl
      · rw [hsome]
        refine Function.update_of_ne ?_ _ _
        rintro rfl
        exact hn ((hl i).1 List.mem_cons_self)
    · obtain ⟨q, -, hq⟩ := stepCall_pc (s := s) t c fun r p he => hc ⟨r, p, he⟩
      rw [hq, Function.update_of_ne hu]

theorem stepResume_others (hs : s.stepResume t = some (e, s')) :
    (∀ ev, e = some ev → ev.thrd = t) ∧ ∀ u, u ≠ t → s'.pc u = s.pc u := by
  refine ⟨fun ev he => ?_, fun u hu => ?_⟩
  · subst he
    generalize he : some ev = e at hs
    cases resumes_of_stepResume hs with
    | ret =>
        cases he
        rfl
    | sleepPause | semTimedwait | mtxTimedlock | join => exact complete_thrd he.symm
    | mtxPanic | kill => cases he
  · by_cases hk : s.pc t = .kill
    · rw [stepResume_kill t hk] at hs
      cases hs
      exact Function.update_of_ne hu _ _
    · obtain ⟨q, -, hq⟩ := stepResume_pc t hk hs
      rw [hq, Function.update_of_ne hu]

/-! ## Runs -/

/-- A section has been left open, so that no tick can be taken. -/
structure Frozen (s : Sys) (t : TaskId) : Prop where
  run : s.k.runPtr = some t
  opened : 0 < s.k.irq.nest
  masks : s.k.Masks
  pool : s.PoolOk

/-- No call ends in `os_panic`, and the nesting counter is not about to wrap around. -/
def KeepsOpen (s : Sys) (a : Action) : Prop := s.Returns a ∧ Room s.k

instance (s : Sys) (a : Action) : Decidable (s.KeepsOpen a) := inferInstanceAs (Decidable (_ ∧ _))

/-- What does not change while `t` runs alone. -/
structure Alone (s : Sys) (t : TaskId) (h : List (Option Event)) (s' : Sys) : Prop where
  event : ∀ ev, some ev ∈ h → ev.thrd = t
  time : s'.k.osTickCnt = s.k.osTickCnt
  pc : ∀ u, u ≠ t → s.pc u ≠ .none → s'.pc u = s.pc u

theorem Frozen.step (hf : s.Frozen t) (hg : s.KeepsOpen a) (hs : s.step a = some (e, s')) :
    s'.Frozen t ∧ s.Alone t [e] s' := by
  have hgie := hf.masks hf.opened
  have hall := steps_of_step hs
  have hnotick : (∀ sp, a ≠ .tick sp) ∧ a ≠ .launch := by
    cases hall.2 with
    | tick sp hr hon => cases hgie.symm.trans hon
    | create routine priority hr | launch hr => cases hr.symm.trans hf.run
    | call | resume => exact ⟨nofun, nofun⟩
  have hsave : s.SaveGuard a := by
    cases a with
    | tick sp => exact absurd rfl (hnotick.1 sp)
    | _ => trivial
  have hpool := step_poolOk hf.pool hsave hs
  have hrun := step_runPtr hs hnotick.1 hf.run
  have htime := step_osTickCnt hs hnotick.1 hnotick.2
  have hheld : s'.k.Masks ∧ s.k.irq.nest ≤ s'.k.irq.nest ∧ (∀ ev, e = some ev → ev.thrd = t) ∧
      ∀ u, u ≠ t → s.pc u ≠ .none → s'.pc u = s.pc u := by
    cases hall.2 with
    | tick sp => exact absurd rfl (hnotick.1 sp)
    | create routine priority hr | launch hr => cases hr.symm.trans hf.run
    | call c hr =>
        cases hr.symm.trans hf.run
        exact ⟨stepCall_masks c (fun _ => hf.masks) hg.1, stepCall_nest c hg.2 hr,
          stepCall_others hf.pool c⟩
    | resume hr hp hs =>
        cases hr.symm.trans hf.run
        obtain ⟨hev, hpc⟩ := stepResume_others hs
        exact ⟨stepResume_masks hf.masks hr hg.1 hs, stepResume_nest hg.2 hr hs, hev,
          fun u hu _ => hpc u hu⟩
  obtain ⟨hmasks, hnest, hev, hpc⟩ := hheld
  refine ⟨⟨hrun, Nat.lt_of_lt_of_le hf.opened hnest, hmasks, hpool⟩, ?_, htime, hpc⟩
  intro ev hm
  exact hev ev (List.mem_singleton.1 hm).symm

theorem Frozen.run_alone (hf : s.Frozen t) (hr : ((system vals).startedAt s).Run KeepsOpen h s') :
    s'.Frozen t ∧ s.Alone t h s' := by
  refine hr.invariant (P := fun h s' => s'.Frozen t ∧ s.Alone t h s') ?_ ?_
  · rintro s' rfl
    exact ⟨hf, by simp, rfl, fun _ _ _ => rfl⟩
  · rintro h s₁ a e s₂ ⟨hf₁, hev, htime, hpc⟩ hg hs
    obtain ⟨hf₂, hev', htime', hpc'⟩ := hf₁.step hg hs
    refine ⟨hf₂, ?_, htime'.trans htime, fun u hu hn => ?_⟩
    · intro ev hm
      rcases List.mem_cons.1 hm with hm | hm
      · exact hev' ev (List.mem_singleton.2 hm)
      · exact hev ev hm
    · have h₁ := hpc u hu hn
      rw [hpc' u hu (by rwa [h₁]), h₁]

/-- After a call that leaves a section open, its caller runs alone. -/
theorem alone_after_call {s₁ : Sys} {c : Call} (hp : s.PoolOk) (hr : s.k.runPtr = some t)
    (hs : s.step (.call c) = some (e, s₁)) (hm : s₁.k.Masks) (ho : 0 < s₁.k.irq.nest)
    (hr' : ((system vals).startedAt s₁).Run KeepsOpen h' s') :
    s'.k.runPtr = some t ∧ s'.k.irq.gie = false ∧ s.Alone t h' s' := by
  have hf : s₁.Frozen t :=
    ⟨step_runPtr hs nofun hr, ho, hm, step_poolOk hp (a := .call c) trivial hs⟩
  have htime := step_osTickCnt hs nofun nofun
  have hothers : ∀ u, u ≠ t → s.pc u ≠ .none → s₁.pc u = s.pc u := by
    cases (steps_of_step hs).2 with
    | call c hr₁ =>
        cases hr₁.symm.trans hr
        exact (stepCall_others hp c).2
  obtain ⟨hf', hev, htime', hpc⟩ := hf.run_alone hr'
  refine ⟨hf'.run, hf'.masks hf'.opened, hev, htime'.trans htime, fun u hu hn => ?_⟩
  have h₁ := hothers u hu hn
  rw [hpc u hu (by rwa [h₁]), h₁]

/-! ### Creations that fail -/

/-- There is room for a thread as long as a slot is free. -/
theorem PoolOk.canCreate_iff (hp : s.PoolOk) : s.k.CanCreate ↔ ∃ i, s.pc (.slot i) = .none := by
  obtain ⟨l, hf, hl⟩ := hp.free
  unfold Kernel.CanCreate
  rw [← poolAlloc_fst]
  cases l with
  | nil =>
      rw [hf.alloc_nil]
      constructor
      · rintro ⟨hi, -⟩
        cases hi
      · rintro ⟨i, hi⟩
        cases (hl i).2 hi
  | cons i l =>
      rw [hf.alloc_cons.1, itemAt_itemAddr]
      exact ⟨fun _ => ⟨i, (hl i).1 List.mem_cons_self⟩, fun _ => ⟨rfl, hp.headLinked⟩⟩

theorem thrdCreate_failed {k : Kernel} {routine priority : Nat}
    (hc : routine = 0 ∨ priority = 0 ∨ ¬ k.CanCreate) :
    (k.thrdCreate routine priority).1 = (-1, none) := by
  unfold thrdCreate
  split
  · rfl
  · split
    · rfl
    · rename_i hr hp
      have hc : ¬ k.startCritical.CanCreate := (hc.resolve_left hr).resolve_left hp
      have ht := (osTaskCreate_leaks (k := k.startCritical) (Nat.mod_lt _ (by decide)) hc).2
      dsimp only
      rw [ht]

theorem thrdCreate_created {k : Kernel} {routine priority : Nat} (hr : routine ≠ 0)
    (hp : priority ≠ 0) (hc : k.CanCreate) : (k.thrdCreate routine priority).1.1 = 0 := by
  have hc : k.startCritical.CanCreate := hc
  obtain ⟨-, t, ht⟩ := osTaskCreate_nested (k := k.startCritical) (Nat.mod_lt _ (by decide)) hc
  unfold thrdCreate
  rw [if_neg hr, if_neg hp]
  dsimp only
  rw [ht]

/-- `thrd_create` returns 0 if and only if there are a routine, a priority and a slot that is no
thread's, and -1 otherwise. -/
theorem create_succeeds_iff (hr : (system vals).Run SaveGuard h s) (routine priority : SizeT) :
    ((s.k.thrdCreate routine priority).1.1 = 0 ↔
      routine.val ≠ 0 ∧ priority.val ≠ 0 ∧ ∃ i, s.pc (.slot i) = .none) ∧
    ((s.k.thrdCreate routine priority).1.1 ≠ 0 → (s.k.thrdCreate routine priority).1.1 = -1) := by
  rw [← (run_poolOk hr).canCreate_iff]
  by_cases hc : routine.val = 0 ∨ priority.val = 0 ∨ ¬ s.k.CanCreate
  · have hfst : (s.k.thrdCreate routine priority).1 = (-1, none) := thrdCreate_failed hc
    rw [hfst]
    refine ⟨⟨fun h0 => ?_, ?_⟩, fun _ => rfl⟩
    · cases h0
    · rintro ⟨hr, hp, hcan⟩
      exact absurd hcan ((hc.resolve_left hr).resolve_left hp)
  · push Not at hc
    have hfst := thrdCreate_created hc.1 hc.2.1 hc.2.2
    exact ⟨⟨fun _ => hc, fun _ => hfst⟩, fun h0 => absurd hfst h0⟩

/-- A thread has exited, so that its slot can be used again. -/
theorem create_succeeds_after_exit :
    ∃ h s, (system fun _ => 0).Run SaveGuard h s ∧ s.pc (.slot 15) = .none ∧
      (s.k.thrdCreate 1 1).1.1 = 0 := by
  rcases exists_run (fun _ => 0) (G := SaveGuard)
    (List.replicate 16 (.create 1 1) ++ [.launch, .call (.thrdExit 0), .resume])
    (P := fun _ s => s.pc (.slot 15) = .none) (by decide +kernel) with ⟨h, s, hr, hn⟩
  exact ⟨h, s, hr, hn, (create_succeeds_iff hr 1 1).1.2 ⟨by decide, by decide, 15, hn⟩⟩

/-- When all slots are in use, `thrd_create` returns -1 and leaves a section open. From then on its
caller runs alone: whatever it calls, no tick is taken, and no other thread goes on. -/
theorem failed_create_freezes {s₁ : Sys} {routine priority : SizeT}
    (hr : (system vals).Run SaveGuard h s) (hfull : ∀ i, s.pc (.slot i) ≠ .none)
    (hroutine : routine.val ≠ 0) (hpriority : priority.val ≠ 0) (hroom : Room s.k)
    (hs : s.step (.call (.thrdCreate routine priority)) = some (e, s₁))
    (hr' : ((system vals).startedAt s₁).Run KeepsOpen h' s') :
    ∃ t, s.k.runPtr = some t ∧ e = some ⟨t, .thrdCreate routine priority, -1⟩ ∧
      s'.k.runPtr = some t ∧ s'.k.irq.gie = false ∧ s.Alone t h' s' := by
  have hpool := run_poolOk hr
  have hc : ¬ s.k.CanCreate := by
    rw [hpool.canCreate_iff]
    rintro ⟨i, hi⟩
    exact hfull i hi
  have hfst : (s.k.thrdCreate routine priority).1 = (-1, none) :=
    thrdCreate_failed (.inr (.inr hc))
  have hopens := (thrdCreate_leaks hroom.lt hroutine hpriority hc).opens
    (by unfold Room at hroom; omega)
  have hmasks : (s.k.thrdCreate routine priority).2.Masks :=
    thrdCreate_masks fun hz => (hz.elim hroutine hpriority).elim
  have hnest : 0 < (s.k.thrdCreate routine priority).2.irq.nest := by
    rw [hopens]
    exact Nat.succ_pos _
  cases (steps_of_step hs).2 with
  | @call t c hrun hpc hp =>
      have hk : (s.stepCall t (.thrdCreate routine priority)).2.k =
          (s.k.thrdCreate routine priority).2 := by
        simp only [stepCall, complete_k, spawn_k]
      have halone := alone_after_call hpool hrun hs (by rwa [hk]) (by rwa [hk]) hr'
      refine ⟨t, hrun, ?_, halone⟩
      have hpend : (s.k.thrdCreate routine priority).2.irq.pending = false := by
        unfold Irq.pending
        rw [hmasks hnest]
        rfl
      unfold stepCall complete
      dsimp only
      rw [spawn_k, hpend]
      simp only [hfst]
      rfl

/-- `B` creates a seventeenth thread, and then gets the mutex that `A` holds. -/
theorem failed_create_freezes_mutex :
    ∃ h s e s₁ h' s', (system fun _ => 0).Run SaveGuard h s ∧
      s.step (.call (.thrdCreate 1 1)) = some (e, s₁) ∧
      ((system fun _ => 0).startedAt s₁).Run KeepsOpen h' s' ∧
      h' = [some ⟨.slot 14, .mtxLock 0, 0⟩] ∧ (s'.k.mtxs 0).holder = some (.slot 15) ∧
      ∃ t, s.k.runPtr = some t ∧ e = some ⟨t, .thrdCreate 1 1, -1⟩ ∧
        s'.k.runPtr = some t ∧ s'.k.irq.gie = false ∧ s.Alone t h' s' := by
  rcases exists_run (fun _ => 0) (G := SaveGuard)
    (List.replicate 16 (.create 1 1) ++ [.launch, .call (.mtxLock 0), .tick 0])
    (P := fun _ s => (∀ i, s.pc (.slot i) ≠ .none) ∧ Room s.k ∧
      (s.step (.call (.thrdCreate 1 1))).any (fun r =>
        decide (r.2.KeepsOpen (.call (.mtxLock 0))) && (r.2.step (.call (.mtxLock 0))).any fun r' =>
          decide (r'.1 = some ⟨.slot 14, .mtxLock 0, 0⟩ ∧
            (r'.2.k.mtxs 0).holder = some (.slot 15))) = true)
    (by decide +kernel) with ⟨h, s, hr, hfull, hroom, hany⟩
  obtain ⟨⟨e, s₁⟩, hs, hany⟩ := (Option.any_eq_true _ _).1 hany
  obtain ⟨hg, hany⟩ := Bool.and_eq_true_iff.1 hany
  obtain ⟨⟨e', s'⟩, hs', hend⟩ := (Option.any_eq_true _ _).1 hany
  obtain ⟨rfl, hh⟩ := of_decide_eq_true hend
  have hr' : ((system fun _ => 0).startedAt s₁).Run KeepsOpen [some ⟨.slot 14, .mtxLock 0, 0⟩] s' :=
    .step (.init rfl) (of_decide_eq_true hg) hs'
  exact ⟨h, s, e, s₁, _, s', hr, hs, hr', rfl, hh,
    failed_create_freezes hr hfull (by decide) (by decide) hroom hs hr'⟩

/-! ### Panics -/

theorem setPc_of_panic {p : Pc} (hp : p ≠ .panic) (h : (s.setPc t p).pc u = .panic) :
    s.pc u = .panic := by
  unfold setPc at h
  dsimp only at h
  rw [Function.update_apply] at h
  split at h
  · exact absurd h hp
  · exact h

theorem complete_of_panic {c : Call} {r : Int} (h : (s.complete t c r).2.pc u = .panic) :
    s.pc u = .panic := by
  unfold complete at h
  split at h
  · exact (setPc_of_panic (by simp) h :)
  · exact (setPc_of_panic (by simp) h :)

theorem spawn_of_panic {p : ThrdPtr} (h : (s.spawn p).pc u = .panic) : s.pc u = .panic := by
  cases p with
  | none => exact h
  | some t => exact (setPc_of_panic (by simp) h :)

/-- A call panics with a section open. -/
theorem stepCall_of_panic {c : Call} (hn : Room s.k) (h : (s.stepCall t c).2.pc u = .panic) :
    s.pc u = .panic ∨ 0 < (s.stepCall t c).2.k.irq.nest := by
  cases c with
  | thrdCreate r p => exact .inl (spawn_of_panic (complete_of_panic h :) :)
  | thrdSleep n =>
      unfold stepCall at h
      dsimp only at h
      split at h
      · exact .inl (complete_of_panic h :)
      · exact .inl (setPc_of_panic (by simp) h :)
  | mtxUnlock m =>
      rcases he : s.k.mtxUnlock m with ⟨r, k'⟩
      cases r with
      | none =>
          have hroom : s.k.irq.nest + 4 < wordSize := hn
          have hopen := mtxUnlock_panics (by omega) he
          simp only [stepCall, he, setPc_k]
          exact .inr (by omega)
      | some r =>
          simp only [stepCall, he] at h
          exact .inl (complete_of_panic h :)
  | thrdExit | thrdJoin | semTimedwait | mtxTimedlock =>
      exact .inl (setPc_of_panic (by simp) h :)
  | thrdYield | semWait | semTrywait | semPost | mtxLock | mtxTrylock =>
      exact .inl (complete_of_panic h :)

theorem stepResume_of_panic (hn : Room s.k) (hs : s.stepResume t = some (e, s'))
    (h : s'.pc u = .panic) : s.pc u = .panic ∨ 0 < s'.k.irq.nest := by
  cases resumes_of_stepResume hs with
  | ret | kill => exact .inl (setPc_of_panic (by simp) h :)
  | sleepPause | semTimedwait | mtxTimedlock | join => exact .inl (complete_of_panic h :)
  | mtxPanic m timeout locked hpc hl =>
      have hopen : (s.k.mtxTimedlockLeave m t locked).2.irq.nest = s.k.irq.nest + 3 :=
        mtxTimedlockLeave_panics hn (Prod.ext hl rfl)
      refine .inr ?_
      show 0 < (s.k.mtxTimedlockLeave m t locked).2.irq.nest
      omega

/-- No step closes a section that another one has left open. -/
theorem step_nest (hn : Room s.k) (hs : s.step a = some (e, s')) :
    s.k.irq.nest ≤ s'.k.irq.nest := by
  cases (steps_of_step hs).2 with
  | create routine priority =>
      rw [spawn_k]
      exact thrdCreate_nest hn _ _
  | launch =>
      refine Nat.le_of_eq ?_
      show s.k.irq.nest = s.k.osFirstTask.irq.nest
      unfold Kernel.osFirstTask
      split <;> rfl
  | call c hr => exact stepCall_nest c hn hr
  | resume hr hp hs => exact stepResume_nest hn hr hs
  | tick sp =>
      refine Nat.le_of_eq ?_
      show s.k.irq.nest = (save s.k sp).osUpdate.osSchedule.irq.nest
      rw [osSchedule_irq, osUpdate_irq]
      rfl

theorem step_of_panic (hn : Room s.k) (hs : s.step a = some (e, s')) (h : s'.pc u = .panic) :
    s.pc u = .panic ∨ 0 < s'.k.irq.nest := by
  cases (steps_of_step hs).2 with
  | create => exact .inl (spawn_of_panic h :)
  | launch | tick => exact .inl h
  | call c hr => exact stepCall_of_panic hn h
  | resume hr hp hs => exact stepResume_of_panic hn hs h

/-- The slots are saved as they should be, and the nesting counter is not about to wrap around. -/
def RoomGuard (s : Sys) (a : Action) : Prop := s.SaveGuard a ∧ Room s.k

instance (s : Sys) (a : Action) : Decidable (s.RoomGuard a) := inferInstanceAs (Decidable (_ ∧ _))

theorem run_panic (hr : (system vals).Run RoomGuard h s) (hu : s.pc u = .panic) :
    0 < s.k.irq.nest := by
  refine hr.invariant (P := fun _ s => s.pc u = .panic → 0 < s.k.irq.nest) ?_ ?_ hu
  · rintro s rfl hu
    cases hu
  · intro h s a e s' ih hg hs hu
    rcases step_of_panic hg.2 hs hu with hu | hopen
    · exact Nat.lt_of_lt_of_le (ih hu) (step_nest hg.2 hs)
    · exact hopen

end Sys

end MsTos
