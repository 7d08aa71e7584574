-- SUMMARY: Runs in which threads are created, wait, signal and yield, but neither sleep nor set deadlines nor end: the kernel never fails.
import MsTos.Blocking
import MsTos.Cursor
import MsTos.PoolSafety

namespace MsTos

/-- Creation, `thrd_yield` and the calls of semaphores and mutexes that set no deadline and take no
mutex that is held. -/
def Call.quiet : Call → Bool
  | .thrdCreate _ _ | .thrdYield | .semWait _ | .semTrywait _ | .semPost _ | .mtxLock _
  | .mtxUnlock _ => true
  | .thrdSleep _ | .thrdExit _ | .thrdJoin _ | .semTimedwait _ _ | .mtxTimedlock _ _
  | .mtxTrylock _ => false

/-! ## The abstract kernel -/

namespace View

variable {v v' : View} {o : Obj} {t u : TaskId} {a : Action} {e : Option Event}

/-- Nothing sleeps, no deadline is set, and no thread ends: every thread is linked or blocked. -/
structure Quiet (v : View) : Prop where
  sleepers : v.sleepers = 0
  deadlines : v.deadlines = 0
  pc : ∀ t, v.pc t = .none ∨ v.pc t = .user ∨ ∃ c r, v.pc t = .ret c r
  live : ∀ t, v.linked t = true → v.pc t ≠ .none
  run : ∀ i, v.run = some (.slot i) → v.pc (.slot i) ≠ .none
  linked : ∀ t, v.pc t ≠ .none → v.linked t = true ∨ (v.thrds t).state = .BLOCKING

namespace Quiet

/-- Nobody leaves a wait queue late. -/
theorem blocksOn (h : v.Quiet) (hw : waitsOn (v.pc t) = some o) : blocksOn (v.pc t) = some o := by
  obtain hn | hn | ⟨c, r, hn⟩ := h.pc t <;> rw [hn] at hw ⊢
  · exact hw
  · exact hw
  · rwa [waitsOn, show timesOn (.ret c r) = none from rfl, Option.or_none] at hw

/-- The running thread moves on in its code. -/
theorem setPc (h : v.Quiet) {p : Pc} (ht : v.pc t ≠ .none)
    (hp : p = .user ∨ ∃ c r, p = .ret c r) : (v.setPc t p).Quiet := by
  have hne : p ≠ .none := by
    rcases hp with rfl | ⟨c, r, rfl⟩ <;> simp
  have hpc : ∀ u, Function.update v.pc t p u = .none ↔ v.pc u = .none := by
    intro u
    rw [Function.update_apply]
    split
    · rename_i hu
      subst hu
      exact ⟨fun hn => absurd hn hne, fun hn => absurd hn ht⟩
    · rfl
  constructor
  case sleepers => exact h.sleepers
  case deadlines => exact h.deadlines
  case pc =>
      intro u
      show Function.update v.pc t p u = .none ∨ Function.update v.pc t p u = .user ∨
        ∃ c r, Function.update v.pc t p u = .ret c r
      rw [Function.update_apply]
      split
      · exact .inr hp
      · exact h.pc u
  case live => exact fun u hu => mt (hpc u).1 (h.live u hu)
  case run => exact fun i hi => mt (hpc _).1 (h.run i hi)
  case linked => exact fun u hu => h.linked u (mt (hpc u).2 hu)

/-- What only changes values, holders, wait queues and priorities. -/
theorem congr (h : v.Quiet) (hs : v'.sleepers = v.sleepers) (hd : v'.deadlines = v.deadlines)
    (hpc : v'.pc = v.pc) (hl : v'.linked = v.linked) (hr : v'.run = v.run)
    (ht : ∀ u, (v'.thrds u).state = (v.thrds u).state) : v'.Quiet := by
  constructor
  case sleepers => exact hs.trans h.sleepers
  case deadlines => exact hd.trans h.deadlines
  case pc => rw [hpc]; exact h.pc
  case live => rw [hpc, hl]; exact h.live
  case run => rw [hpc, hr]; exact h.run
  case linked =>
      intro u hu
      rw [hl, ht]
      rw [hpc] at hu
      exact h.linked u hu

theorem signals (h : v.Quiet) (hs : v.Signals o t v') (hw : v.Waiting) : v'.Quiet := by
  cases hs with
  | free hv => exact h.congr rfl rfl rfl rfl rfl fun _ => restored_state
  | crash hv hq => exact h.congr rfl rfl rfl rfl rfl fun _ => restored_state
  | @grant u l hv hq =>
      have hu : v.pc u ≠ .none := by
        intro hn
        have := hw.waiter_some (o := o) (t := u) (by rw [hq]; exact List.mem_cons_self)
        rw [hn] at this
        cases this
      constructor
      case sleepers => exact h.sleepers
      case deadlines => exact h.deadlines
      case pc => exact h.pc
      case live =>
          intro x hx
          have hx : Function.update v.linked u true x = true := hx
          rw [Function.update_apply] at hx
          split at hx
          · rename_i he
            rw [he]
            exact hu
          · exact h.live x hx
      case run => exact h.run
      case linked =>
          intro x hx
          show Function.update v.linked u true x = true ∨ (v.handed o t u x).state = .BLOCKING
          rw [Function.update_apply, handed_state]
          split
          · exact .inl rfl
          · exact h.linked x hx

/-- The running thread blocks. -/
theorem block (h : v.Quiet) (hl : Leaves ((v.enqueue o t).block t) t v') : v'.Quiet := by
  obtain ⟨l, f, rfl, hne, -⟩ := hl.eq
  have hlive : ∀ u, l u = true → v.linked u = true := by
    intro u hu
    cases hv : v.linked u with
    | true => rfl
    | false => exact absurd ((hl.linked (u := u) hv).symm.trans hu) Bool.false_ne_true
  constructor
  case sleepers => exact h.sleepers
  case deadlines => exact h.deadlines
  case pc => exact h.pc
  case live => exact fun u hu => h.live u (hlive u hu)
  case run => exact h.run
  case linked =>
      intro u hu
      show l u = true ∨ ((v.enqueue o t).setThrd t _ u).state = .BLOCKING
      rw [setThrd_state]
      split
      · exact .inr rfl
      · rename_i hut
        rw [hne u hut, show (v.enqueue o t).thrds = v.boosted o t from rfl, boosted_state]
        exact h.linked u hu

theorem start (h : v.Quiet) (i : Fin numThreads) (p : Nat) : (v.start i p).Quiet := by
  have hpc : ∀ u, Function.update v.pc (.slot i) .user u = .none → u ≠ .slot i ∧ v.pc u = .none := by
    intro u hu
    rw [Function.update_apply] at hu
    split at hu
    · cases hu
    · rename_i hne
      exact ⟨hne, hu⟩
  constructor
  case sleepers => exact h.sleepers
  case deadlines => exact h.deadlines
  case pc =>
      intro u
      show Function.update v.pc _ _ u = .none ∨ Function.update v.pc _ _ u = .user ∨
        ∃ c r, Function.update v.pc _ _ u = .ret c r
      rw [Function.update_apply]
      split
      · exact .inr (.inl rfl)
      · exact h.pc u
  case live =>
      intro u hu hn
      obtain ⟨hne, hn⟩ := hpc u hn
      have hu : Function.update v.linked (.slot i) true u = true := hu
      rw [Function.update_of_ne hne] at hu
      exact h.live u hu hn
  case run => exact fun j hj hn => h.run j hj (hpc _ hn).2
  case linked =>
      intro u hu
      show Function.update v.linked (.slot i) true u = true ∨
        (v.setThrd (.slot i) _ u).state = .BLOCKING
      rw [Function.update_apply, setThrd_state]
      split
      · exact .inl rfl
      · rename_i hne
        refine h.linked u ?_
        intro hn
        exact hu ((Function.update_of_ne hne _ _).trans hn)

theorem tick (h : v.Quiet) {woken expired : Multiset ThrdPtr} (ht : v.Ticks v' woken expired) :
    v'.Quiet := by
  have hzero : ∀ {r s : Multiset ThrdPtr}, 0 = r + s → r = 0 ∧ s = 0 := by
    intro r s he
    exact ⟨Multiset.le_zero.1 (he ▸ Multiset.le_add_right r s),
      Multiset.le_zero.1 (he ▸ Multiset.le_add_left s r)⟩
  have hw : woken = 0 ∧ v'.sleepers = 0 := hzero (h.sleepers.symm.trans ht.sleepers)
  have hx : expired = 0 ∧ v'.deadlines = 0 := hzero (h.deadlines.symm.trans ht.deadlines)
  have hl : ∀ u, v'.linked u = true ↔ v.linked u = true := by
    intro u
    rw [ht.linked, hw.1, hx.1]
    simp
  constructor
  case sleepers => exact hw.2
  case deadlines => exact hx.2
  case pc => rw [ht.pc]; exact h.pc
  case live => exact fun u hu => ht.pc ▸ h.live u ((hl u).1 hu)
  case run =>
      intro i hi
      rw [ht.pc]
      rcases ht.run with hn | ⟨u, hu, hlu⟩ | ⟨hn, -⟩ | ⟨hr, -⟩
      · rw [hn] at hi
        cases hi
      · rw [hu] at hi
        cases hi
        exact h.live _ ((hl _).1 hlu)
      · rw [hn] at hi
        cases hi
      · exact h.run i (hr ▸ hi)
  case linked =>
      intro u hu
      rw [ht.pc] at hu
      rcases h.linked u hu with hlu | hb
      · exact .inl ((hl u).2 hlu)
      · right
        obtain ⟨w, he⟩ := ht.thrds u
        rw [he, hw.1]
        exact hb

/-- Steps that only make quiet calls keep the system quiet. -/
theorem step (h : v.Quiet) (hw : v.Waiting) (hs : v.Step a e v')
    (hc : ∀ c, a = .call c → c.quiet = true) : v'.Quiet := by
  have hpc : ∀ {t : TaskId} {p : Pc}, v.pc t = p → p ≠ .none → v.pc t ≠ .none := by
    rintro t p rfl hp
    exact hp
  cases hs with
  | create r p i hr hi | thrdCreate r p i hr hu hi => exact h.start i p
  | createFails | fails => exact h
  | @launch p f hr hp =>
      refine ⟨h.sleepers, h.deadlines, h.pc, h.live, ?_, h.linked⟩
      intro i hi
      have hi : p = some (.slot i) := hi
      rcases hp with ⟨hn, -⟩ | ⟨hn, -⟩ | ⟨⟨u, hu, hl⟩, -⟩
      · rw [hn] at hi
        cases hi
      · rw [hn] at hi
        cases hi
      · rw [hu] at hi
        cases hi
        exact h.live _ hl
  | @yields t c hr hu _ =>
      have hq : Quiet { v with ifg := true } := h.congr rfl rfl rfl rfl rfl fun _ => rfl
      exact hq.setPc (hpc hu (by simp)) (.inr ⟨c, 0, rfl⟩)
  | take o hr hu hb => exact h.congr rfl rfl rfl rfl rfl fun _ => rfl
  | tryTake n hr hu hb => exact h.congr rfl rfl rfl rfl rfl fun _ => rfl
  | @block t v₁ o hr hu hb hl =>
      have hp : v₁.pc t ≠ .none := by
        obtain ⟨l, f, rfl, -⟩ := hl.eq
        exact hpc hu (by simp)
      exact (h.block hl).setPc hp (.inr ⟨_, _, rfl⟩)
  | signal o hr hu hh hs => exact h.signals hs hw
  | ret c r hr hi hu => exact h.setPc (hpc hu (by simp)) (.inl rfl)
  | tick sp hr ht => exact h.tick ht
  | trySteal m hr hu hb => cases hc _ rfl
  | timedTake o n hr hu hb | timedZero o n hn hr hu hb | timedBlock o n hn hr hu hb hl =>
      cases o <;> cases hc _ rfl
  | sleep n hn hr hu | exit r hr hu => cases hc _ rfl
  -- no thread stands there
  | @pause t _ n hr hi hu hl | @kill t _ hr hi hu hl | @rollback t _ n timeout hr hi hu hs hv =>
      rcases h.pc t with hn | hn | ⟨c, r, hn⟩ <;> cases hu.symm.trans hn
  | @timedLeave t o n b hr hi hu hs hm =>
      cases o <;> rcases h.pc t with hn | hn | ⟨c, r, hn⟩ <;> cases hu.symm.trans hn

end Quiet

/-- A signal finds the waiter that it is for, unless the value of a semaphore overflows. -/
theorem Signals.fault (hs : v.Signals o t v') (hw : v.Waiting) (hf : v.fault = false)
    (hv : ∀ n, o = .sem n → v.val n < 32767) : v'.fault = false := by
  cases hs with
  | free | grant => exact hf
  | crash hn hq =>
      cases o with
      | mtx m => exact absurd hq hn
      | sem n =>
          have hle := hv n rfl
          have hlen := (hw.val hf n).2
          rw [hq, List.length_nil] at hlen
          refine absurd ?_ hn
          show 0 < toInt (v.val n + 1)
          rw [toInt_of_mem (by omega) (by omega)]
          omega

/-- A quiet step may fail only where it follows the cursor of the run queue. -/
theorem Quiet.fault (h : v.Quiet) (hw : v.Waiting) (hf : v.fault = false) (hs : v.Step a e v')
    (hc : ∀ c, a = .call c → c.quiet = true) (hv : ∀ n, a = .call (.semPost n) → v.val n < 32767) :
    v'.fault = false ∨ a = .launch ∨ (∃ sp, a = .tick sp) ∨ ∃ o : Obj, a = .call o.waitCall := by
  cases hs with
  | create | createFails | thrdCreate | fails | yields | take | tryTake | ret => exact .inl hf
  | launch hr hp => exact .inr (.inl rfl)
  | tick sp hr ht => exact .inr (.inr (.inl ⟨sp, rfl⟩))
  | block o hr hu hb hl => exact .inr (.inr (.inr ⟨o, rfl⟩))
  | signal o hr hu hh hs =>
      refine .inl (hs.fault hw hf ?_)
      rintro n rfl
      exact hv n rfl
  | trySteal m hr hu hb => cases hc _ rfl
  | timedTake o n hr hu hb | timedZero o n hn hr hu hb | timedBlock o n hn hr hu hb hl =>
      cases o <;> cases hc _ rfl
  | sleep n hn hr hu | exit r hr hu => cases hc _ rfl
  | @pause t _ n hr hi hu hl | @kill t _ hr hi hu hl | @rollback t _ n timeout hr hi hu hs hv =>
      rcases h.pc t with hn | hn | ⟨c, r, hn⟩ <;> cases hu.symm.trans hn
  | @timedLeave t o n b hr hi hu hs hm =>
      cases o <;> rcases h.pc t with hn | hn | ⟨c, r, hn⟩ <;> cases hu.symm.trans hn

end View

/-! ## The cursor and the running thread -/

namespace Kernel

variable {k : Kernel} {t : TaskId}

/-- The cursor is on the running thread, as long as that thread is linked. -/
def CursorOnRunning (k : Kernel) : Prop :=
  ∀ t, k.runPtr = some t → k.runQueue.linked t = true → k.runQueue.current = some (.elem t)

/-- With its cursor in order, the run queue always has a task to change to. -/
theorem osChangeTask_ok (hk : k.runQueue.Ok) (hc : 0 < k.runQueue.taskActiveCnt) :
    k.osChangeTask.fault = k.fault ∧ k.osChangeTask.CursorOnRunning := by
  obtain ⟨l, hl, hcur⟩ := hk
  have hne : l ≠ [] := by
    rintro rfl
    rw [hl.count] at hc
    exact absurd hc (lt_irrefl 0)
  obtain ⟨t, -, he⟩ := hcur.changeTask hl hne
  refine ⟨?_, ?_⟩
  · simp [osChangeTask, he]
  · intro u hu _
    have hr : k.osChangeTask.runPtr = some t := congrArg Prod.fst he
    cases hr.symm.trans hu
    exact congrArg (fun r => r.2.current) he

theorem osSchedule_fault (hk : k.runQueue.Ok) (hr : k.runPtr ≠ none) :
    k.osSchedule.fault = k.fault := by
  unfold osSchedule
  split
  · rename_i hpos
    unfold osNext
    cases hrt : k.runPtr with
    | none => exact absurd hrt hr
    | some t =>
        dsimp only
        split
        · exact (osChangeTask_ok (k := k.setThrd t _) hk hpos).1
        · split
          · exact (osChangeTask_ok (k := (k.setThrd t _).setThrd t _) hk hpos).1
          · rfl
  · rfl

theorem osSchedule_cursor (hk : k.runQueue.Ok) (hc : k.CursorOnRunning) :
    k.osSchedule.CursorOnRunning := by
  unfold osSchedule
  split
  · rename_i hpos
    unfold osNext
    cases hrt : k.runPtr with
    | none =>
        intro u hu
        cases hu
    | some t =>
        dsimp only
        split
        · exact (osChangeTask_ok (k := k.setThrd t _) hk hpos).2
        · split
          · exact (osChangeTask_ok (k := (k.setThrd t _).setThrd t _) hk hpos).2
          · exact hc
  · rename_i hz
    obtain ⟨l, hl, -⟩ := hk
    intro u _ hu
    have hm := List.length_pos_of_mem (hl.linked_iff.1 hu)
    rw [← hl.count] at hm
    exact absurd hm hz

theorem osFirstTask_ok (hk : k.runQueue.Ok) :
    k.osFirstTask.fault = k.fault ∧ k.osFirstTask.CursorOnRunning := by
  unfold osFirstTask
  split
  · rename_i hpos
    exact osChangeTask_ok hk hpos
  · rename_i hz
    refine ⟨rfl, ?_⟩
    obtain ⟨l, hl, -⟩ := hk
    intro u _ hu
    have hm := List.length_pos_of_mem (hl.linked_iff.1 hu)
    rw [← hl.count] at hm
    exact absurd hm hz

/-- Where nobody sleeps and no deadline is set, `os_update` only counts. -/
theorem osUpdate_eq (hs : k.sleepQueue.count = 0) (hd : k.tWaitqueue.count = 0) :
    k.osUpdate = { k with osTickCnt := (k.osTickCnt + 1) % wordSize } := by
  unfold osUpdate
  simp only [hs, hd, wakeSleepers, expireDeadlines]

/-- A thread that blocks follows the cursor only. -/
theorem semWait_fault (hi : k.Open) (hr : k.runPtr = some t) (hc : k.runQueue.current ≠ none)
    (s : SemId) : (k.semWait s).fault = k.fault := by
  rcases Classical.em (k.SemBlocks s) with hb | hb
  · rw [semWait_of_blocks hi hr hb]
    show (k.fault || k.runQueue.current.isNone) = k.fault
    simp [Option.isNone_eq_false_iff.2 (Option.isSome_iff_ne_none.2 hc)]
  · rw [semWait_of_not_blocks hi hb]
    rfl

theorem mtxLock_fault (hi : k.Open) (hr : k.runPtr = some t) (hc : k.runQueue.current ≠ none)
    (m : Nat) : (k.mtxLock m).fault = k.fault := by
  cases hh : (k.mtxs m).holder with
  | none =>
      rw [mtxLock_of_free hi hr hh]
      rfl
  | some h =>
      rw [mtxLock_of_held hi hr hh, mtxBoost_eq]
      show (k.fault || k.runQueue.current.isNone) = k.fault
      simp [Option.isNone_eq_false_iff.2 (Option.isSome_iff_ne_none.2 hc)]

theorem leave_linked (hl : ∃ l, k.runQueue.Holds l) (hc : k.runQueue.current ≠ none) :
    (k.leave t).runQueue.linked t = false := by
  obtain ⟨l, hl⟩ := hl
  show (k.runQueue.osDelTaskMmang t).2.linked t = false
  rw [hl.linked_del t hc, Function.update_self]

theorem semWait_linked (hi : k.Open) (hr : k.runPtr = some t) (hl : ∃ l, k.runQueue.Holds l)
    (hc : k.runQueue.current ≠ none) {s : SemId} (hb : k.SemBlocks s) :
    (k.semWait s).runQueue.linked t = false := by
  rw [semWait_of_blocks hi hr hb]
  exact leave_linked (k := ((k.semDown s).semEnqueue s (some t)).setThrd t _) hl hc

theorem mtxLock_linked (hi : k.Open) (hr : k.runPtr = some t) (hl : ∃ l, k.runQueue.Holds l)
    (hc : k.runQueue.current ≠ none) {m : Nat} (hb : k.MtxHeld m) :
    (k.mtxLock m).runQueue.linked t = false := by
  obtain ⟨h, hh⟩ := Option.ne_none_iff_exists'.1 hb
  rw [mtxLock_of_held hi hr hh, mtxBoost_eq]
  exact leave_linked (k := (mtxEnqueue { k with thrds := boost k.thrds h t } m (some t)).setThrd t _)
    hl hc

end Kernel

/-! ## Runs -/

namespace Sys

variable {s s' : Sys} {t : TaskId} {a : Action} {e : Option Event} {vals : Nat → Nat}

/-- A quiet call whose value of the semaphore stays an `int16_t`, and that unlocks only a mutex
that the caller holds. -/
def QuietCall (s : Sys) (c : Call) : Prop :=
  c.quiet = true ∧
    match c with
    | .semPost n => (s.k.sems (.app n)).val < 32767
    | .mtxUnlock m => (s.k.mtxs m).holder = s.k.runPtr
    | _ => True

instance (s : Sys) (c : Call) : Decidable (s.QuietCall c) := by
  unfold QuietCall
  cases c <;> infer_instance

/-- At most 16 threads are created, and the calls are quiet. -/
def QuietGuard (s : Sys) (a : Action) : Prop :=
  (creates a = true → ∃ i, s.pc (.slot i) = .none) ∧
    match a with
    | .call c => s.QuietCall c
    | _ => True

instance (s : Sys) : ∀ a, Decidable (s.QuietGuard a)
  | .call c => inferInstanceAs (Decidable ((creates (.call c) = true → _) ∧ s.QuietCall c))
  | .create _ _ | .launch | .resume | .tick _ =>
      inferInstanceAs (Decidable ((creates _ = true → _) ∧ True))

/-- What holds along a quiet run: the kernel has not failed, and everything is in order. -/
structure QuietOk (s : Sys) : Prop where
  sound : s.Sound
  waiting : s.view.Waiting
  quiet : s.view.Quiet
  pool : s.PoolOk
  runQueue : s.k.runQueue.Ok
  cursor : s.k.CursorOnRunning
  fault : s.k.fault = false

namespace QuietOk

theorem freeSlot (h : s.QuietOk) (hn : ∃ i, s.pc (.slot i) = .none) : s.FreeSlot := by
  obtain ⟨l, hf, hl⟩ := h.pool.free
  obtain ⟨i, hi⟩ := hn
  cases l with
  | nil => exact absurd ((hl i).2 hi) List.not_mem_nil
  | cons j l =>
      have hj : s.pc (.slot j) = .none := (hl j).1 List.mem_cons_self
      refine ⟨j, ?_, hj, ?_⟩
      · rw [show s.k.taskMem.freeList = itemAddr j from hf.chain.1]
        exact itemAt_itemAddr j
      · cases hlj : s.k.runQueue.linked (.slot j) with
        | false => rfl
        | true => exact absurd hj (h.quiet.live _ hlj)

/-- A quiet step is one of the abstract kernel, with its wait queues in order. -/
theorem clean (h : s.QuietOk) (hg : s.QuietGuard a) : s.Clean a := by
  refine ⟨⟨fun hc => h.freeSlot (hg.1 hc), ?_⟩, ?_, ?_⟩
  · intro t hr
    cases a with
    | call c =>
        have hc : s.QuietCall c := hg.2
        cases c with
        | mtxUnlock m => exact hc.2.trans hr
        | thrdJoin other => cases hc.1
        | _ => trivial
    | resume =>
        intro m hm
        rcases h.quiet.pc t with hn | hn | ⟨c, r, hn⟩ <;>
          rw [show s.pc t = _ from hn] at hm <;> cases hm
    | _ => trivial
  · intro _ t _ o ho
    rcases h.quiet.pc t with hn | hn | ⟨c, r, hn⟩ <;> rw [hn] at ho <;> cases ho
  · cases a with
    | tick sp =>
        intro t _ hm
        rcases h.sound.good.mem_taken hm with hm | hm
        · rw [show s.k.sleepQueue.handles = 0 from h.quiet.sleepers] at hm
          exact Multiset.notMem_zero _ hm
        · rw [show s.k.tWaitqueue.handles = 0 from h.quiet.deadlines] at hm
          exact Multiset.notMem_zero _ hm
    | _ => trivial

theorem saveGuard (h : s.QuietOk) : s.SaveGuard a := by
  cases a with
  | tick sp => exact fun i hr hn => absurd hn (h.quiet.run i hr)
  | _ => trivial

theorem cursorGuard (h : s.QuietOk) (hg : s.QuietGuard a) : s.CursorGuard a := by
  refine ⟨fun hc => .inr (h.freeSlot (hg.1 hc)), ?_⟩
  intro t hd ht hne
  have hr : s.k.runPtr = some t := by
    cases a with
    | call c => exact (of_decide_eq_true hd).1
    | resume => exact (of_decide_eq_true hd).1
    | _ => cases hd
  obtain ⟨l, hl, -⟩ := h.runQueue
  exact hl.delKeepsCursor (h.cursor t hr ht) ht hne

/-- A thread that can make a call is linked. -/
theorem running_linked (h : s.QuietOk) (hr : s.k.runPtr = some t) (hpc : s.pc t = .user)
    (hi : s.k.irq.pending = false) : s.k.runQueue.linked t = true := by
  have hifg : s.view.ifg = false := (h.sound.enabled.open hi).ifg
  rcases h.quiet.linked t (by rw [show s.view.pc t = _ from hpc]; simp) with hl | hb
  · exact hl
  · exact absurd hb (h.waiting.running_not_blocking h.fault hr hifg)

end QuietOk

/-- A tick only selects a thread. -/
theorem QuietOk.tick_ok (h : s.QuietOk) (hr : s.k.runPtr = some t) (sp : Addr) :
    (osTick s.k sp).fault = s.k.fault ∧ (osTick s.k sp).CursorOnRunning := by
  have hs : s.k.sleepQueue.count = 0 := by
    rw [← PQueue.card_handles, show s.k.sleepQueue.handles = 0 from h.quiet.sleepers]
    rfl
  have hd : s.k.tWaitqueue.count = 0 := by
    rw [← PQueue.card_handles, show s.k.tWaitqueue.handles = 0 from h.quiet.deadlines]
    rfl
  unfold osTick
  rw [Kernel.osUpdate_eq (k := save s.k sp) hs hd]
  refine ⟨Kernel.osSchedule_fault (k := { save s.k sp with
    osTickCnt := ((save s.k sp).osTickCnt + 1) % wordSize }) h.runQueue ?_,
    Kernel.osSchedule_cursor (k := { save s.k sp with
      osTickCnt := ((save s.k sp).osTickCnt + 1) % wordSize }) h.runQueue h.cursor⟩
  show s.k.runPtr ≠ none
  rw [hr]
  exact Option.some_ne_none t

theorem QuietGuard.quiet (hg : s.QuietGuard a) (c : Call) (hc : a = .call c) : c.quiet = true := by
  subst hc
  exact hg.2.1

/-- No quiet step follows a `NULL` pointer. -/
theorem QuietOk.step_fault (h : s.QuietOk) (hg : s.QuietGuard a) (hs : s.step a = some (e, s')) :
    s'.k.fault = false := by
  have hst := (step_refines h.sound (h.clean hg).1 hs).2
  have hv : ∀ n, a = .call (.semPost n) → s.view.val n < 32767 := by
    rintro n rfl
    exact hg.2.2
  rcases h.quiet.fault h.waiting h.fault hst hg.quiet hv with hf | rfl | ⟨sp, rfl⟩ | ⟨o, rfl⟩
  · exact hf
  · cases (steps_of_step hs).2 with
    | launch hr => exact (Kernel.osFirstTask_ok h.runQueue).1.trans h.fault
  · cases (steps_of_step hs).2 with
    | tick _ hr hgie => exact (h.tick_ok hr sp).1.trans h.fault
  · generalize hc : o.waitCall = c at hs
    cases (steps_of_step hs).2 with
    | @call t _ hr hpc hp =>
        have ho := h.sound.enabled.open hp
        -- the caller is linked, so that the cursor is on it
        have hcur : s.k.runQueue.current ≠ none := by
          rw [h.cursor t hr (h.running_linked hr hpc hp)]
          exact Option.some_ne_none _
        cases o with
        | sem n =>
            subst hc
            show (complete _ t _ _).2.k.fault = false
            rw [complete_k]
            exact (Kernel.semWait_fault ho hr hcur _).trans h.fault
        | mtx m =>
            subst hc
            show (complete _ t _ _).2.k.fault = false
            rw [complete_k]
            exact (Kernel.mtxLock_fault ho hr hcur m).trans h.fault

/-- A call that does not unlink its caller leaves the cursor on it. -/
theorem QuietOk.call_cursor (h : s.QuietOk) {c : Call} (hg : s.QuietGuard (.call c))
    (hr : s.k.runPtr = some t) (hpc : s.pc t = .user) (hp : s.k.irq.pending = false)
    (hd : s.callDeletes c = false) : (s.stepCall t c).2.k.runQueue.current = some (.elem t) := by
  have hl := h.running_linked hr hpc hp
  obtain ⟨l, hlist, -⟩ := h.runQueue
  have hk : ∃ l, s.k.runQueue.Holds l ∧ t ∈ l ∧ s.k.runQueue.current = some (.elem t) :=
    ⟨l, hlist, hlist.linked_iff.1 hl, h.cursor t hr hl⟩
  have hkeep := stepCall_keeps
    (P := fun q => ∃ l, q.Holds l ∧ t ∈ l ∧ q.current = some (.elem t)) ?_ c hk hr ?_ ?_
  · obtain ⟨-, -, -, hcur⟩ := hkeep
    exact hcur
  · rintro q u ⟨l, hq, ht, hcur⟩
    rcases Classical.em (u ∈ l) with hu | hu
    · rw [hq.add_of_mem hu]
      exact ⟨l, hq, ht, hcur⟩
    · refine ⟨_, (hq.add hu).2, List.mem_append_left _ ht, ?_⟩
      rw [hq.current_add ht]
      exact hcur
  · intro hc i hi
    have hli := ((h.cursorGuard hg).1 hc).not_linked i hi
    refine ⟨l, ?_, hlist.linked_iff.1 hl, h.cursor t hr hl⟩
    have hn : TaskId.slot i ∉ l := by
      rw [← hlist.linked_iff, hli]
      exact Bool.false_ne_true
    rw [hlist.list.elementInit (mt RunQueue.elem_mem.1 hn)]
    exact hlist
  · intro hd'
    rw [hd] at hd'
    cases hd'

/-- A call that unlinks its caller leaves it unlinked. -/
theorem QuietOk.call_linked (h : s.QuietOk) {c : Call} (hg : s.QuietGuard (.call c))
    (hr : s.k.runPtr = some t) (hpc : s.pc t = .user) (hp : s.k.irq.pending = false)
    (hd : s.callDeletes c = true) : (s.stepCall t c).2.k.runQueue.linked t = false := by
  have ho := h.sound.enabled.open hp
  have hcur : s.k.runQueue.current ≠ none := by
    rw [h.cursor t hr (h.running_linked hr hpc hp)]
    exact Option.some_ne_none _
  have hq := hg.quiet c rfl
  cases c with
  | semWait n =>
      show (complete _ t _ _).2.k.runQueue.linked t = false
      rw [complete_k]
      exact Kernel.semWait_linked ho hr h.sound.good.list hcur (of_decide_eq_true hd)
  | mtxLock m =>
      show (complete _ t _ _).2.k.runQueue.linked t = false
      rw [complete_k]
      exact Kernel.mtxLock_linked ho hr h.sound.good.list hcur (of_decide_eq_true hd)
  | thrdJoin | semTimedwait | mtxTimedlock => cases hq
  | _ => cases hd

theorem QuietOk.step_cursor (h : s.QuietOk) (hg : s.QuietGuard a)
    (hs : s.step a = some (e, s')) : s'.k.CursorOnRunning := by
  have hst := (step_refines h.sound (h.clean hg).1 hs).2
  cases (steps_of_step hs).2 with
  | launch hr => exact (Kernel.osFirstTask_ok h.runQueue).2
  | tick sp hr hgie => exact (h.tick_ok hr sp).2
  | create routine priority hr =>
      intro t ht
      rcases hst.run_eq with he | he | ⟨sp, he⟩
      · cases ht.symm.trans (he.trans hr)
      · cases he
      · cases he
  | @call t c hr hpc hp =>
      intro u hu hlu
      obtain rfl : t = u := by
        rcases hst.run_eq with he | he | ⟨sp, he⟩
        · exact Option.some.inj ((he.trans hr).symm.trans hu)
        · cases he
        · cases he
      cases hd : s.callDeletes c with
      | false => exact h.call_cursor hg hr hpc hp hd
      | true => exact absurd ((h.call_linked hg hr hpc hp hd).symm.trans hlu) Bool.false_ne_true
  | @resume t e s' hr hp hres =>
      rcases h.quiet.pc t with hn | hn | ⟨c, r, hn⟩ <;>
        rw [stepResume, show s.pc t = _ from hn] at hres <;> cases hres
      exact h.cursor

theorem QuietOk.step (h : s.QuietOk) (hg : s.QuietGuard a) (hs : s.step a = some (e, s')) :
    s'.QuietOk := by
  have hc := h.clean hg
  obtain ⟨hsound, hst⟩ := step_refines h.sound hc.1 hs
  exact
    { sound := hsound
      waiting := hc.waiting h.sound hs h.waiting
      quiet := h.quiet.step h.waiting hst hg.quiet
      pool := step_poolOk h.pool h.saveGuard hs
      runQueue := step_ok h.runQueue (h.cursorGuard hg) hs
      cursor := h.step_cursor hg hs
      fault := h.step_fault hg hs }

theorem boot_quietOk (hv : ValidVals vals) : (boot vals).QuietOk where
  sound := boot_sound vals
  waiting := boot_waiting hv
  quiet :=
    { sleepers := rfl
      deadlines := rfl
      pc := fun _ => .inl rfl
      live := by
        intro t ht
        cases t <;> cases ht
      run := by
        intro i hi
        cases hi
      linked := fun t ht => absurd rfl ht }
  pool := boot_poolOk vals
  runQueue := boot_ok vals
  cursor := by
    intro t ht
    cases ht
  fault := rfl

end Sys

end MsTos
