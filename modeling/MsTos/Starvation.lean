-- SUMMARY: Starvation: two threads that wake each other up keep a third one, which is ready, from running for any number of turns.
import MsTos.Overtaking
import MsTos.QuietRuns

namespace MsTos

namespace Kernel

variable {k : Kernel} {t x y : TaskId} {n m : Nat} {v : Int} {l : List ThrdPtr}

/-! ## Semaphores -/

/-- The value and the waiters of a semaphore. -/
structure SemIs (k : Kernel) (n : Nat) (v : Int) (l : List ThrdPtr) : Prop where
  val : (k.sems (.app n)).val = v
  queue : (k.sems (.app n)).wq.Ok
  waiters : (k.sems (.app n)).wq.toList = l

instance (k : Kernel) (n : Nat) (v : Int) (l : List ThrdPtr) : Decidable (k.SemIs n v l) :=
  decidable_of_iff ((k.sems (.app n)).val = v ∧ ((k.sems (.app n)).wq.count ≤ numThreads ∧
      (k.sems (.app n)).wq.read < numThreads ∧ (k.sems (.app n)).wq.write =
        ((k.sems (.app n)).wq.read + (k.sems (.app n)).wq.count) % numThreads) ∧
      (k.sems (.app n)).wq.toList = l)
    ⟨fun h => ⟨h.1, ⟨h.2.1.1, h.2.1.2.1, h.2.1.2.2⟩, h.2.2⟩,
      fun h => ⟨h.val, ⟨h.queue.count_le, h.queue.read_lt, h.queue.write_eq⟩, h.waiters⟩⟩

theorem SemIs.congr {k' : Kernel} (h : k.SemIs n v l) (hs : k'.sems (.app n) = k.sems (.app n)) :
    k'.SemIs n v l :=
  ⟨hs ▸ h.val, hs ▸ h.queue, hs ▸ h.waiters⟩

/-- `sem_post` of a semaphore on which `y` has blocked. -/
def posted (k : Kernel) (n : Nat) (y : TaskId) : Kernel :=
  ((k.semUp (.app n)).semDequeue (.app n)).wake y

/-- `sem_wait` by a thread that finds no permit. -/
def waited (k : Kernel) (n : Nat) (x : TaskId) : Kernel :=
  ((k.semDown (.app n)).semEnqueue (.app n) (some x)).block x

theorem posted_sems : (k.posted n y).sems = Function.update k.sems (.app n)
    ⟨toInt ((k.sems (.app n)).val + 1), (k.sems (.app n)).wq.pop.2⟩ := by
  show (((k.semUp (.app n)).semDequeue (.app n))).sems = _
  simp only [semUp, semDequeue, setSem, Function.update_self, Function.update_idem]

theorem waited_sems : (k.waited n x).sems = Function.update k.sems (.app n)
    ⟨toInt ((k.sems (.app n)).val - 1), ((k.sems (.app n)).wq.push (some x)).2⟩ := by
  show (((k.semDown (.app n)).semEnqueue (.app n) (some x))).sems = _
  simp only [semDown, semEnqueue, setSem, Function.update_self, Function.update_idem]

theorem waited_runQueue : (k.waited n x).runQueue = (k.runQueue.osDelTaskMmang x).2 := rfl

theorem waited_runPtr : (k.waited n x).runPtr = k.runPtr := rfl

theorem waited_sleepQueue : (k.waited n x).sleepQueue = k.sleepQueue := rfl

theorem waited_tWaitqueue : (k.waited n x).tWaitqueue = k.tWaitqueue := rfl

theorem waited_state : ((k.waited n x).thrds x).state = .BLOCKING := by
  show (Function.update ((k.semDown (.app n)).semEnqueue (.app n) (some x)).thrds x _ x).state = _
  rw [Function.update_self]

theorem waited_irq (h : k.Open) : (k.waited n x).irq = ⟨0, true, true⟩ := by
  show k.irq.request = _
  rw [show k.irq = ⟨0, true, false⟩ from h]
  rfl

theorem waited_fault (hf : k.fault = false) (hc : k.runQueue.current ≠ none) :
    (k.waited n x).fault = false := by
  show (k.fault || k.runQueue.current.isNone) = false
  simp [hf, Option.isNone_eq_false_iff.2 (Option.isSome_iff_ne_none.2 hc)]

theorem SemIs.posted (h : k.SemIs n (-1) [some y]) : (k.posted n y).SemIs n 0 [] := by
  have hs : (k.posted n y).sems (.app n) =
      ⟨toInt ((k.sems (.app n)).val + 1), (k.sems (.app n)).wq.pop.2⟩ := by
    rw [posted_sems, Function.update_self]
  refine ⟨?_, ?_, ?_⟩ <;> rw [hs]
  · rw [h.val]
    rfl
  · exact h.queue.pop
  · exact (Queue.toList_pop h.waiters).2

theorem SemIs.waited (h : k.SemIs n 0 []) : (k.waited n x).SemIs n (-1) [some x] := by
  have hs : (k.waited n x).sems (.app n) =
      ⟨toInt ((k.sems (.app n)).val - 1), ((k.sems (.app n)).wq.push (some x)).2⟩ := by
    rw [waited_sems, Function.update_self]
  have hp := h.queue.push_list (some x)
  rw [h.waiters] at hp
  refine ⟨?_, ?_, ?_⟩ <;> rw [hs]
  · rw [h.val]
    rfl
  · exact hp.1
  · exact hp.2

theorem SemIs.semPost (h : k.SemIs n (-1) [some y]) (ho : k.Open) :
    k.semPost (.app n) = k.posted n y := by
  have hv : ¬ 0 < toInt ((k.sems (.app n)).val + 1) := by
    rw [h.val]
    decide
  exact semPost_of_some (.inl ho) hv (Queue.toList_pop h.waiters).1

theorem SemIs.blocks (h : k.SemIs n 0 []) : k.SemBlocks (.app n) := by
  unfold SemBlocks
  rw [h.val]
  decide

/-! ## The tick after a thread has blocked -/

/-- Where nobody sleeps, the tick that a blocked thread has requested only changes the task. -/
theorem osTick_of_blocked (hr : k.runPtr = some x) (hb : (k.thrds x).state = .BLOCKING)
    (hi : k.irq = ⟨0, true, true⟩) (hf : k.fault = false)
    (ht : k.runQueue.Turns ⟨[t], [y]⟩) (hs : k.sleepQueue.count = 0)
    (hd : k.tWaitqueue.count = 0) (sp : Addr) :
    (Sys.osTick k sp).runQueue.Turns ⟨[t, y], []⟩ ∧ (Sys.osTick k sp).runPtr = some y ∧
      (Sys.osTick k sp).fault = false ∧ (Sys.osTick k sp).Open ∧
      (Sys.osTick k sp).sems = k.sems ∧ (Sys.osTick k sp).sleepQueue = k.sleepQueue ∧
      (Sys.osTick k sp).tWaitqueue = k.tWaitqueue := by
  obtain ⟨hc, hq⟩ := ht.changeTask (by simp [Round.toList])
  have hpos : (Sys.save k sp).runQueue.taskActiveCnt > 0 := by
    show k.runQueue.taskActiveCnt > 0
    rw [ht.holds.count]
    exact Nat.succ_pos 1
  have he : Sys.osTick k sp = { (({ Sys.save k sp with
      osTickCnt := ((Sys.save k sp).osTickCnt + 1) % wordSize } : Kernel).setThrd x fun thrd =>
        { thrd with workingPrio := thrd.fixedPrio }).osChangeTask with
      irq := ⟨0, true, false⟩ } := by
    unfold Sys.osTick
    rw [osUpdate_eq (k := Sys.save k sp) hs hd, osSchedule, if_pos hpos, osNext]
    simp only [show (Sys.save k sp).runPtr = some x from hr]
    rw [if_pos (.inl (show ((Sys.save k sp).thrds x).state = .BLOCKING from hb))]
    have hirq : (Sys.save k sp).irq = ⟨0, false, false⟩ := by
      show { k.irq with gie := false, wdtifg := false } = _
      rw [hi]
    unfold osChangeTask setThrd
    dsimp only
    rw [hirq]
  rw [he]
  refine ⟨hq, hc, ?_, rfl, rfl, rfl, rfl⟩
  show (k.fault || k.runQueue.osChangeTask.1.isNone) = false
  rw [hf, hc]
  rfl

end Kernel

/-! ## A round -/

namespace Sys

variable {s s' : Sys} {t x y : TaskId} {i j : Nat}

/-- `x` runs, `y` has blocked on the semaphore `j`, `t` is ready, and nobody waits for `i`. The
cursor is on `x`, which is the last one in the run queue. -/
structure Duet (s : Sys) (t x y : TaskId) (i j : Nat) : Prop where
  fault : s.k.fault = false
  enabled : s.k.Open
  run : s.k.runPtr = some x
  turns : s.k.runQueue.Turns ⟨[t, x], []⟩
  caller : s.pc x = .user
  blocked : s.pc y = .ret (.semWait j) 0
  own : s.k.SemIs i 0 []
  other : s.k.SemIs j (-1) [some y]
  sleepers : s.k.sleepQueue.count = 0
  deadlines : s.k.tWaitqueue.count = 0

/-- `x` posts `j`, and `y` is ready. -/
def afterPost (s : Sys) (x y : TaskId) (j : Nat) : Sys :=
  { s with k := s.k.posted j y }.setPc x .user

/-- `x` blocks on `i`. -/
def afterWait (s : Sys) (x : TaskId) (i : Nat) : Sys :=
  { s with k := s.k.waited i x }.setPc x (.ret (.semWait i) 0)

/-- The tick comes. -/
def afterTick (s : Sys) : Sys := { s with k := osTick s.k 0 }

theorem afterPost_k : (s.afterPost x y j).k = s.k.posted j y := rfl

theorem afterWait_k : (s.afterWait x i).k = s.k.waited i x := rfl

theorem step_call (hf : s.k.fault = false) (hr : s.k.runPtr = some x) (hu : s.pc x = .user)
    (ho : s.k.Open) (c : Call) : s.step (.call c) = some (s.stepCall x c) := by
  have hp : (!s.k.irq.pending) = true := by
    rw [show s.k.irq = ⟨0, true, false⟩ from ho]
    rfl
  unfold step
  rw [hf, if_neg Bool.false_ne_true, hr]
  exact if_pos ⟨hu, hp⟩

theorem passedOver_of_step {a : Action} {e : Option Event} (hs : s.step a = some (e, s'))
    (hl : s'.k.runQueue.linked t = true) (hn : s'.k.runPtr ≠ some t) : s.PassedOver t a := by
  intro r hr
  rw [hs] at hr
  cases hr
  exact ⟨hl, hn⟩

theorem turnover_selected {a : Action} {e : Option Event} (hs : s.step a = some (e, s')) :
    (s.turnover a).selected = if s.Switched s' then 1 else 0 := by
  simp only [turnover, hs]

theorem turnGuard_of_keeps {a : Action} (hc : creates a = false) (hd : ∀ u, s.deletes a u = false) :
    s.TurnGuard a := by
  refine ⟨fun h => ?_, fun u h => ?_⟩
  · rw [hc] at h
    cases h
  · rw [hd u] at h
    cases h

namespace Duet

theorem post (h : s.Duet t x y i j) : s.step (.call (.semPost j)) =
    some (some ⟨x, .semPost j, 0⟩, s.afterPost x y j) := by
  rw [step_call h.fault h.run h.caller h.enabled, stepCall, h.other.semPost h.enabled]
  exact congrArg some (complete_of_open (s := { s with k := s.k.posted j y }) h.enabled)

theorem turns_post (h : s.Duet t x y i j) (hxy : x ≠ y) (hty : t ≠ y) :
    (s.afterPost x y j).k.runQueue.Turns ⟨[t, x], [y]⟩ := by
  have hy : y ∉ (⟨[t, x], []⟩ : Round TaskId).toList := by
    simp [Round.toList, hxy.symm, hty.symm]
  exact (h.turns.add hy).2

theorem wait (h : s.Duet t x y i j) (hij : i ≠ j) :
    (s.afterPost x y j).step (.call (.semWait i)) =
      some (none, (s.afterPost x y j).afterWait x i) := by
  have ho : (s.afterPost x y j).k.Open := h.enabled
  have hr : (s.afterPost x y j).k.runPtr = some x := h.run
  have hown : (s.afterPost x y j).k.SemIs i 0 [] := by
    refine h.own.congr ?_
    show (s.k.posted j y).sems (.app i) = _
    rw [Kernel.posted_sems, Function.update_of_ne (by simpa using hij)]
  have hu : (s.afterPost x y j).pc x = .user := Function.update_self _ _ _
  have hf : (s.afterPost x y j).k.fault = false := h.fault
  rw [step_call hf hr hu ho, stepCall, Kernel.semWait_of_blocks ho hr hown.blocks]
  refine congrArg some (complete_of_requested (s := { s.afterPost x y j with
    k := (s.afterPost x y j).k.waited i x }) ?_)
  show (s.afterPost x y j).k.irq.request = _
  rw [show (s.afterPost x y j).k.irq = ⟨0, true, false⟩ from ho]
  rfl

theorem turns_wait (h : s.Duet t x y i j) (hxy : x ≠ y) (hty : t ≠ y) :
    ((s.afterPost x y j).afterWait x i).k.runQueue.Turns ⟨[t], [y]⟩ := by
  rw [afterWait_k, Kernel.waited_runQueue]
  exact ((h.turns_post hxy hty).del (t := x) rfl).2

theorem current_post (h : s.Duet t x y i j) (hxy : x ≠ y) (hty : t ≠ y) :
    (s.afterPost x y j).k.runQueue.current = some (.elem x) :=
  (h.turns_post hxy hty).cursor (by simp [Round.toList])

/-- `x` has blocked. -/
theorem fault_wait (h : s.Duet t x y i j) (hxy : x ≠ y) (hty : t ≠ y) :
    ((s.afterPost x y j).k.waited i x).fault = false := by
  refine Kernel.waited_fault h.fault ?_
  rw [h.current_post hxy hty]
  exact Option.some_ne_none _

theorem irq_wait (h : s.Duet t x y i j) : ((s.afterPost x y j).k.waited i x).irq = ⟨0, true, true⟩ :=
  Kernel.waited_irq h.enabled

theorem run_wait (h : s.Duet t x y i j) :
    ((s.afterPost x y j).k.waited i x).runPtr = some x := by
  rw [Kernel.waited_runPtr]
  exact h.run

theorem sleepers_wait (h : s.Duet t x y i j) :
    ((s.afterPost x y j).k.waited i x).sleepQueue.count = 0 := by
  rw [Kernel.waited_sleepQueue]
  exact h.sleepers

theorem deadlines_wait (h : s.Duet t x y i j) :
    ((s.afterPost x y j).k.waited i x).tWaitqueue.count = 0 := by
  rw [Kernel.waited_tWaitqueue]
  exact h.deadlines

/-- What holds when the tick has come that `x` has requested. -/
theorem ticked (h : s.Duet t x y i j) (hxy : x ≠ y) (hty : t ≠ y) {k : Kernel}
    (hk : (s.afterPost x y j).k.waited i x = k) :
    (osTick k 0).runQueue.Turns ⟨[t, y], []⟩ ∧ (osTick k 0).runPtr = some y ∧
      (osTick k 0).fault = false ∧ (osTick k 0).Open ∧ (osTick k 0).sems = k.sems ∧
      (osTick k 0).sleepQueue = k.sleepQueue ∧ (osTick k 0).tWaitqueue = k.tWaitqueue :=
  Kernel.osTick_of_blocked (hk ▸ h.run_wait) (hk ▸ Kernel.waited_state) (hk ▸ h.irq_wait)
    (hk ▸ h.fault_wait hxy hty) (hk ▸ h.turns_wait hxy hty) (hk ▸ h.sleepers_wait)
    (hk ▸ h.deadlines_wait) 0

/-- The same again, with the threads and the semaphores exchanged. -/
theorem again (h : s.Duet t x y i j) (hxy : x ≠ y) (hty : t ≠ y) (hij : i ≠ j) :
    (((s.afterPost x y j).afterWait x i).afterTick.setPc y .user).Duet t y x j i := by
  obtain ⟨hq, hr, hf, ho, hsems, hs, hd⟩ := h.ticked (i := i) hxy hty (afterWait_k.symm)
  have hown : (s.afterPost x y j).k.SemIs i 0 [] := by
    refine h.own.congr ?_
    rw [afterPost_k, Kernel.posted_sems, Function.update_of_ne (by simpa using hij)]
  constructor
  case fault => exact hf
  case enabled => exact ho
  case run => exact hr
  case turns => exact hq
  case caller => exact Function.update_self _ _ _
  case blocked =>
      show Function.update (Function.update _ x _) y _ x = _
      rw [Function.update_of_ne hxy, Function.update_self]
  case own =>
      refine h.other.posted.congr ?_
      show (osTick _ 0).sems _ = _
      rw [hsems, afterWait_k, Kernel.waited_sems,
        Function.update_of_ne (by simpa using hij.symm), afterPost_k]
  case other =>
      refine hown.waited.congr ?_
      show (osTick _ 0).sems _ = _
      rw [hsems, afterWait_k]
  case sleepers =>
      rw [afterWait_k] at hs
      exact (congrArg PQueue.count hs).trans h.sleepers_wait
  case deadlines =>
      rw [afterWait_k] at hd
      exact (congrArg PQueue.count hd).trans h.deadlines_wait

theorem tick (h : s.Duet t x y i j) (hxy : x ≠ y) (hty : t ≠ y) :
    ((s.afterPost x y j).afterWait x i).step (.tick 0) =
      some (none, ((s.afterPost x y j).afterWait x i).afterTick) := by
  have hf := h.fault_wait (i := i) hxy hty
  have hi := h.irq_wait (i := i)
  have hr := h.run_wait (i := i)
  rw [← afterWait_k] at hf hi hr
  unfold step
  rw [hf, if_neg Bool.false_ne_true, hr]
  exact if_pos (congrArg Irq.gie hi)

theorem pc_wait (h : s.Duet t x y i j) (hxy : x ≠ y) :
    ((s.afterPost x y j).afterWait x i).afterTick.pc y = .ret (.semWait j) 0 := by
  show Function.update (Function.update s.pc x _) x _ y = _
  rw [Function.update_of_ne hxy.symm, Function.update_of_ne hxy.symm, h.blocked]

theorem resume (h : s.Duet t x y i j) (hxy : x ≠ y) (hty : t ≠ y) :
    ((s.afterPost x y j).afterWait x i).afterTick.step .resume =
      some (some ⟨y, .semWait j, 0⟩,
        ((s.afterPost x y j).afterWait x i).afterTick.setPc y .user) := by
  obtain ⟨-, hr, hf, ho, -⟩ := h.ticked (i := i) hxy hty afterWait_k.symm
  have hp : (!((s.afterPost x y j).afterWait x i).afterTick.k.irq.pending) = true := by
    rw [show ((s.afterPost x y j).afterWait x i).afterTick.k.irq = ⟨0, true, false⟩ from ho]
    rfl
  have hr : ((s.afterPost x y j).afterWait x i).afterTick.k.runPtr = some y := hr
  have hf : ((s.afterPost x y j).afterWait x i).afterTick.k.fault = false := hf
  unfold step
  rw [hf, if_neg Bool.false_ne_true, hr]
  dsimp only
  rw [if_pos hp, stepResume, h.pc_wait hxy]

/-! ### The conditions of the steps -/

theorem guard_post (h : s.Duet t x y i j) (hxy : x ≠ y) (htx : t ≠ x) (hty : t ≠ y) :
    s.TurnGuard (.call (.semPost j)) ∧ s.PassedOver t (.call (.semPost j)) := by
  refine ⟨turnGuard_of_keeps rfl fun u => by simp [deletes, callDeletes], ?_⟩
  refine passedOver_of_step h.post ((h.turns_post hxy hty).linked_iff.2 (by simp [Round.toList])) ?_
  rw [show (s.afterPost x y j).k.runPtr = some x from h.run]
  simpa using htx.symm

theorem guard_wait (h : s.Duet t x y i j) (hxy : x ≠ y) (htx : t ≠ x) (hty : t ≠ y) (hij : i ≠ j) :
    (s.afterPost x y j).TurnGuard (.call (.semWait i)) ∧
      (s.afterPost x y j).PassedOver t (.call (.semWait i)) := by
  refine ⟨⟨nofun, ?_⟩, ?_⟩
  · intro u hu
    have hu : (s.afterPost x y j).k.runPtr = some u := (of_decide_eq_true hu).1
    have hx : s.k.runPtr = some u := hu
    cases h.run.symm.trans hx
    exact h.current_post hxy hty
  · refine passedOver_of_step (h.wait hij)
      ((h.turns_wait hxy hty).linked_iff.2 (by simp [Round.toList])) ?_
    rw [afterWait_k, h.run_wait]
    simpa using htx.symm

theorem guard_tick (h : s.Duet t x y i j) (hxy : x ≠ y) (hty : t ≠ y) :
    ((s.afterPost x y j).afterWait x i).TurnGuard (.tick 0) ∧
      ((s.afterPost x y j).afterWait x i).PassedOver t (.tick 0) := by
  obtain ⟨hq, hr, -⟩ := h.ticked (i := i) hxy hty afterWait_k.symm
  refine ⟨turnGuard_of_keeps rfl fun u => rfl, ?_⟩
  refine passedOver_of_step (h.tick hxy hty) (hq.linked_iff.2 (by simp [Round.toList])) ?_
  rw [show ((s.afterPost x y j).afterWait x i).afterTick.k.runPtr = some y from hr]
  simpa using hty.symm

theorem guard_resume (h : s.Duet t x y i j) (hxy : x ≠ y) (hty : t ≠ y) :
    ((s.afterPost x y j).afterWait x i).afterTick.TurnGuard .resume ∧
      ((s.afterPost x y j).afterWait x i).afterTick.PassedOver t .resume := by
  obtain ⟨hq, hr, -⟩ := h.ticked (i := i) hxy hty afterWait_k.symm
  have hr : ((s.afterPost x y j).afterWait x i).afterTick.k.runPtr = some y := hr
  refine ⟨turnGuard_of_keeps rfl fun u => decide_eq_false ?_, ?_⟩
  · rintro ⟨hu, hd⟩
    cases hr.symm.trans hu
    rw [resumeDeletes, h.pc_wait hxy] at hd
    exact Bool.false_ne_true hd
  · refine passedOver_of_step (h.resume hxy hty) (hq.linked_iff.2 (by simp [Round.toList])) ?_
    rw [setPc_k, hr]
    simpa using hty.symm

end Duet

/-! ## Any number of rounds -/

variable {s₀ : Sys} {hs : List Turnover} {vals : Nat → Nat}

/-- A run from `s₀` in which `t` is passed over. -/
abbrev Passing (vals : Nat → Nat) (t : TaskId) (s₀ : Sys) (hs : List Turnover) (s : Sys) : Prop :=
  (((system vals).observe turnover).startedAt s₀).Run
    (fun s a => s.TurnGuard a ∧ s.PassedOver t a) hs s

/-- One round: `y` is selected instead of `t`. -/
theorem Duet.round (h : s.Duet t x y i j) (hxy : x ≠ y) (htx : t ≠ x) (hty : t ≠ y) (hij : i ≠ j)
    (hy : y ≠ .idle) (hr : Passing vals t s₀ hs s) :
    ∃ hs' s', Passing vals t s₀ hs' s' ∧ s'.Duet t y x j i ∧
      (hs'.map Turnover.selected).sum = (hs.map Turnover.selected).sum + 1 := by
  have hpost := h.guard_post hxy htx hty
  have hwait := h.guard_wait hxy htx hty hij
  have htick := h.guard_tick (i := i) hxy hty
  have hresume := h.guard_resume (i := i) hxy hty
  have hr₁ := passes_step hr hpost.1 hpost.2 h.post
  have hr₂ := passes_step hr₁ hwait.1 hwait.2 (h.wait hij)
  have hr₃ := passes_step hr₂ htick.1 htick.2 (h.tick hxy hty)
  have hr₄ := passes_step hr₃ hresume.1 hresume.2 (h.resume hxy hty)
  have hrun := (h.ticked (i := i) hxy hty afterWait_k.symm).2.1
  have hrun : ((s.afterPost x y j).afterWait x i).afterTick.k.runPtr = some y := hrun
  have hrun' : ((s.afterPost x y j).afterWait x i).k.runPtr = some x := h.run_wait
  have hrun'' : (s.afterPost x y j).k.runPtr = some x := h.run
  refine ⟨_, _, hr₄, h.again hxy hty hij, ?_⟩
  have h₁ : ¬ s.Switched (s.afterPost x y j) := fun hs => hs.1 (hrun''.trans h.run.symm)
  have h₂ : ¬ (s.afterPost x y j).Switched ((s.afterPost x y j).afterWait x i) :=
    fun hs => hs.1 (hrun'.trans hrun''.symm)
  have h₃ : ((s.afterPost x y j).afterWait x i).Switched
      ((s.afterPost x y j).afterWait x i).afterTick := by
    refine ⟨?_, ?_⟩
    · rw [hrun, hrun']
      simpa using hxy.symm
    · rw [hrun]
      simpa using hy
  have h₄ : ¬ ((s.afterPost x y j).afterWait x i).afterTick.Switched
      (((s.afterPost x y j).afterWait x i).afterTick.setPc y .user) := fun hs => hs.1 rfl
  simp only [List.map_cons, List.sum_cons, turnover_selected h.post, turnover_selected (h.wait hij),
    turnover_selected (h.tick hxy hty), turnover_selected (h.resume hxy hty), if_neg h₁, if_neg h₂,
    if_pos h₃, if_neg h₄]
  omega

/-- Two threads alternate for as long as one likes. -/
theorem Duet.rounds (h : s.Duet t x y i j) (hxy : x ≠ y) (htx : t ≠ x) (hty : t ≠ y) (hij : i ≠ j)
    (hx : x ≠ .idle) (hy : y ≠ .idle) (n : Nat) :
    ∃ hs s', Passing vals t s hs s' ∧ (hs.map Turnover.selected).sum = n ∧
      (s'.Duet t x y i j ∨ s'.Duet t y x j i) := by
  induction n with
  | zero => exact ⟨[], s, .init rfl, rfl, .inl h⟩
  | succ n ih =>
      obtain ⟨hs, s', hr, hn, hd | hd⟩ := ih
      · obtain ⟨hs', s'', hr', hd', hn'⟩ := hd.round hxy htx hty hij hy hr
        exact ⟨hs', s'', hr', hn'.trans (by rw [hn]), .inr hd'⟩
      · obtain ⟨hs', s'', hr', hd', hn'⟩ := hd.round hxy.symm hty htx hij.symm hx hr
        exact ⟨hs', s'', hr', hn'.trans (by rw [hn]), .inl hd'⟩

/-- The run queue of two tasks, from the link of its head and its cursor. -/
theorem turns_of_two {q : RunQueue} {r : Round TaskId} (h : q.Turns r) (htx : t ≠ x)
    (hl : ∀ u, q.linked u = true ↔ u = t ∨ u = x) (hn : (q.links .head).next = some (.elem t))
    (hc : q.current = some (.elem x)) : q.Turns ⟨[t, x], []⟩ := by
  have hmem : ∀ u, u ∈ r.toList ↔ u ∈ [t, x] := fun u => by
    rw [← h.linked_iff, hl, List.mem_cons, List.mem_singleton]
  have hperm : r.toList.Perm [t, x] :=
    (List.perm_ext_iff_of_nodup h.holds.nodup (by simpa using htx)).2 hmem
  have hlist : r.toList = [t, x] := by
    have hlen := hperm.length_eq
    match hr : r.toList, hlen with
    | [a, b], _ =>
        have hnext := h.holds.list.segment.next_start
        rw [hr, nextOf, hn] at hnext
        obtain rfl : t = a := by simpa using hnext
        have hb : b ∈ [t, x] := (hmem b).1 (by simp [hr])
        have hnd := h.holds.nodup
        rw [hr] at hnd
        have hne : b ≠ t := by
          rintro rfl
          simp at hnd
        simp only [List.mem_cons, List.not_mem_nil, or_false] at hb
        rw [hb.resolve_left hne]
  refine ⟨?_, fun _ => hc⟩
  rw [show (⟨[t, x], []⟩ : Round TaskId).toList = r.toList from hlist.symm]
  exact h.holds

/-- Two threads that post each other's semaphore and wait for their own one can keep a third one,
which is ready all the time, from running for any number of turns. -/
theorem starvation : ∃ h s t, (system fun _ => 0).Run TurnGuard h s ∧
    s.k.runQueue.linked t = true ∧ ∀ n, ∃ hs s', Passing (fun _ => 0) t s hs s' ∧
      (hs.map Turnover.selected).sum = n ∧ s'.k.runQueue.linked t = true ∧ s'.k.fault = false := by
  rcases exists_run (fun _ => 0) (G := TurnGuard)
    [.create 1 1, .create 1 1, .create 1 1, .launch, .tick 0, .call (.semWait 0), .tick 0]
    (P := fun _ s => (s.k.fault = false ∧ s.k.irq = ⟨0, true, false⟩ ∧
        s.k.runPtr = some (.slot 13)) ∧
      ((∀ u, s.k.runQueue.linked u = true ↔ u = .slot 15 ∨ u = .slot 13) ∧
        (s.k.runQueue.links .head).next = some (.elem (.slot 15)) ∧
        s.k.runQueue.current = some (.elem (.slot 13))) ∧
      (s.pc (.slot 13) = .user ∧ s.pc (.slot 14) = .ret (.semWait 0) 0) ∧
      (s.k.SemIs 1 0 [] ∧ s.k.SemIs 0 (-1) [some (.slot 14)]) ∧
      s.k.sleepQueue.count = 0 ∧ s.k.tWaitqueue.count = 0)
    (by decide +kernel)
    with ⟨h, s, hr, ⟨hf, ho, hp⟩, ⟨hl, hn, hc⟩, ⟨hu, hb⟩, ⟨hown, hother⟩, hs, hd⟩
  obtain ⟨r, ht⟩ := run_turns hr
  have hduet : s.Duet (.slot 15) (.slot 13) (.slot 14) 1 0 :=
    ⟨hf, ho, hp, turns_of_two ht (by decide) hl hn hc, hu, hb, hown, hother, hs, hd⟩
  refine ⟨h, s, .slot 15, hr, hduet.turns.linked_iff.2 (by decide), fun n => ?_⟩
  obtain ⟨hs, s', hr', hsum, hd' | hd'⟩ := hduet.rounds (by decide) (by decide) (by decide)
    (by decide) (by decide) (by decide) n
  · exact ⟨hs, s', hr', hsum, hd'.turns.linked_iff.2 (by decide), hd'.fault⟩
  · exact ⟨hs, s', hr', hsum, hd'.turns.linked_iff.2 (by decide), hd'.fault⟩

end Sys

end MsTos
