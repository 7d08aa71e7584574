-- SUMMARY: Semaphores and mutexes serve the threads in the order of their calls: blocked threads, hand-over and lost wake-ups.
import MsTos.Lib.Arrival
import MsTos.QuietRuns

namespace MsTos

/-! ## The abstract kernel -/

namespace View

variable {v v' : View} {o : Obj} {t u : TaskId} {a : Action} {e : Option Event} {m : Nat}

/-- The thread that makes a call in the step. -/
def caller (v : View) : Action → ThrdPtr
  | .call _ => v.run
  | .create _ _ | .launch | .resume | .tick _ => none

theorem Step.caller_user {c : Call} (h : v.Step (.call c) e v') :
    ∃ t, v.run = some t ∧ v.pc t = .user := by
  cases h with
  | thrdCreate _ _ _ hr hu | fails _ hr hu | yields _ hr hu | take _ hr hu | tryTake _ hr hu
  | trySteal _ hr hu | block _ hr hu | timedTake _ _ hr hu | timedZero _ _ _ hr hu
  | timedBlock _ _ _ hr hu | signal _ hr hu | sleep _ _ hr hu | exit _ hr hu => exact ⟨_, hr, hu⟩

/-- A thread that makes a call waits for nothing. -/
theorem Step.caller_not_waiter (h : v.Step a e v') (hw : v.Waiting) (o : Obj) :
    v.caller a ∉ v.waiters o := by
  intro hm
  obtain ⟨t, ht, hwait⟩ := hw.waiter o _ hm
  cases a with
  | call c =>
      obtain ⟨u, hr, hu⟩ := h.caller_user
      have ht : v.run = some t := ht
      cases hr.symm.trans ht
      rw [hu] at hwait
      cases hwait
  | _ => cases ht

/-- The wait queues stay in the order of the calls. -/
theorem Step.arrived (h : v.Step a e v') (hw : v.Waiting) {log : List ThrdPtr}
    (ho : Arrived log (v.waiters o)) : Arrived (v.caller a :: log) (v'.waiters o) := by
  have hc := h.caller_not_waiter hw o
  rcases h.waiters o with hq | ⟨t, hr, hu, hb, hcall, hq⟩ | ⟨r, hq⟩
  · rw [hq]
    exact ho.log_cons hc
  · have ht : v.caller a = some t := by
      rcases hcall with rfl | ⟨n, rfl⟩ <;> exact hr
    have hroom := hw.room (t := t) (by rw [hu]; simp) (by rw [hu]; rfl) o
    rw [hq, queued, Function.update_self, if_pos (Nat.lt_of_succ_le hroom)]
    rw [ht] at hc ⊢
    exact ho.concat hc
  · rw [hq] at ho hc
    exact ho.tail.log_cons fun hm => hc (List.mem_cons_of_mem _ hm)

/-- A mutex that nobody holds has no waiters. -/
def NoneWaits (v : View) : Prop := ∀ m, v.holder m = none → v.waiters (.mtx m) = []

theorem NoneWaits.step (h : v.NoneWaits) (hs : v.Step a e v') : v'.NoneWaits := by
  intro m hn
  -- the wait queue of a mutex that nobody holds does not change
  have hfree : v.holder m = none → v'.waiters (.mtx m) = [] := by
    intro hv
    rcases hs.waiters (.mtx m) with hq | ⟨t, -, -, hb, -⟩ | ⟨r, hq⟩
    · rw [hq]
      exact h m hv
    · exact absurd hv hb
    · rw [h m hv] at hq
      cases hq
  cases hs.holderStep m with
  | same hh => exact hfree (hh.symm.trans hn)
  | lock hr hu hv hh | timedlock n hr hu hv hh => exact hfree hv
  | steal hr hu hv hh | handOver hr hu ht hw hw' hh =>
      rw [hh] at hn
      cases hn
  | release hr hu ht hw hh =>
      rcases hs.waiters (.mtx m) with hq | ⟨t, -, -, hb, hc, -⟩ | ⟨r, hq⟩
      · rw [hq, hw]
      · rcases hc with hc | ⟨n, hc⟩ <;> cases hc
      · rw [hw] at hq
        cases hq

/-- What a signal does when threads wait. -/
theorem Signals.waiter (h : v.Signals o t v') (hw : v.Waiting) (hf : v.fault = false)
    {p : ThrdPtr} {l : List ThrdPtr} (hq : v.waiters o = p :: l) :
    ∃ u, p = some u ∧ v' = v.grant o t u l := by
  cases h with
  | free hv =>
      exfalso
      cases o with
      | mtx m =>
          rw [Vacant, hq] at hv
          cases hv
      | sem n => exact (hw.up_of_waiters hf (by rw [hq]; exact List.cons_ne_nil _ _)).1 hv
  | crash hv hn =>
      rw [hn] at hq
      cases hq
  | @grant u l' hv hu =>
      cases hu.symm.trans hq
      exact ⟨u, rfl, rfl⟩

end View

/-! ## Runs -/

namespace Sys

variable {s s' : Sys} {t u : TaskId} {a : Action} {e : Option Event} {vals : Nat → Nat} {o : Obj}
  {log : List ThrdPtr}

/-- The running system, with a log of the threads that make calls. -/
def logged (vals : Nat → Nat) : TransitionSystem Sys Action ThrdPtr :=
  (system vals).observe fun s a => s.view.caller a

/-- `t` has called `sem_wait` or `mtx_lock` for the object, and is out of the run queue. -/
def Blocked (s : Sys) (o : Obj) (t : TaskId) : Prop :=
  blocksOn (s.pc t) = some o ∧ s.k.runQueue.linked t = false

/-- The wait queue of the object holds exactly the threads blocked on it, each once, in the order
of their calls. -/
structure InOrder (s : Sys) (log : List ThrdPtr) (o : Obj) : Prop where
  mem : ∀ p, p ∈ (s.k.wq o).toList ↔ ∃ t, p = some t ∧ s.Blocked o t
  nodup : (s.k.wq o).toList.Nodup
  order : Arrived log (s.k.wq o).toList
  state : ∀ t, s.Blocked o t → (s.k.thrds t).state = .BLOCKING

/-- `u`, the first waiter, gets into the run queue, once, and everything else stays as it is. -/
structure Wakes (s : Sys) (o : Obj) (u : TaskId) (s' : Sys) : Prop where
  queue : (s.k.wq o).toList = some u :: (s'.k.wq o).toList
  unlinked : s.k.runQueue.linked u = false
  linked : s'.k.runQueue.linked = Function.update s.k.runQueue.linked u true
  once : s'.k.runQueue.taskActiveCnt = s.k.runQueue.taskActiveCnt + 1
  active : (s'.k.thrds u).state = .ACTIVE
  others : ∀ t, t ≠ u → (s'.k.thrds t).state = (s.k.thrds t).state

/-- Along a quiet run the kernel does not fail, and threads wait in the order of their calls. -/
theorem run_quiet (hv : ValidVals vals) (hr : (logged vals).Run QuietGuard log s) :
    s.QuietOk ∧ (∀ o, Arrived log (s.view.waiters o)) ∧ s.view.NoneWaits := by
  refine hr.invariant (P := fun log s => s.QuietOk ∧ (∀ o, Arrived log (s.view.waiters o)) ∧
    s.view.NoneWaits) ?_ ?_
  · rintro s rfl
    refine ⟨boot_quietOk hv, ?_, fun m _ => rfl⟩
    intro o
    cases o <;> exact Arrived.nil
  · rintro log s a p s' ⟨hk, ho, hn⟩ hg hs
    obtain ⟨rfl, e, hs⟩ := TransitionSystem.observe_step hs
    have hst := (step_refines hk.sound (hk.clean hg).1 hs).2
    exact ⟨hk.step hg hs, fun o => hst.arrived hk.waiting (ho o), hn.step hst⟩

/-- The wait queue holds exactly the blocked threads. -/
theorem QuietOk.blocked_iff (h : s.QuietOk) : s.Blocked o t ↔ some t ∈ (s.k.wq o).toList := by
  constructor
  · rintro ⟨hb, hl⟩
    by_contra hm
    exact Bool.false_ne_true (hl.symm.trans (h.waiting.granted t o hb hm))
  · intro hm
    have hb : blocksOn (s.pc t) = some o := h.quiet.blocksOn (h.waiting.waiter_some hm)
    exact ⟨hb, (h.waiting.unlinked h.fault t ((h.waiting.blocking t).2 ⟨o, hb, hm⟩)).1⟩

theorem QuietOk.inOrder (h : s.QuietOk) (ho : Arrived log (s.view.waiters o)) :
    s.InOrder log o := by
  constructor
  case mem =>
      intro p
      constructor
      · intro hm
        obtain ⟨t, rfl, -⟩ := h.waiting.waiter o p hm
        exact ⟨t, rfl, h.blocked_iff.2 hm⟩
      · rintro ⟨t, rfl, ht⟩
        exact h.blocked_iff.1 ht
  case nodup => exact h.waiting.nodup o
  case order => exact ho
  case state => exact fun t ht => (h.waiting.blocking t).2 ⟨o, ht.1, h.blocked_iff.1 ht⟩

/-- A caller that has to wait finds room in the wait queue. -/
theorem QuietOk.push_ok (h : s.QuietOk) (hpc : s.pc t = .user) (o : Obj) :
    ((s.k.wq o).push (some t)).1 = 0 := by
  have hroom := h.waiting.room (t := t) (by rw [show s.view.pc t = _ from hpc]; simp)
    (by rw [show s.view.pc t = _ from hpc]; rfl) o
  rw [show s.view.waiters o = (s.k.wq o).toList from rfl, Queue.length_toList] at hroom
  rw [Queue.push_of_lt hroom]

/-- Linking one more thread makes one more active task. -/
theorem count_of_linked (hl : ∃ l, s.k.runQueue.Holds l) (hl' : ∃ l, s'.k.runQueue.Holds l)
    (hu : s.k.runQueue.linked u = false)
    (h : s'.k.runQueue.linked = Function.update s.k.runQueue.linked u true) :
    s'.k.runQueue.taskActiveCnt = s.k.runQueue.taskActiveCnt + 1 := by
  obtain ⟨l, hl⟩ := hl
  obtain ⟨l', hl'⟩ := hl'
  have hn : u ∉ l := by
    rw [← hl.linked_iff, hu]
    exact Bool.false_ne_true
  have hperm : l'.Perm (u :: l) := by
    rw [List.perm_ext_iff_of_nodup hl'.nodup (List.nodup_cons.2 ⟨hn, hl.nodup⟩)]
    intro x
    rw [← hl'.linked_iff, h, List.mem_cons, ← hl.linked_iff, Function.update_apply]
    split <;> simp_all
  rw [hl.count, hl'.count, hperm.length_eq, List.length_cons]

/-- A signal wakes the thread that has waited the longest. -/
theorem QuietOk.wakes (h : s.QuietOk) (s' : Sys) (hg : ∃ l, s'.k.runQueue.Holds l) {p : ThrdPtr}
    {l : List ThrdPtr} (hs : s.view.Signals o t s'.view) (hq : (s.k.wq o).toList = p :: l) :
    ∃ u, p = some u ∧ s.Wakes o u s' ∧ s'.view.holder = s.view.setHolder o (some u) := by
  obtain ⟨u, rfl, hv⟩ := hs.waiter h.waiting h.fault hq
  have hu : s.Blocked o u := h.blocked_iff.2 (by rw [hq]; exact List.mem_cons_self)
  have hl : s'.k.runQueue.linked = Function.update s.k.runQueue.linked u true :=
    congrArg View.linked hv
  have hw : (s'.k.wq o).toList = l := by
    rw [show (s'.k.wq o).toList = s'.view.waiters o from rfl, hv]
    exact Function.update_self _ _ _
  have hst : ∀ x, (s'.k.thrds x).state = if x = u then .ACTIVE else (s.k.thrds x).state := by
    intro x
    rw [show s'.k.thrds = s'.view.thrds from rfl, hv]
    exact View.handed_state
  refine ⟨u, rfl, ?_, by rw [hv]; rfl⟩
  constructor
  case queue => rw [hq, hw]
  case unlinked => exact hu.2
  case linked => exact hl
  case once => exact count_of_linked h.sound.good.list hg hu.2 hl
  case active => rw [hst, if_pos rfl]
  case others => exact fun x hx => by rw [hst, if_neg hx]

/-! ## Semaphores -/

/-- `sem_post` while threads wait. -/
theorem QuietOk.semPost_wakes (h : s.QuietOk) {n : Nat} (hr : s.k.runPtr = some t)
    (hs : s.step (.call (.semPost n)) = some (e, s')) {p : ThrdPtr} {l : List ThrdPtr}
    (hq : (s.k.sems (.app n)).wq.toList = p :: l) : ∃ u, p = some u ∧ s.Wakes (.sem n) u s' := by
  cases (steps_of_step hs).2 with
  | call _ hr' hpc hp =>
      cases hr'.symm.trans hr
      have ho := h.sound.enabled.open hp
      obtain ⟨hg, hirq, hsig⟩ := h.sound.good.semPost (.inl ho) n t s.pc
      have he : s.stepCall t (.semPost n) = (some ⟨t, .semPost n, 0⟩, ⟨s.k.semPost (.app n), s.pc⟩) :=
        complete_returns (s := ⟨s.k.semPost (.app n), s.pc⟩) (hirq.trans ho) hpc
      rw [he]
      rcases h.wakes ⟨s.k.semPost (.app n), s.pc⟩ (o := .sem n) hg.list hsig hq with
        ⟨u, rfl, hw, -⟩
      exact ⟨u, rfl, hw⟩

/-- `sem_trywait` while threads wait. -/
theorem QuietOk.semTrywait_fails (h : s.QuietOk) {n : Nat} (hr : s.k.runPtr = some t)
    (hs : s.step (.call (.semTrywait n)) = some (e, s'))
    (hq : (s.k.sems (.app n)).wq.toList ≠ []) :
    e = some ⟨t, .semTrywait n, -1⟩ ∧ s'.k = s.k := by
  cases (steps_of_step hs).2 with
  | call _ hr' hpc hp =>
      cases hr'.symm.trans hr
      have ho := h.sound.enabled.open hp
      have hval : (s.k.sems (.app n)).val = -((s.k.sems (.app n)).wq.toList.length : Int) :=
        h.waiting.val_eq h.fault hq
      have hneg : ¬ 0 < (s.k.sems (.app n)).val := by omega
      have he : s.stepCall t (.semTrywait n) = (some ⟨t, .semTrywait n, -1⟩, s) := by
        simp only [stepCall]
        rw [Kernel.semTrywait_of_not_pos ho hneg]
        exact complete_returns ho hpc
      rw [he]
      exact ⟨rfl, rfl⟩

/-- A semaphore's value says how many threads wait for it; they wait in the order of their calls,
always find room in its queue, and are woken in that order. -/
theorem semaphore_fifo (hv : ValidVals vals) (hr : (logged vals).Run QuietGuard log s) (n : Nat) :
    s.k.fault = false ∧ s.InOrder log (.sem n) ∧
    ((s.k.sems (.app n)).wq.count : Int) = max 0 (-(s.k.sems (.app n)).val) ∧
    ∀ a e s' t, s.QuietGuard a → s.step a = some (e, s') → s.k.runPtr = some t →
      (a = .call (.semWait n) → ((s.k.sems (.app n)).wq.push (some t)).1 = 0) ∧
      (a = .call (.semPost n) → ∀ p l, (s.k.sems (.app n)).wq.toList = p :: l →
        ∃ u, p = some u ∧ s.Wakes (.sem n) u s') ∧
      (a = .call (.semTrywait n) → (s.k.sems (.app n)).wq.toList ≠ [] →
        e = some ⟨t, .semTrywait n, -1⟩ ∧ s'.k = s.k) := by
  obtain ⟨hk, ho, -⟩ := run_quiet hv hr
  refine ⟨hk.fault, hk.inOrder (ho _), ?_, ?_⟩
  · have hlen : (s.k.sems (.app n)).wq.count = (-(s.k.sems (.app n)).val).toNat := by
      rw [← Queue.length_toList]
      exact (hk.waiting.val hk.fault n).2
    omega
  · intro a e s' t hg hs ht
    refine ⟨?_, ?_, ?_⟩
    · rintro rfl
      cases (steps_of_step hs).2 with
      | call _ hr hpc hp =>
          cases hr.symm.trans ht
          exact hk.push_ok hpc (.sem n)
    · rintro rfl p l hq
      exact hk.semPost_wakes ht hs hq
    · rintro rfl hq
      exact hk.semTrywait_fails ht hs hq

/-- Two threads have blocked in `sem_wait`, one after the other. -/
theorem semaphore_fifo_three_threads :
    ∃ log s, (logged fun _ => 0).Run QuietGuard log s ∧
      (s.k.sems (.app 0)).wq.toList = [some (.slot 15), some (.slot 14)] ∧
      s.InOrder log (.sem 0) ∧
      ((s.k.sems (.app 0)).wq.count : Int) = max 0 (-(s.k.sems (.app 0)).val) := by
  rcases TransitionSystem.exists_run_of_exec (M := logged fun _ => 0) (G := QuietGuard) rfl
    [.create 1 1, .create 1 1, .create 1 1, .launch, .call (.semWait 0), .tick 0,
      .call (.semWait 0), .tick 0]
    (P := fun _ s => (s.k.sems (.app 0)).wq.toList = [some (.slot 15), some (.slot 14)])
    (by decide +kernel) with ⟨log, s, hr, hq⟩
  obtain ⟨-, ho, hc, -⟩ := semaphore_fifo (fun _ => Nat.zero_le _) hr 0
  exact ⟨log, s, hr, hq, ho, hc⟩

/-! ## Mutexes -/

/-- `mtx_unlock` by the holder while threads wait. -/
theorem QuietOk.mtxUnlock_wakes (h : s.QuietOk) {m : Nat} (hr : s.k.runPtr = some t)
    (hh : (s.k.mtxs m).holder = some t) (hs : s.step (.call (.mtxUnlock m)) = some (e, s'))
    {p : ThrdPtr} {l : List ThrdPtr} (hq : (s.k.mtxs m).wq.toList = p :: l) :
    ∃ u, p = some u ∧ s.Wakes (.mtx m) u s' ∧ (s'.k.mtxs m).holder = some u := by
  cases (steps_of_step hs).2 with
  | call _ hr' hpc hp =>
      cases hr'.symm.trans hr
      have ho := h.sound.enabled.open hp
      obtain ⟨k', hk', hg, hirq, hsig⟩ := h.sound.good.mtxUnlock ho hr hh s.pc
      have he : s.stepCall t (.mtxUnlock m) = (some ⟨t, .mtxUnlock m, 0⟩, ⟨k', s.pc⟩) := by
        simp only [stepCall, hk']
        exact complete_returns (s := ⟨k', s.pc⟩) (hirq.trans ho) hpc
      rw [he]
      obtain ⟨u, rfl, hw, hhold⟩ := h.wakes ⟨k', s.pc⟩ (o := .mtx m) hg.list hsig hq
      refine ⟨u, rfl, hw, ?_⟩
      exact (congrFun hhold m).trans (Function.update_self _ _ _)

/-- A mutex that nobody holds has no waiters; they wait in the order of their calls, always find
room in its queue, and get the mutex in that order: `mtx_unlock` hands it to the first of them, and
no other thread gets it while they wait. -/
theorem mutex_fifo (hv : ValidVals vals) (hr : (logged vals).Run QuietGuard log s) (m : Nat) :
    s.k.fault = false ∧ ((s.k.mtxs m).holder = none → (s.k.mtxs m).wq.toList = []) ∧
    s.InOrder log (.mtx m) ∧
    ∀ a e s' t, s.QuietGuard a → s.step a = some (e, s') → s.k.runPtr = some t →
      (a = .call (.mtxLock m) → ((s.k.mtxs m).wq.push (some t)).1 = 0) ∧
      (a = .call (.mtxUnlock m) → ∀ p l, (s.k.mtxs m).wq.toList = p :: l →
        ∃ u, p = some u ∧ s.Wakes (.mtx m) u s' ∧ (s'.k.mtxs m).holder = some u) ∧
      ∀ u, (s'.k.mtxs m).holder = some u → (s.k.mtxs m).holder ≠ some u →
        (s.k.mtxs m).wq.toList = [] ∨
          a = .call (.mtxUnlock m) ∧ ∃ l, (s.k.mtxs m).wq.toList = some u :: l := by
  obtain ⟨hk, ho, hn⟩ := run_quiet hv hr
  refine ⟨hk.fault, hn m, hk.inOrder (ho _), ?_⟩
  intro a e s' t hg hs ht
  refine ⟨?_, ?_, ?_⟩
  · rintro rfl
    cases (steps_of_step hs).2 with
    | call _ hr hpc hp =>
        cases hr.symm.trans ht
        exact hk.push_ok hpc (.mtx m)
  · rintro rfl p l hq
    exact hk.mtxUnlock_wakes ht (hg.2.2.trans ht) hs hq
  · intro u hu hne
    have hst := (step_refines hk.sound (hk.clean hg).1 hs).2
    generalize hv' : s'.view = v' at hst
    have hh : v'.holder m = some u := by
      rw [← hv']
      exact hu
    cases hst.holderStep m with
    | same hsame => exact absurd (hsame.symm.trans hh) hne
    | lock hr hpc hfree | timedlock n hr hpc hfree => exact .inl (hn m hfree)
    | steal hr hpc hbusy => cases hg.2.1
    | release hr hpc hhold hw hnone => cases hnone.symm.trans hh
    | handOver hr hpc hhold hw hw' hnext =>
        cases hnext.symm.trans hh
        exact .inr ⟨rfl, _, hw⟩

/-- Two threads have blocked in `mtx_lock`, one after the other, behind the holder. -/
theorem mutex_fifo_three_threads :
    ∃ log s, (logged fun _ => 0).Run QuietGuard log s ∧
      (s.k.mtxs 0).wq.toList = [some (.slot 14), some (.slot 13)] ∧
      (s.k.mtxs 0).holder = some (.slot 15) ∧ s.InOrder log (.mtx 0) := by
  rcases TransitionSystem.exists_run_of_exec (M := logged fun _ => 0) (G := QuietGuard) rfl
    [.create 1 1, .create 1 1, .create 1 1, .launch, .call (.mtxLock 0), .tick 0,
      .call (.mtxLock 0), .tick 0, .call (.mtxLock 0)]
    (P := fun _ s => (s.k.mtxs 0).wq.toList = [some (.slot 14), some (.slot 13)] ∧
      (s.k.mtxs 0).holder = some (.slot 15))
    (by decide +kernel) with ⟨log, s, hr, hq, hh⟩
  obtain ⟨-, -, ho, -⟩ := mutex_fifo (fun _ => Nat.zero_le _) hr 0
  exact ⟨log, s, hr, hq, hh, ho⟩

end Sys

end MsTos
