-- SUMMARY: `barrier_wait` on the kernel: threads that call `sem_wait` and `sem_post` as `barrier.c` does refine the participants of a barrier.
import MsTos.BarrierInvariant
import MsTos.Clients
import MsTos.SemaphoreTrace

namespace MsTos

/-! ## Code -/

/-- The semaphores of a barrier, among those of the application. -/
structure BarrierSems where
  mutex : Nat
  turnstile : Phase → Nat
  mutex_ne : ∀ p, turnstile p ≠ mutex
  turnstile_ne : turnstile .phase1 ≠ turnstile .phase2

/-- The other fields of `barrier_t`, and where the participants stand. -/
structure BarrierApp where
  count : Nat
  val : Nat
  pc : TaskId → BarrierPc

namespace BarrierApp

def setPc (app : BarrierApp) (t : TaskId) (pc : BarrierPc) : BarrierApp :=
  { app with pc := Function.update app.pc t pc }

/-- The conditions `++barrier->count == barrier->val` and `--barrier->count == 0`. -/
def last (app : BarrierApp) : Phase → Bool × BarrierApp
  | .phase1 =>
      let app := { app with count := (app.count + 1) % wordSize }
      (app.count = app.val, app)
  | .phase2 =>
      let app := { app with count := (app.count + (wordSize - 1)) % wordSize }
      (app.count = 0, app)

end BarrierApp

/-- Where a thread stands once it has made its call. -/
def BarrierPc.called : BarrierPc → BarrierPc
  | .lock p => .locking p
  | .release p i => .release p (i + 1)
  | .unlock p => .pass p
  | .pass p => .passing p
  | pc => pc

namespace BarrierSems

variable (n : BarrierSems)

/-- The semaphore belongs to the barrier. -/
def has (m : Nat) : Bool := m = n.mutex ∨ m = n.turnstile .phase1 ∨ m = n.turnstile .phase2

/-- The call is about a semaphore of the barrier. -/
def concerns : Call → Bool
  | .semWait m | .semTimedwait m _ | .semTrywait m | .semPost m => n.has m
  | _ => false

/-- The call that `barrier_wait` makes next. -/
def next (val : Nat) : BarrierPc → Option Call
  | .lock _ => some (.semWait n.mutex)
  | .release p i => if i < val then some (.semPost (n.turnstile p)) else none
  | .unlock _ => some (.semPost n.mutex)
  | .pass p => some (.semWait (n.turnstile p))
  | _ => none

/-- The semaphore on which a participant may be blocked. -/
def awaited : BarrierPc → Option Nat
  | .locking _ => some n.mutex
  | .passing p => some (n.turnstile p)
  | _ => none

/-- The threads of `parts` call `barrier_wait` again and again. In between, and from other threads,
there may be any call that is not about the semaphores of the barrier. -/
def client (parts : Finset TaskId) : Client BarrierApp BarrierEvent where
  calls app t c :=
    if t ∈ parts ∧ app.pc t ≠ .outside then n.next app.val (app.pc t) = some c else !n.concerns c
  code app t :=
    if t ∈ parts then
      match app.pc t with
      | .outside => some (some (.enters t), app.setPc t (.lock .phase1))
      | .count p =>
          some (none, (app.last p).2.setPc t
            (if (app.last p).1 then .release p 0 else .unlock p))
      | .release p i => if i < app.val then none else some (none, app.setPc t (.unlock p))
      | .ret => some (some (.returns t), app.setPc t .outside)
      | _ => none
    else none
  enter app t _ := app.setPc t (app.pc t).called
  leave app e := app.setPc e.thrd (app.pc e.thrd).resume

end BarrierSems

/-- The barrier after `barrier_init` with a value that it accepts. -/
def barrierApp (value : Nat) : BarrierApp := ⟨0, value, fun _ => .outside⟩

/-- The initial values that `barrier_init` gives the semaphores. -/
structure BarrierSems.Initial (n : BarrierSems) (vals : Nat → Nat) : Prop where
  mutex : vals n.mutex = 1
  turnstile : ∀ p, vals (n.turnstile p) = 0

/-! ## Refinement -/

namespace BarrierSems

variable {n : BarrierSems} {parts : Finset TaskId} {value m : Nat} {vals : Nat → Nat}
  {s s' : AppSys BarrierApp} {b : BarrierSys} {t u : TaskId} {p : Phase} {a : BarrierPc}

theorem has_mutex (n : BarrierSems) : n.has n.mutex = true := by simp [has]

theorem has_turnstile (n : BarrierSems) (p : Phase) : n.has (n.turnstile p) = true := by
  cases p <;> simp [has]

theorem awaited_resume (n : BarrierSems) (a : BarrierPc) : n.awaited a.resume = none := by
  cases a with
  | passing p => cases p <;> rfl
  | _ => rfl

theorem resume_of_awaited (h : n.awaited a = none) : a.resume = a := by
  cases a with
  | locking | passing => cases h
  | _ => rfl

/-- Where a participant stands, if a thread goes on as soon as it is woken up. -/
def stands (n : BarrierSems) (k : Kernel) (t : TaskId) (a : BarrierPc) : BarrierPc :=
  match n.awaited a with
  | none => a
  | some m => if (k.sems (.app m)).wq.toList.contains (some t) then a else a.resume

/-- The participants of `b` stand where the threads of `s` do. -/
structure Follows (n : BarrierSems) (parts : Finset TaskId) (s : AppSys BarrierApp)
    (b : BarrierSys) : Prop where
  count : b.barrier.count = s.app.count
  val : b.barrier.val = s.app.val
  mutex : b.barrier.mutex = s.sys.k.sems (.app n.mutex)
  turnstile : ∀ p, b.barrier.turnstile p = s.sys.k.sems (.app (n.turnstile p))
  pc : ∀ t, b.pc t = n.stands s.sys.k t (s.app.pc t)
  outside : ∀ t ∉ parts, s.app.pc t = .outside
  /-- A participant that is in a `sem_wait` has called it. -/
  blocked : ∀ t m, n.has m = true →
    (blocksOn (s.sys.pc t) = some (.sem m) ↔ n.awaited (s.app.pc t) = some m)
  untimed : ∀ t m timeout l, n.has m = true → s.sys.pc t ≠ .semTimedwait m timeout l

theorem has_of_awaited (h : n.awaited a = some m) : n.has m = true := by
  cases a with
  | locking p =>
      cases h
      exact n.has_mutex
  | passing p =>
      cases h
      exact n.has_turnstile p
  | _ => cases h

theorem stands_of_none (k : Kernel) (t : TaskId) (h : n.awaited a = none) : n.stands k t a = a := by
  unfold stands
  rw [h]

theorem stands_of_awaited (k : Kernel) (t : TaskId) (h : n.awaited a = some m) : n.stands k t a =
    if (k.sems (.app m)).wq.toList.contains (some t) then a else a.resume := by
  unfold stands
  rw [h]

/-- It only matters whether a thread is in the wait queues of the barrier. -/
theorem stands_congr {k k' : Kernel} (h : ∀ m, n.has m = true →
    (some t ∈ (k'.sems (.app m)).wq.toList ↔ some t ∈ (k.sems (.app m)).wq.toList)) :
    n.stands k' t a = n.stands k t a := by
  cases ha : n.awaited a with
  | none => rw [stands_of_none k' t ha, stands_of_none k t ha]
  | some m =>
      rw [stands_of_awaited k' t ha, stands_of_awaited k t ha]
      simp only [List.contains_iff_mem, h m (has_of_awaited ha)]

namespace Follows

/-! ### The participants' own code -/

theorem pc_of_none (h : n.Follows parts s b) (ha : n.awaited (s.app.pc t) = none) :
    b.pc t = s.app.pc t := by
  rw [h.pc, stands_of_none s.sys.k t ha]

/-- A participant that is not blocked goes where it is not blocked either. -/
theorem move (h : n.Follows parts s b) (ht : t ∈ parts) (ho : n.awaited (s.app.pc t) = none)
    (ha : n.awaited a = none) : n.Follows parts ⟨s.sys, s.app.setPc t a⟩ (b.setPc t a) where
  count := h.count
  val := h.val
  mutex := h.mutex
  turnstile := h.turnstile
  pc := by
    intro u
    show Function.update b.pc t a u = n.stands s.sys.k u (Function.update s.app.pc t a u)
    rcases eq_or_ne u t with rfl | hne
    · rw [Function.update_self, Function.update_self, stands_of_none s.sys.k u ha]
    · rw [Function.update_of_ne hne, Function.update_of_ne hne, h.pc]
  outside := by
    intro u hu
    refine (Function.update_of_ne ?_ _ _).trans (h.outside u hu)
    rintro rfl
    exact hu ht
  blocked := by
    intro u m hm
    rw [h.blocked u m hm]
    show _ ↔ n.awaited (Function.update s.app.pc t a u) = some m
    rcases eq_or_ne u t with rfl | hne
    · rw [Function.update_self, ho, ha]
    · rw [Function.update_of_ne hne]
  untimed := h.untimed

theorem last (h : n.Follows parts s b) (p : Phase) : (b.barrier.last p).1 = (s.app.last p).1 ∧
    n.Follows parts ⟨s.sys, (s.app.last p).2⟩ { b with barrier := (b.barrier.last p).2 } := by
  obtain ⟨⟨count, val, mutex, turnstile1, turnstile2⟩, pc⟩ := b
  obtain rfl : count = s.app.count := h.count
  obtain rfl : val = s.app.val := h.val
  have hq : ∀ q, (Barrier.last ⟨s.app.count, s.app.val, mutex, turnstile1, turnstile2⟩ p).2.turnstile q =
      s.sys.k.sems (.app (n.turnstile q)) := by
    intro q
    rw [← h.turnstile q]
    cases p <;> cases q <;> dsimp only [Barrier.last, Barrier.turnstile]
  cases p with
  | phase1 => exact ⟨rfl, rfl, rfl, h.mutex, hq, h.pc, h.outside, h.blocked, h.untimed⟩
  | phase2 => exact ⟨rfl, rfl, rfl, h.mutex, hq, h.pc, h.outside, h.blocked, h.untimed⟩

variable (value) in
/-- What a participant does in its own code, it does in the abstract system. -/
theorem code (h : n.Follows parts s b) {e : Option BarrierEvent} {app : BarrierApp}
    (hc : (n.client parts).code s.app t = some (e, app)) :
    ∃ b', (barrierSystem parts value).step b t = some (e, b') ∧
      n.Follows parts ⟨s.sys, app⟩ b' := by
  obtain ⟨ht, hc⟩ := Option.ite_none_right_eq_some.1 hc
  have hstep : (barrierSystem parts value).step b t = b.stepThread t := if_pos ht
  rw [hstep]
  unfold BarrierSys.stepThread
  cases ha : s.app.pc t with
  | outside | ret =>
      have hn : n.awaited (s.app.pc t) = none := by rw [ha]; rfl
      rw [ha] at hc
      cases hc
      rw [h.pc_of_none hn, ha]
      exact ⟨_, rfl, h.move ht hn rfl⟩
  | count p =>
      have hn : n.awaited (s.app.pc t) = none := by rw [ha]; rfl
      rw [ha] at hc
      cases hc
      rw [h.pc_of_none hn, ha]
      obtain ⟨hl, hf⟩ := h.last p
      have hn' : n.awaited ((s.app.last p).2.pc t) = none := by
        cases p <;> exact hn
      rw [← hl]
      refine ⟨_, rfl, ?_⟩
      refine hf.move ht hn' ?_
      cases (b.barrier.last p).1 <;> rfl
  | release p i =>
      have hn : n.awaited (s.app.pc t) = none := by rw [ha]; rfl
      rw [ha] at hc
      obtain ⟨hi, hc⟩ := Option.ite_none_left_eq_some.1 hc
      cases hc
      rw [h.pc_of_none hn, ha]
      dsimp only
      rw [h.val, if_neg hi]
      exact ⟨_, rfl, h.move ht hn rfl⟩
  | lock | locking | unlock | pass | passing =>
      rw [ha] at hc
      cases hc

/-! ### Steps that do not concern the barrier -/

/-- A step that is not about the semaphores of the barrier. -/
structure Apart (n : BarrierSems) (s : Sys) (a : Action) : Prop where
  op : ∀ m, n.has m = true → s.semOp m a = none
  call : ∀ c, a = .call c → n.concerns c = false

theorem apart (h : n.Follows parts s b) {a : Action}
    (hc : ∀ c, a = .call c → n.concerns c = false) : Apart n s.sys a where
  op := by
    intro m hm
    have hne : ∀ m', n.has m' = false → m' ≠ m := by
      rintro m' hm' rfl
      rw [hm] at hm'
      cases hm'
    unfold Sys.semOp
    cases s.sys.k.runPtr with
    | none => rfl
    | some t =>
        cases a with
        | create | launch | tick => rfl
        | call c =>
            have hc := hc c rfl
            cases c with
            | semWait | semTimedwait | semTrywait | semPost => exact if_neg (hne _ hc)
            | _ => rfl
        | resume =>
            dsimp only
            split
            · rename_i m' timeout hpc
              rw [if_neg]
              rintro ⟨rfl, -⟩
              exact h.untimed t m' timeout false hm hpc
            · rfl
  call := hc

/-- A thread whose call has returned is not in a wait queue of the barrier. -/
theorem stands_of_event (h : n.Follows parts s b) {a : Action} {ev : Event} {sys : Sys}
    (hw : s.sys.view.Waiting) (hf : s.sys.k.fault = false)
    (hs : s.sys.view.Step a (some ev) sys.view) :
    n.stands s.sys.k ev.thrd (s.app.pc ev.thrd) = (s.app.pc ev.thrd).resume := by
  cases ha : n.awaited (s.app.pc ev.thrd) with
  | none => rw [stands_of_none s.sys.k _ ha, resume_of_awaited ha]
  | some m =>
      have hb := (h.blocked ev.thrd m (has_of_awaited ha)).2 ha
      have hmem : some ev.thrd ∉ (s.sys.k.sems (.app m)).wq.toList := by
        rcases hs.blocks_until hb with hpc | ⟨hr, hi, -⟩
        · rw [hs.event_user] at hpc
          have hb : blocksOn (s.sys.view.pc ev.thrd) = _ := hb
          rw [← hpc] at hb
          cases hb
        · intro hm
          exact hw.running_not_blocking hf hr hi ((hw.blocking ev.thrd).2 ⟨.sem m, hb, hm⟩)
      rw [stands_of_awaited s.sys.k _ ha, if_neg (by simpa using hmem)]

/-- The participants stand still. -/
theorem silent (h : n.Follows parts s b) {a : Action} {ev : Option Event} {sys : Sys}
    (hw : s.sys.view.Waiting) (hst : s.sys.step a = some (ev, sys))
    (hs : s.sys.view.Step a ev sys.view) (ha : Apart n s.sys a) :
    n.Follows parts ⟨sys, (n.client parts).returned s.app ev⟩ b := by
  have hf := (Sys.steps_of_step hst).1
  have hsems : ∀ m, n.has m = true → sys.k.sems (.app m) = s.sys.k.sems (.app m) := by
    intro m hm
    rw [Sys.step_sem hst, Sys.semAfter, ha.op m hm]
  have hstands : ∀ t a, n.stands sys.k t a = n.stands s.sys.k t a := fun t a =>
    stands_congr fun m hm => by rw [hsems m hm]
  have happ : ∀ t, ((n.client parts).returned s.app ev).pc t = s.app.pc t ∨
      ((n.client parts).returned s.app ev).pc t = (s.app.pc t).resume ∧
        ∃ e, ev = some e ∧ e.thrd = t := by
    intro t
    cases ev with
    | none => exact .inl rfl
    | some e =>
        rcases eq_or_ne t e.thrd with rfl | hne
        · exact .inr ⟨Function.update_self _ _ _, e, rfl, rfl⟩
        · exact .inl (Function.update_of_ne hne _ _)
  constructor
  case count =>
      rw [h.count]
      cases ev <;> rfl
  case val =>
      rw [h.val]
      cases ev <;> rfl
  case mutex => rw [h.mutex, hsems _ n.has_mutex]
  case turnstile => exact fun p => by rw [h.turnstile, hsems _ (n.has_turnstile p)]
  case pc =>
      intro t
      rw [hstands, h.pc]
      rcases happ t with hpc | ⟨hpc, e, rfl, rfl⟩
      · rw [hpc]
      · rw [hpc, h.stands_of_event hw hf hs, stands_of_none s.sys.k _ (n.awaited_resume _)]
  case outside =>
      intro t ht
      have ho := h.outside t ht
      rcases happ t with hpc | ⟨hpc, -⟩
      · rw [hpc, ho]
      · rw [hpc, ho]
        rfl
  case blocked =>
      intro t m hm
      constructor
      · intro hb
        have hb' : blocksOn (s.sys.pc t) = some (.sem m) := by
          rcases hs.blocks_by hb with hpc | ⟨-, -, hc⟩
          · rw [show sys.pc t = s.sys.pc t from hpc] at hb
            exact hb
          · have := ha.call _ hc
            rw [show n.concerns (Obj.sem m).waitCall = n.has m from rfl, hm] at this
            cases this
        rcases happ t with hpc | ⟨-, e, rfl, rfl⟩
        · rw [hpc]
          exact (h.blocked t m hm).1 hb'
        · rw [show sys.pc e.thrd = .user from hs.event_user] at hb
          cases hb
      · intro haw
        rcases happ t with hpc | ⟨hpc, -⟩
        · rw [hpc] at haw
          have hb := (h.blocked t m hm).2 haw
          rcases hs.blocks_until hb with hpc' | ⟨-, -, c, r, rfl⟩
          · rw [show sys.pc t = s.sys.pc t from hpc']
            exact hb
          · have hr : ((n.client parts).returned s.app (some ⟨t, c, r⟩)).pc t =
                (s.app.pc t).resume := Function.update_self _ _ _
            rw [← hpc, hr, awaited_resume] at haw
            cases haw
        · rw [hpc, awaited_resume] at haw
          cases haw
  case untimed =>
      intro t m timeout l hm hpc
      rcases hs.pc_timed (o := .sem m) (n := timeout) (b := l) hpc with hpc | ⟨_, _, hc, _⟩
      · exact h.untimed t m timeout l hm hpc
      · have := ha.call _ hc
        rw [show n.concerns ((Obj.sem m).timedCall timeout) = n.has m from rfl, hm] at this
        cases this

end Follows

/-! ### Waiting -/

theorem wait_blocks {k : Kernel} : ((k.sems (.app m)).wait t).1 = true ↔ k.SemBlocks (.app m) := by
  unfold Sem.wait Kernel.SemBlocks
  dsimp only
  split
  · rename_i h
    exact iff_of_true rfl h
  · rename_i h
    exact iff_of_false Bool.false_ne_true h

/-- How a call of `sem_wait` ends: the caller has blocked, or goes on. -/
theorem semWait_step {s s' : Sys} {ev : Option Event} (hk : s.Sound)
    (hr : s.k.runPtr = some t) (hs : s.step (.call (.semWait m)) = some (ev, s')) :
    s'.k.sems = Function.update s.k.sems (.app m) ((s.k.sems (.app m)).wait t).2 ∧
      (((s.k.sems (.app m)).wait t).1 = true ∧ ev = none ∧
          s'.pc = Function.update s.pc t (.ret (.semWait m) 0) ∨
        ((s.k.sems (.app m)).wait t).1 = false ∧ ev = some ⟨t, .semWait m, 0⟩ ∧
          s'.pc = Function.update s.pc t .user) := by
  cases (Sys.steps_of_step hs).2 with
  | @call t' _ hr' hpc hp =>
      cases hr.symm.trans hr'
      have ho := hk.enabled.open hp
      have hsems := Kernel.semWait_sems (s := .app m) hr
      simp only [Sys.stepCall]
      by_cases hb : s.k.SemBlocks (.app m)
      · have hirq : (s.k.semWait (.app m)).irq = ⟨0, true, true⟩ := by
          rw [Kernel.semWait_of_blocks ho hr hb]
          show s.k.irq.request = _
          rw [show s.k.irq = _ from ho]
          rfl
        rw [Sys.complete_of_requested hirq]
        exact ⟨hsems, .inl ⟨wait_blocks.2 hb, rfl, rfl⟩⟩
      · have hopen : (s.k.semWait (.app m)).Open := by
          rw [Kernel.semWait_of_not_blocks ho hb]
          exact ho
        rw [Sys.complete_of_open hopen]
        exact ⟨hsems, .inr ⟨Bool.eq_false_iff.2 (mt wait_blocks.1 hb), rfl, rfl⟩⟩

/-- A caller that blocks joins the wait queue. -/
theorem mem_wait {sem : Sem} (hq : sem.wq.Ok) (hroom : sem.wq.toList.length < numThreads)
    (p : ThrdPtr) : p ∈ (sem.wait t).2.wq.toList ↔
      p ∈ sem.wq.toList ∨ (sem.wait t).1 = true ∧ p = some t := by
  unfold Sem.wait
  dsimp only
  split
  · have := (hq.push_list (some t)).2
    rw [if_pos hroom] at this
    simp [this]
  · simp

namespace Follows

/-- A participant goes on in its own code, or blocks on `m`. -/
theorem moves (h : n.Follows parts s b) (ht : t ∈ parts) {s' : AppSys BarrierApp}
    {b' : BarrierSys} (hcount : b'.barrier.count = s'.app.count) (hval : b'.barrier.val = s'.app.val)
    (hmutex : b'.barrier.mutex = s'.sys.k.sems (.app n.mutex))
    (hturn : ∀ p, b'.barrier.turnstile p = s'.sys.k.sems (.app (n.turnstile p)))
    (hself : s'.app.pc t = a ∧ b'.pc t = a ∧ n.stands s'.sys.k t a = a)
    (hother : ∀ u, u ≠ t → s'.app.pc u = s.app.pc u ∧ s'.sys.pc u = s.sys.pc u ∧
      b'.pc u = n.stands s'.sys.k u (s.app.pc u))
    (hblocked : ∀ m, n.has m = true →
      (blocksOn (s'.sys.pc t) = some (.sem m) ↔ n.awaited a = some m))
    (huntimed : ∀ m timeout l, s'.sys.pc t ≠ .semTimedwait m timeout l) :
    n.Follows parts s' b' where
  count := hcount
  val := hval
  mutex := hmutex
  turnstile := hturn
  pc := by
    intro u
    rcases eq_or_ne u t with rfl | hne
    · rw [hself.1, hself.2.1, hself.2.2]
    · rw [(hother u hne).1, (hother u hne).2.2]
  outside := by
    intro u hu
    rw [(hother u (by rintro rfl; exact hu ht)).1]
    exact h.outside u hu
  blocked := by
    intro u m hm
    rcases eq_or_ne u t with rfl | hne
    · rw [hself.1]
      exact hblocked m hm
    · rw [(hother u hne).1, (hother u hne).2.1]
      exact h.blocked u m hm
  untimed := by
    intro u m timeout l hm
    rcases eq_or_ne u t with rfl | hne
    · exact huntimed m timeout l
    · rw [(hother u hne).2.1]
      exact h.untimed u m timeout l hm

/-- A participant calls `sem_wait`. -/
theorem waits (h : n.Follows parts s b) (ht : t ∈ parts) {ev : Option Event} {sys : Sys}
    {b' : BarrierSys} (hk : s.sys.Sound) (hw : s.sys.view.Waiting) (hr : s.sys.k.runPtr = some t)
    (hu : s.sys.pc t = .user) (hst : s.sys.step (.call (.semWait m)) = some (ev, sys))
    (hm : n.awaited (s.app.pc t).called = some m)
    (hcount : b'.barrier.count = b.barrier.count) (hval : b'.barrier.val = b.barrier.val)
    (hmutex : b'.barrier.mutex = sys.k.sems (.app n.mutex))
    (hturn : ∀ p, b'.barrier.turnstile p = sys.k.sems (.app (n.turnstile p)))
    (hpc : b'.pc = Function.update b.pc t (if ((s.sys.k.sems (.app m)).wait t).1 then
      (s.app.pc t).called else (s.app.pc t).called.resume)) :
    n.Follows parts ⟨sys, (n.client parts).returned
      (s.app.setPc t (s.app.pc t).called) ev⟩ b' := by
  obtain ⟨hsems, hend⟩ := semWait_step hk hr hst
  have hroom := hw.room (t := t) (by rw [show s.sys.view.pc t = _ from hu]; intro hpc; cases hpc)
    (by rw [show s.sys.view.pc t = _ from hu]; rfl) (.sem m)
  have hmem : ∀ u m', u ≠ t → (some u ∈ (sys.k.sems (.app m')).wq.toList ↔
      some u ∈ (s.sys.k.sems (.app m')).wq.toList) := by
    intro u m' hne
    rw [hsems]
    rcases eq_or_ne m' m with rfl | hne'
    · rw [Function.update_self, mem_wait (hk.good.queue (.sem m')) hroom]
      simp [hne]
    · rw [Function.update_of_ne (by simpa using hne')]
  have hother : ∀ u, u ≠ t → n.stands sys.k u (s.app.pc u) = b.pc u := by
    intro u hne
    rw [h.pc]
    exact stands_congr fun m' _ => hmem u m' hne
  rcases hend with ⟨hb, rfl, hpc'⟩ | ⟨hb, rfl, hpc'⟩
  · rw [hb, if_pos rfl] at hpc
    refine h.moves ht (a := (s.app.pc t).called) (hcount.trans h.count) (hval.trans h.val) hmutex
      hturn ⟨Function.update_self _ _ _, by rw [hpc, Function.update_self], ?_⟩ ?_ ?_ ?_
    · rw [stands_of_awaited sys.k t hm, if_pos]
      rw [List.contains_iff_mem, hsems, Function.update_self,
        mem_wait (hk.good.queue (.sem m)) hroom]
      exact .inr ⟨hb, rfl⟩
    · intro u hne
      refine ⟨Function.update_of_ne hne _ _, by rw [hpc', Function.update_of_ne hne], ?_⟩
      rw [hpc, Function.update_of_ne hne, hother u hne]
    · intro m' _
      rw [hpc', Function.update_self, hm]
      simp [blocksOn]
    · rw [hpc', Function.update_self]
      intro _ _ _ hpc
      cases hpc
  · rw [hb, if_neg Bool.false_ne_true] at hpc
    refine h.moves ht (a := (s.app.pc t).called.resume) (hcount.trans h.count)
      (hval.trans h.val) hmutex hturn ⟨?_, by rw [hpc, Function.update_self],
        stands_of_none sys.k t (n.awaited_resume _)⟩ ?_ ?_ ?_
    · exact (Function.update_self ..).trans
        (congrArg BarrierPc.resume (Function.update_self t _ s.app.pc))
    · intro u hne
      refine ⟨?_, by rw [hpc', Function.update_of_ne hne], ?_⟩
      · show Function.update (Function.update s.app.pc t _) t _ u = _
        rw [Function.update_of_ne hne, Function.update_of_ne hne]
      · rw [hpc, Function.update_of_ne hne, hother u hne]
    · intro m' _
      rw [hpc', Function.update_self, awaited_resume]
      simp [blocksOn]
    · rw [hpc', Function.update_self]
      intro _ _ _ hpc
      cases hpc

end Follows

/-! ### Posting -/

/-- A call of `sem_post` returns at once. -/
theorem semPost_step {s s' : Sys} {ev : Option Event} (hk : s.Sound) (hr : s.k.runPtr = some t)
    (hs : s.step (.call (.semPost m)) = some (ev, s')) :
    s'.k.sems = Function.update s.k.sems (.app m) (s.k.sems (.app m)).post.2 ∧
      ev = some ⟨t, .semPost m, 0⟩ ∧ s'.pc = Function.update s.pc t .user := by
  cases (Sys.steps_of_step hs).2 with
  | @call t' _ hr' hpc hp =>
      cases hr.symm.trans hr'
      have ho := hk.enabled.open hp
      have hopen : (s.k.semPost (.app m)).Open :=
        (hk.good.semPost (.inl ho) m t s.pc).2.1.trans ho
      simp only [Sys.stepCall]
      rw [Sys.complete_of_open hopen]
      exact ⟨Kernel.semPost_sems, rfl, rfl⟩

/-- `sem_post` wakes up the first thread in the wait queue, or nobody. -/
theorem post_cases {sem : Sem} (hn : none ∉ sem.wq.toList) :
    sem.post.1 = none ∧ sem.post.2.wq.toList = sem.wq.toList ∨
      ∃ u l, sem.wq.toList = some u :: l ∧ sem.post.1 = some u ∧ sem.post.2.wq.toList = l := by
  unfold Sem.post
  dsimp only
  split
  · cases hl : sem.wq.toList with
    | nil =>
        rw [Queue.pop_of_nil hl]
        exact .inl ⟨rfl, hl⟩
    | cons p l =>
        cases p with
        | none => exact absurd (hl ▸ List.mem_cons_self) hn
        | some u =>
            obtain ⟨hp, hl'⟩ := Queue.toList_pop hl
            exact .inr ⟨u, l, rfl, by rw [hp]; rfl, hl'⟩
  · exact .inl ⟨rfl, rfl⟩

namespace Follows

/-- Who is in the wait queue of a semaphore of the barrier has blocked there. -/
theorem awaited_of_mem (h : n.Follows parts s b) (hw : s.sys.view.Waiting) (hm : n.has m = true)
    (hu : some u ∈ (s.sys.k.sems (.app m)).wq.toList) : n.awaited (s.app.pc u) = some m := by
  refine (h.blocked u m hm).1 ?_
  have hwait : waitsOn (s.sys.pc u) = some (.sem m) := hw.waiter_some (o := .sem m) hu
  have hnone : timesOn (s.sys.pc u) ≠ some (.sem m) := by
    intro ht
    cases hpc : s.sys.pc u with
    | semTimedwait m' timeout l =>
        rw [hpc] at ht
        cases l with
        | true => cases ht
        | false =>
            cases ht
            exact h.untimed u m timeout false hm hpc
    | mtxTimedlock m' timeout l =>
        rw [hpc] at ht
        cases l <;> cases ht
    | _ =>
        rw [hpc] at ht
        cases ht
  rcases (Option.or_eq_some_iff).1 hwait with hb | ⟨-, ht⟩
  · exact hb
  · exact absurd ht hnone

/-- A participant calls `sem_post`. -/
theorem posts (h : n.Follows parts s b) (ht : t ∈ parts) {ev : Option Event} {sys : Sys}
    {b' : BarrierSys} (hk : s.sys.Sound) (hw : s.sys.view.Waiting) (hr : s.sys.k.runPtr = some t)
    (hu : s.sys.pc t = .user) (hst : s.sys.step (.call (.semPost m)) = some (ev, sys))
    (hm : n.has m = true) (ha : n.awaited (s.app.pc t).called = none)
    (hcount : b'.barrier.count = b.barrier.count) (hval : b'.barrier.val = b.barrier.val)
    (hmutex : b'.barrier.mutex = sys.k.sems (.app n.mutex))
    (hturn : ∀ p, b'.barrier.turnstile p = sys.k.sems (.app (n.turnstile p)))
    (hpc : b'.pc = ((b.setPc t (s.app.pc t).called).wake
      (s.sys.k.sems (.app m)).post.1).pc) :
    n.Follows parts ⟨sys, (n.client parts).returned
      (s.app.setPc t (s.app.pc t).called) ev⟩ b' := by
  obtain ⟨hsems, rfl, hpc'⟩ := semPost_step hk hr hst
  have hsys : sys.pc = s.sys.pc := by
    rw [hpc', ← hu, Function.update_eq_self]
  have happ : ∀ u, ((n.client parts).returned (s.app.setPc t (s.app.pc t).called)
      (some ⟨t, .semPost m, 0⟩)).pc u = Function.update s.app.pc t (s.app.pc t).called u := by
    intro u
    show Function.update (Function.update s.app.pc t _) t
      (BarrierPc.resume (Function.update s.app.pc t _ t)) u = _
    rw [Function.update_self, resume_of_awaited ha, Function.update_idem]
  have htm : ∀ m', some t ∉ (s.sys.k.sems (.app m')).wq.toList := fun m' =>
    hw.not_waiter (o := .sem m') (by rw [show s.sys.view.pc t = _ from hu]; rfl)
  have hself : b'.pc t = (s.app.pc t).called ∧ ∀ u, u ≠ t →
      b'.pc u = n.stands sys.k u (s.app.pc u) := by
    have hsame : ∀ u m', m' ≠ m → (some u ∈ (sys.k.sems (.app m')).wq.toList ↔
        some u ∈ (s.sys.k.sems (.app m')).wq.toList) := by
      intro u m' hne
      rw [hsems, Function.update_of_ne (by simpa using hne)]
    have hpost : (sys.k.sems (.app m)) = (s.sys.k.sems (.app m)).post.2 := by
      rw [hsems, Function.update_self]
    rcases post_cases (hk.good.waiters (.sem m)) with ⟨hn, hl⟩ | ⟨w, l, hq, hn, hl⟩
    · rw [hn] at hpc
      refine ⟨by rw [hpc]; exact Function.update_self _ _ _, ?_⟩
      intro u hne
      rw [hpc]
      refine (Function.update_of_ne hne _ _).trans ((h.pc u).trans (stands_congr ?_).symm)
      intro m' _
      rcases eq_or_ne m' m with rfl | hne'
      · rw [hpost, hl]
      · exact hsame u m' hne'
    · rw [hn] at hpc
      have hmem : some w ∈ (s.sys.k.sems (.app m)).wq.toList := by
        rw [hq]
        exact List.mem_cons_self
      have hwt : w ≠ t := by
        rintro rfl
        exact htm m hmem
      have hnd := hw.nodup (.sem m)
      rw [show s.sys.view.waiters (.sem m) = some w :: l from hq] at hnd
      have haw := h.awaited_of_mem hw hm hmem
      have hbw : b.pc w = s.app.pc w := by
        rw [h.pc, stands_of_awaited s.sys.k w haw, if_pos (List.contains_iff_mem.2 hmem)]
      refine ⟨?_, ?_⟩
      · rw [hpc]
        refine (Function.update_of_ne hwt.symm _ _).trans ?_
        exact Function.update_self _ _ _
      · intro u hne
        rcases eq_or_ne u w with rfl | hnw
        · rw [hpc]
          refine (Function.update_self _ _ _).trans ?_
          rw [stands_of_awaited sys.k u haw, hpost, hl, if_neg]
          · rw [BarrierSys.setPc_pc, Function.update_of_ne hne, hbw]
          · rw [List.contains_iff_mem]
            exact (List.nodup_cons.1 hnd).1
        · rw [hpc]
          refine (Function.update_of_ne hnw _ _).trans ((Function.update_of_ne hne _ _).trans
            ((h.pc u).trans (stands_congr ?_).symm))
          intro m' _
          rcases eq_or_ne m' m with rfl | hne'
          · rw [hpost, hl, hq]
            simp [hnw]
          · exact hsame u m' hne'
  refine h.moves ht (a := (s.app.pc t).called) (hcount.trans h.count) (hval.trans h.val) hmutex
    hturn ⟨by rw [happ, Function.update_self], hself.1, stands_of_none sys.k t ha⟩ ?_ ?_ ?_
  · intro u hne
    exact ⟨by rw [happ, Function.update_of_ne hne], by rw [hsys], hself.2 u hne⟩
  · intro m' _
    rw [hsys, hu, ha]
    simp [blocksOn]
  · rw [hsys, hu]
    intro _ _ _ hpc
    cases hpc

/-- After an operation on the mutex. -/
theorem barrier_mutex (h : n.Follows parts s b) {sys : Sys} {sem : Sem}
    (hsems : sys.k.sems = Function.update s.sys.k.sems (.app n.mutex) sem) :
    sem = sys.k.sems (.app n.mutex) ∧
      ∀ p, b.barrier.turnstile p = sys.k.sems (.app (n.turnstile p)) := by
  refine ⟨by rw [hsems, Function.update_self], fun p => ?_⟩
  rw [hsems, Function.update_of_ne (by simpa using n.mutex_ne p), h.turnstile]

/-- After an operation on a turnstile. -/
theorem barrier_turnstile (h : n.Follows parts s b) {sys : Sys} {sem : Sem}
    (hsems : sys.k.sems = Function.update s.sys.k.sems (.app (n.turnstile p)) sem) :
    (b.barrier.setTurnstile sem p).mutex = sys.k.sems (.app n.mutex) ∧
      ∀ q, (b.barrier.setTurnstile sem p).turnstile q = sys.k.sems (.app (n.turnstile q)) := by
  have hne := n.turnstile_ne
  refine ⟨?_, fun q => ?_⟩
  · rw [hsems, Function.update_of_ne (by simpa using (n.mutex_ne p).symm), ← h.mutex]
    cases p <;> rfl
  · cases p <;> cases q
    · rw [hsems, Function.update_self]
      rfl
    · rw [hsems, Function.update_of_ne (by simpa using hne.symm), ← h.turnstile]
      rfl
    · rw [hsems, Function.update_of_ne (by simpa using hne), ← h.turnstile]
      rfl
    · rw [hsems, Function.update_self]
      rfl

theorem wake_barrier (b : BarrierSys) (w : ThrdPtr) : (b.wake w).barrier = b.barrier := by
  cases w <;> rfl

theorem wake_pc (b : BarrierSys) (barrier : Barrier) (w : ThrdPtr) :
    (BarrierSys.wake { b with barrier } w).pc = (b.wake w).pc := by
  cases w <;> rfl

theorem setTurnstile_fields (barrier : Barrier) (sem : Sem) (p : Phase) :
    (barrier.setTurnstile sem p).count = barrier.count ∧
      (barrier.setTurnstile sem p).val = barrier.val := by
  cases p <;> exact ⟨rfl, rfl⟩

variable (value) in
/-- A participant that is in `barrier_wait` makes the call that the code says. -/
theorem calls (h : n.Follows parts s b) (ht : t ∈ parts) {c : Call} {ev : Option Event} {sys : Sys}
    (hk : s.sys.Sound) (hw : s.sys.view.Waiting) (hr : s.sys.k.runPtr = some t)
    (hu : s.sys.pc t = .user) (hst : s.sys.step (.call c) = some (ev, sys))
    (hc : n.next s.app.val (s.app.pc t) = some c) :
    ∃ b', (barrierSystem parts value).step b t = some (none, b') ∧
      n.Follows parts ⟨sys, (n.client parts).returned
        (s.app.setPc t (s.app.pc t).called) ev⟩ b' := by
  have hstep : (barrierSystem parts value).step b t = b.stepThread t := if_pos ht
  rw [hstep]
  unfold BarrierSys.stepThread
  cases ha : s.app.pc t with
  | lock p =>
      have hn : n.awaited (s.app.pc t) = none := by rw [ha]; rfl
      rw [ha] at hc
      cases hc
      rw [h.pc_of_none hn, ha]
      refine ⟨b.waitMutex t p, rfl, ?_⟩
      rw [← ha]
      have hm := h.mutex
      obtain ⟨h₁, h₂⟩ := h.barrier_mutex (semWait_step hk hr hst).1
      refine h.waits ht hk hw hr hu hst (by rw [ha]; rfl) rfl rfl ?_ h₂ ?_
      · rw [← h₁, ← hm]
        rfl
      · rw [← hm, ha]
        rfl
  | pass p =>
      have hn : n.awaited (s.app.pc t) = none := by rw [ha]; rfl
      rw [ha] at hc
      cases hc
      rw [h.pc_of_none hn, ha]
      refine ⟨b.waitTurnstile t p, rfl, ?_⟩
      rw [← ha]
      have hm := h.turnstile p
      obtain ⟨h₁, h₂⟩ := h.barrier_turnstile (semWait_step hk hr hst).1
      rw [← hm] at h₁ h₂
      obtain ⟨h₃, h₄⟩ := setTurnstile_fields b.barrier ((b.barrier.turnstile p).wait t).2 p
      refine h.waits ht hk hw hr hu hst (by rw [ha]; rfl) h₃ h₄ h₁ h₂ ?_
      rw [← hm, ha]
      rfl
  | unlock p =>
      have hn : n.awaited (s.app.pc t) = none := by rw [ha]; rfl
      rw [ha] at hc
      cases hc
      rw [h.pc_of_none hn, ha]
      refine ⟨(b.setPc t (.pass p)).postMutex, rfl, ?_⟩
      rw [← ha]
      have hm := h.mutex
      obtain ⟨h₁, h₂⟩ := h.barrier_mutex (semPost_step hk hr hst).1
      have hb : ((b.setPc t (.pass p)).postMutex).barrier =
          { b.barrier with mutex := b.barrier.mutex.post.2 } := wake_barrier _ _
      refine h.posts ht hk hw hr hu hst n.has_mutex (by rw [ha]; rfl) (by rw [hb]) (by rw [hb]) ?_
        ?_ ?_
      · rw [hb, ← h₁, hm]
      · rw [hb]
        exact h₂
      · rw [ha, ← hm]
        exact wake_pc _ _ _
  | release p i =>
      have hn : n.awaited (s.app.pc t) = none := by rw [ha]; rfl
      rw [ha] at hc
      obtain ⟨hi, hc⟩ := Option.ite_none_right_eq_some.1 hc
      cases hc
      rw [h.pc_of_none hn, ha]
      dsimp only
      rw [h.val, if_pos hi]
      refine ⟨(b.setPc t (.release p (i + 1))).postTurnstile p, rfl, ?_⟩
      rw [← ha]
      have hm := h.turnstile p
      obtain ⟨h₁, h₂⟩ := h.barrier_turnstile (semPost_step hk hr hst).1
      rw [← hm] at h₁ h₂
      obtain ⟨h₃, h₄⟩ := setTurnstile_fields b.barrier (b.barrier.turnstile p).post.2 p
      have hb : ((b.setPc t (.release p (i + 1))).postTurnstile p).barrier =
          b.barrier.setTurnstile (b.barrier.turnstile p).post.2 p := wake_barrier _ _
      refine h.posts ht hk hw hr hu hst (n.has_turnstile p) (by rw [ha]; rfl) (by rw [hb, h₃])
        (by rw [hb, h₄]) (by rw [hb, h₁]) (by rw [hb]; exact h₂) ?_
      rw [ha, ← hm]
      exact wake_pc _ _ _
  | outside | locking | count | passing | ret =>
      rw [ha] at hc
      cases hc

/-- The calls that the application allows. -/
theorem allowed (h : n.Follows parts s b) {a : Action} {app : BarrierApp}
    (ha : (n.client parts).allowed s a = some app) :
    app = s.app ∧ (∀ c, a = .call c → s.sys.k.runPtr ≠ none → n.concerns c = false) ∨
      ∃ t c, t ∈ parts ∧ s.sys.k.runPtr = some t ∧ a = .call c ∧
        n.next s.app.val (s.app.pc t) = some c ∧ app = s.app.setPc t (s.app.pc t).called := by
  unfold Client.allowed at ha
  split at ha
  · rename_i c t hr
    obtain ⟨hc, ha⟩ := Option.ite_none_right_eq_some.1 ha
    cases ha
    unfold client at hc
    dsimp only at hc
    split at hc
    · rename_i ht
      exact .inr ⟨t, c, ht.1, hr, rfl, of_decide_eq_true hc, rfl⟩
    · rename_i ht
      have ho : s.app.pc t = .outside := by
        by_cases hp : t ∈ parts
        · exact not_not.1 fun ho => ht ⟨hp, ho⟩
        · exact h.outside t hp
      refine .inl ⟨?_, ?_⟩
      · show { s.app with pc := Function.update s.app.pc t (s.app.pc t).called } = s.app
        rw [show (s.app.pc t).called = s.app.pc t by rw [ho]; rfl, Function.update_eq_self]
      · intro c' hc' _
        cases hc'
        simpa using hc
  · rename_i hne
    cases ha
    refine .inl ⟨rfl, ?_⟩
    rintro c rfl hr
    obtain ⟨t, ht⟩ := Option.ne_none_iff_exists'.1 hr
    exact absurd ht (hne c t rfl)

/-- A step of the application on the kernel is one of the abstract participants, or none. -/
theorem step (h : n.Follows parts s b) {a : AppAction} {e : Option BarrierEvent}
    (hk : s.sys.Sound) (hw : s.sys.view.Waiting) (hg : s.OnKernel Sys.Clean a)
    (hs : (n.client parts).step s a = some (e, s')) :
    e = none ∧ n.Follows parts s' b ∨
      ∃ t b', (barrierSystem parts value).step b t = some (e, b') ∧ n.Follows parts s' b' := by
  obtain ⟨sys', app'⟩ := s'
  cases a with
  | code =>
      obtain ⟨rfl, t, -, -, hc⟩ := AppSys.step_code hs
      obtain ⟨b', hb, hf⟩ := h.code value hc
      exact .inr ⟨t, b', hb, hf⟩
  | kernel a =>
      obtain ⟨rfl, app, ev, hall, hst, rfl⟩ := AppSys.step_kernel hs
      have hv := (Sys.step_refines hk hg.1 hst).2
      rcases h.allowed hall with ⟨rfl, hc⟩ | ⟨t, c, ht, hr, rfl, hn, rfl⟩
      · refine .inl ⟨rfl, h.silent hw hst hv (h.apart ?_)⟩
        rintro c rfl
        refine hc c rfl ?_
        cases (Sys.steps_of_step hst).2 with
        | call _ hr => exact hr ▸ Option.some_ne_none _
      · have hu : s.sys.pc t = .user := by
          cases (Sys.steps_of_step hst).2 with
          | call _ hr' hu =>
              cases hr.symm.trans hr'
              exact hu
        obtain ⟨b', hb, hf⟩ := h.calls value ht hk hw hr hu hst hn
        exact .inr ⟨t, b', hb, hf⟩

end Follows

/-! ### Runs -/

theorem boot_follows (hi : n.Initial vals) (hle : value ≤ numThreads) :
    ∃ b, (barrierSystem parts value).init b ∧
      n.Follows parts ⟨Sys.boot vals, barrierApp value⟩ b := by
  have hsems : ∀ m, (Sys.boot vals).k.sems (.app m) = Sem.init (vals m) := fun _ => rfl
  refine ⟨⟨⟨0, value, Sem.init 1, Sem.init 0, Sem.init 0⟩, fun _ => .outside⟩, ?_, ?_⟩
  · exact ⟨⟨⟨0, 0, Sem.init 0, Sem.init 0, Sem.init 0⟩, if_neg (Nat.not_lt.2 hle)⟩, fun _ => rfl⟩
  · constructor
    case count | val => rfl
    case pc => exact fun _ => rfl
    case outside => exact fun _ _ => rfl
    case mutex => rw [hsems, hi.mutex]
    case turnstile =>
        intro p
        rw [hsems, hi.turnstile]
        cases p <;> rfl
    case blocked => exact fun _ _ _ => ⟨nofun, nofun⟩
    case untimed => exact fun _ _ _ _ _ => nofun

variable {h : List (Option BarrierEvent)}

/-- What the threads do on the kernel is what the participants of a barrier do. -/
theorem run_follows (hv : ValidVals vals) (hi : n.Initial vals) (hle : value ≤ numThreads)
    (hr : ((n.client parts).system vals (barrierApp value)).Run (AppSys.OnKernel Sys.Clean) h s) :
    ∃ h' b, (barrierSystem parts value).Run (fun _ _ => True) h' b ∧ n.Follows parts s b ∧
      h'.reduceOption = h.reduceOption := by
  refine hr.simulate_silent (R := n.Follows parts) ?_ ?_
  · rintro s rfl
    exact boot_follows hi hle
  · intro h s b a e s' hr hf hg hs
    obtain ⟨h', hk⟩ := AppSys.run_sys hr
    obtain ⟨hsound, hw⟩ := Sys.run_waiting hv hk
    exact hf.step hsound hw hg hs

/-- Silent steps do not count. -/
theorem count_reduceOption (e : BarrierEvent) (h : List (Option BarrierEvent)) :
    h.reduceOption.count e = h.count (some e) := by
  induction h with
  | nil => rfl
  | cons o h ih =>
      cases o with
      | none => simp [ih]
      | some e' => simp [List.count_cons, ih]

open BarrierSys in
/-- No thread has returned more often than another one has called. -/
theorem returned_le_entered {h : List (Option BarrierEvent)} (hi : b.Inv parts value h)
    (hc : parts.card = value) :
    (∀ t ∈ parts, ∀ u ∈ parts, returned t h ≤ entered u h) ∧ b.barrier.count ≤ value := by
  rcases hi.mode with ⟨R, hf | hd⟩
  · refine ⟨fun t ht u hu => ?_, hf.lt.le⟩
    have h₁ := hf.rounds t ht
    have h₂ := hf.rounds u hu
    have h₃ := hi.calls t ht
    have hl := BarrierPc.late_le (b.pc t)
    omega
  · refine ⟨fun t ht u hu => ?_, hd.le hc⟩
    have h₁ := hd.rounds t ht
    have h₂ := hd.rounds u hu
    have h₃ := hi.calls t ht
    omega

open BarrierSys in
/-- No thread returns from its `r`-th `barrier_wait` on the kernel before all threads have called it
`r` times, whatever the other threads and the tick do. -/
theorem rendezvous_on_kernel (hv : ValidVals vals) (hi : n.Initial vals) (hc : parts.card = value)
    (hpos : 1 ≤ value) (hle : value ≤ numThreads)
    (hr : ((n.client parts).system vals (barrierApp value)).Run (AppSys.OnKernel Sys.Clean) h s) :
    (∀ t ∈ parts, ∀ u ∈ parts, returned t h ≤ entered u h) ∧ s.app.count ≤ value := by
  obtain ⟨h', b, hb, hf, he⟩ := run_follows hv hi hle hr
  have hcount : ∀ e, h'.count (some e) = h.count (some e) := fun e => by
    rw [← count_reduceOption, he, count_reduceOption]
  obtain ⟨hle, hcnt⟩ := returned_le_entered (run_inv hc hpos hle hb) hc
  refine ⟨fun t ht u hu => ?_, hf.count ▸ hcnt⟩
  have := hle t ht u hu
  unfold returned entered at *
  rwa [hcount, hcount] at this

/-- The semaphores 0, 1 and 2. -/
def firstSems : BarrierSems where
  mutex := 0
  turnstile p := if p = .phase1 then 1 else 2
  mutex_ne := by rintro (_ | _) <;> decide
  turnstile_ne := by decide

def firstVals (m : Nat) : Nat := if m = 0 then 1 else 0

theorem firstVals_valid : ValidVals firstVals := by
  intro m
  unfold firstVals
  split <;> decide

theorem firstVals_initial : firstSems.Initial firstVals :=
  ⟨rfl, by rintro (_ | _) <;> rfl⟩

open BarrierSys in
/-- The first thread blocks in the first phase, the second one lets it go on and blocks in the
second phase, and the first one returns. -/
theorem rendezvous_on_kernel_two_threads :
    ∃ h s, ((firstSems.client {.slot 15, .slot 14}).system firstVals (barrierApp 2)).Run
        (AppSys.OnKernel Sys.Clean) h s ∧
      returned (.slot 15) h = 1 ∧ 1 ≤ entered (.slot 14) h := by
  rcases TransitionSystem.exists_run_of_exec
    (M := (firstSems.client {.slot 15, .slot 14}).system firstVals (barrierApp 2))
    (G := AppSys.OnKernel Sys.Clean) rfl
    ([.create 1 1, .create 1 1, .launch].map .kernel ++
      [.code, .kernel (.call (.semWait 0)), .code, .kernel (.call (.semPost 0)),
        .kernel (.call (.semWait 1)), .kernel (.tick 0)] ++
      [.code, .kernel (.call (.semWait 0)), .code, .kernel (.call (.semPost 1)),
        .kernel (.call (.semPost 1)), .code, .kernel (.call (.semPost 0)),
        .kernel (.call (.semWait 1)), .kernel (.call (.semWait 0)), .code,
        .kernel (.call (.semPost 0)), .kernel (.call (.semWait 2)), .kernel (.tick 0)] ++
      [.kernel .resume, .kernel (.call (.semWait 0)), .code, .kernel (.call (.semPost 2)),
        .kernel (.call (.semPost 2)), .code, .kernel (.call (.semPost 0)),
        .kernel (.call (.semWait 2)), .code])
    (P := fun h _ => returned (.slot 15) h = 1) (by decide +kernel) with ⟨h, s, hr, h1⟩
  have hle := (rendezvous_on_kernel firstVals_valid firstVals_initial rfl (by decide) (by decide)
    hr).1 (.slot 15) (by decide) (.slot 14) (by decide)
  exact ⟨h, s, hr, h1, h1 ▸ hle⟩

open BarrierSys in
/-- On the kernel, not all threads are in the wait queues of the barrier, and where none of them is
in `barrier_wait`, the barrier is as `barrier_init` has left it. -/
theorem reset_on_kernel (hv : ValidVals vals) (hi : n.Initial vals) (hc : parts.card = value)
    (hpos : 1 ≤ value) (hle : value ≤ numThreads)
    (hr : ((n.client parts).system vals (barrierApp value)).Run (AppSys.OnKernel Sys.Clean) h s) :
    (¬ ∀ t ∈ parts, ∃ m, n.has m = true ∧ some t ∈ (s.sys.k.sems (.app m)).wq.toList) ∧
    ((∀ t ∈ parts, s.app.pc t = .outside) → s.app.count = 0 ∧ ∀ m, n.has m = true →
      (s.sys.k.sems (.app m)).val = vals m ∧ (s.sys.k.sems (.app m)).wq.toList = []) := by
  obtain ⟨h', b, hb, hf, -⟩ := run_follows hv hi hle hr
  obtain ⟨_, hk⟩ := AppSys.run_sys hr
  have hw := (Sys.run_waiting hv hk).2
  have hinv := run_inv hc hpos hle hb
  refine ⟨?_, ?_⟩
  · intro hall
    refine hinv.not_all_blocked hc fun t ht => ?_
    obtain ⟨m, hm, hmem⟩ := hall t ht
    have haw := hf.awaited_of_mem hw hm hmem
    rw [hf.pc, stands_of_awaited s.sys.k t haw, if_pos (List.contains_iff_mem.2 hmem)]
    cases hpc : s.app.pc t with
    | locking | passing => rfl
    | _ =>
        rw [hpc] at haw
        cases haw
  · intro ho
    have ho' : ∀ t ∈ parts, b.pc t = .outside := fun t ht => by
      rw [hf.pc_of_none (by rw [ho t ht]; rfl), ho t ht]
    obtain ⟨hcount, hm, h₁, h₂, hqm, hq₁, hq₂⟩ := hinv.reset hc hpos ho'
    have hnil : ∀ {sem : Sem}, sem.wq.count = 0 → sem.wq.toList = [] := fun hq =>
      List.length_eq_zero_iff.1 (by rw [Queue.length_toList, hq])
    have hmutex := hf.mutex
    have ht₁ := hf.turnstile .phase1
    have ht₂ := hf.turnstile .phase2
    refine ⟨hf.count ▸ hcount, fun m hm' => ?_⟩
    simp only [has, decide_eq_true_eq] at hm'
    rcases hm' with rfl | rfl | rfl
    · rw [← hmutex, hi.mutex]
      exact ⟨hm, hnil hqm⟩
    · rw [← ht₁, hi.turnstile]
      exact ⟨h₁, hnil hq₁⟩
    · rw [← ht₂, hi.turnstile]
      exact ⟨h₂, hnil hq₂⟩

open BarrierSys in
/-- A barrier for one thread. -/
theorem reset_on_kernel_one_thread :
    ∃ h s, ((firstSems.client {.slot 15}).system firstVals (barrierApp 1)).Run
        (AppSys.OnKernel Sys.Clean) h s ∧
      returned (.slot 15) h = 1 ∧ s.app.count = 0 ∧ (s.sys.k.sems (.app 0)).val = 1 := by
  rcases TransitionSystem.exists_run_of_exec
    (M := (firstSems.client {.slot 15}).system firstVals (barrierApp 1))
    (G := AppSys.OnKernel Sys.Clean) rfl
    ([.create 1 1, .launch].map .kernel ++
      [.code, .kernel (.call (.semWait 0)), .code, .kernel (.call (.semPost 1)), .code,
        .kernel (.call (.semPost 0)), .kernel (.call (.semWait 1))] ++
      [.kernel (.call (.semWait 0)), .code, .kernel (.call (.semPost 2)), .code,
        .kernel (.call (.semPost 0)), .kernel (.call (.semWait 2)), .code])
    (P := fun h s => returned (.slot 15) h = 1 ∧ s.app.pc (.slot 15) = .outside)
    (by decide +kernel) with ⟨h, s, hr, h1, ho⟩
  have hreset := (reset_on_kernel firstVals_valid firstVals_initial rfl (by decide) (by decide)
    hr).2 (by simp [ho])
  exact ⟨h, s, hr, h1, hreset.1, (hreset.2 0 rfl).1⟩

end BarrierSems

end MsTos
