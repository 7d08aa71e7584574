-- SUMMARY: Whom `os_schedule` selects: when it is always a linked thread, and how a thread that has ended stays selected.
import MsTos.QuietRuns

namespace MsTos

/-! ## The idle thread -/

namespace View

variable {v v' : View} {o : Obj} {t u : TaskId} {a : Action} {e : Option Event}

/-- The idle thread holds nothing and waits for nothing, and its slice is one tick. -/
structure IdleApart (v : View) : Prop where
  holder : ∀ m, v.holder m ≠ some .idle
  waiters : ∀ o, some .idle ∉ v.waiters o
  workingPrio : (v.thrds .idle).workingPrio = 1
  fixedPrio : (v.thrds .idle).fixedPrio = 1

theorem setThrd_of_ne {f : Thrd → Thrd} (hu : u ≠ t) : v.setThrd t f u = v.thrds u :=
  Function.update_of_ne hu _ _

theorem boosted_of_holder (hh : ∀ m, v.holder m ≠ some u) : v.boosted o t u = v.thrds u := by
  unfold boosted
  cases o with
  | sem n => rfl
  | mtx m =>
      dsimp only
      cases hm : v.holder m with
      | none => rfl
      | some h =>
          have hne : u ≠ h := by
            rintro rfl
            exact hh m hm
          dsimp only
          split
          · exact setThrd_of_ne hne
          · rfl

theorem restored_of_ne (hu : u ≠ t) : v.restored o t u = v.thrds u := by
  cases o with
  | sem n => rfl
  | mtx m => exact Function.update_of_ne hu _ _

/-- A signal changes the thread that gives it and the one that gets it. -/
theorem Signals.thrds_of_ne (hs : v.Signals o t v') (ht : u ≠ t) (hw : some u ∉ v.waiters o) :
    v'.thrds u = v.thrds u := by
  cases hs with
  | free | crash => exact restored_of_ne ht
  | @grant w l hv hq =>
      have hne : u ≠ w := by
        rintro rfl
        exact hw (hq ▸ List.mem_cons_self)
      exact (Function.update_of_ne hne _ _).trans (restored_of_ne ht)

theorem Leaves.thrds (h : Leaves v t v') : v'.thrds = v.thrds := by
  cases h <;> rfl

/-- Only a tick changes the idle thread. -/
theorem IdleApart.thrds_eq (h : v.IdleApart) (hpc : v.pc .idle = .none) (hs : v.Step a e v')
    (ha : ∀ sp, a ≠ .tick sp) : v'.thrds .idle = v.thrds .idle := by
  have hne : ∀ {t : TaskId} {p : Pc}, v.pc t = p → p ≠ .none → TaskId.idle ≠ t := by
    rintro t p hp hn rfl
    exact hn (hp.symm.trans hpc)
  cases hs with
  | create r p i hr hi | thrdCreate r p i hr hu hi =>
      simp [start, setThrd]
  | createFails | launch | fails | yields | take | tryTake | trySteal | timedTake | exit | ret
  | timedLeave => rfl
  | @block t v₁ o hr hu hb hl =>
      refine (congrFun hl.thrds .idle).trans ?_
      refine (Function.update_of_ne (hne hu (by simp)) _ _).trans ?_
      exact boosted_of_holder (o := o) (t := t) h.holder
  | timedZero o n hn hr hu hb => exact boosted_of_holder h.holder
  | @timedBlock t v₁ o n hn hr hu hb hl =>
      refine (congrFun hl.thrds .idle).trans ?_
      refine (Function.update_of_ne (hne hu (by simp)) _ _).trans ?_
      exact boosted_of_holder (o := o) (t := t) h.holder
  | signal o hr hu hh hs => exact hs.thrds_of_ne (hne hu (by simp)) (h.waiters o)
  | sleep n hn hr hu => exact Function.update_of_ne (hne hu (by simp)) _ _
  | pause n hr hi hu hl | kill hr hi hu hl => exact congrFun hl.thrds .idle
  | @rollback t v₁ n timeout hr hi hu hs hv =>
      have ht := hne hu (by simp)
      exact (hv.thrds_of_ne ht (h.waiters (.sem n))).trans (Function.update_of_ne ht _ _)
  | tick sp hr ht => exact absurd rfl (ha sp)

theorem IdleApart.step (h : v.IdleApart) (hpc : v.pc .idle = .none) (hs : v.Step a e v') :
    v'.IdleApart := by
  have huser : ∀ {t : TaskId}, v.pc t = .user → t ≠ .idle := by
    rintro t hu rfl
    rw [hpc] at hu
    cases hu
  have hthrds : (v'.thrds .idle).workingPrio = 1 ∧ (v'.thrds .idle).fixedPrio = 1 := by
    rcases Classical.em (∃ sp, a = .tick sp) with ⟨sp, rfl⟩ | ha
    · cases hs with
      | tick sp hr ht =>
          refine ⟨ht.slice _ h.workingPrio h.fixedPrio, ?_⟩
          obtain ⟨w, hw⟩ := ht.thrds .idle
          rw [hw]
          exact h.fixedPrio
    · rw [h.thrds_eq hpc hs fun sp he => ha ⟨sp, he⟩]
      exact ⟨h.workingPrio, h.fixedPrio⟩
  constructor
  case workingPrio => exact hthrds.1
  case fixedPrio => exact hthrds.2
  case holder =>
      intro m hm
      cases hs.holderStep m with
      | same hh => exact h.holder m (hh ▸ hm)
      | lock hr hu hn hh | timedlock n hr hu hn hh | steal hr hu hn hh =>
          rw [hh] at hm
          exact huser hu (Option.some.inj hm)
      | release hr hu ht hw hh =>
          rw [hh] at hm
          cases hm
      | handOver hr hu ht hw hw' hh =>
          rw [hh] at hm
          cases hm
          exact h.waiters (.mtx m) (hw ▸ List.mem_cons_self)
  case waiters =>
      intro o hm
      rcases hs.waiters o with he | ⟨t, hr, hu, -, -, he⟩ | ⟨r, he⟩
      · exact h.waiters o (he ▸ hm)
      · rw [he, queued, Function.update_self] at hm
        split at hm
        · rcases List.mem_append.1 hm with hm | hm
          · exact h.waiters o hm
          · exact huser hu (Option.some.inj (List.mem_singleton.1 hm)).symm
        · exact h.waiters o hm
      · exact h.waiters o (he ▸ List.mem_cons_of_mem r hm)

/-! ## The running thread -/

/-- How a thread leaves the run queue. -/
theorem Step.leaves (hs : v.Step a e v') (hl : v.linked t = true) : v'.linked t = true ∨
      v'.ifg = true ∧ ((v'.thrds t).state = .BLOCKING ∨ (v'.thrds t).state = .SLEEPING) ∨
      a = .resume ∧ (v.pc t = .kill ∨ ∃ n, v.pc t = .sleepPause n) := by
  rcases hs.keeps_linked hl with hl' | ⟨-, hi, ⟨o, -, hb⟩ | ⟨o, n, -, -, -, -, hsl⟩ | ⟨ha, n, hu⟩ |
    ⟨ha, hu, -⟩⟩
  · exact .inl hl'
  · exact .inr (.inl ⟨hi, .inl hb⟩)
  · exact .inr (.inl ⟨hi, .inr hsl⟩)
  · exact .inr (.inr ⟨ha, .inr ⟨n, hu⟩⟩)
  · exact .inr (.inr ⟨ha, .inl hu⟩)

/-- `os_task_kill` unlinks the thread. -/
theorem Step.kill_unlinks (hs : v.Step a e v') (ha : a = .resume) (hr : v.run = some t)
    (hp : v.pc t = .kill) (hf : v'.fault = false) : v'.linked t = false := by
  cases hs with
  | @kill u v₁ hr' hi hu hl =>
      cases hr.symm.trans hr'
      obtain ⟨l, f, rfl, -, hlt⟩ := hl.eq
      exact (hlt hf).2
  | @ret u c r hr' hi hu | @pause u v₁ n hr' hi hu hl | @rollback u v₁ n timeout hr' hi hu hst hv =>
      cases hr.symm.trans hr'
      rw [hp] at hu
      cases hu
  | @timedLeave u o n b hr' hi hu hst hm =>
      cases hr.symm.trans hr'
      rw [hp] at hu
      cases o <;> cases hu
  | _ => cases ha

/-- The first waiter of the object is a thread that is there. -/
def HeadLive (v : View) (o : Obj) : Prop :=
  ∀ u, (v.waiters o).head? = some (some u) → v.pc u ≠ .none

instance (v : View) (o : Obj) : Decidable (v.HeadLive o) := inferInstanceAs (Decidable (∀ _, _))

/-- Signals find no handles of threads that are gone. -/
def SignalsLive (v : View) (a : Action) : Prop :=
  match a with
  | .call (.semPost n) => v.HeadLive (.sem n)
  | .call (.mtxUnlock m) => v.HeadLive (.mtx m)
  | .resume => ∀ t, v.run = some t → ∀ o ∈ timesOn (v.pc t), v.HeadLive o
  | _ => True

instance (v : View) : ∀ a, Decidable (v.SignalsLive a)
  | .call (.semPost n) => inferInstanceAs (Decidable (v.HeadLive (.sem n)))
  | .call (.mtxUnlock m) => inferInstanceAs (Decidable (v.HeadLive (.mtx m)))
  | .resume => inferInstanceAs (Decidable (∀ _, _ → _))
  | .create _ _ | .launch | .tick _ | .call (.thrdCreate _ _) | .call .thrdYield
  | .call (.thrdSleep _) | .call (.thrdExit _) | .call (.thrdJoin _) | .call (.semWait _)
  | .call (.semTimedwait _ _) | .call (.semTrywait _) | .call (.mtxLock _)
  | .call (.mtxTimedlock _ _) | .call (.mtxTrylock _) => inferInstanceAs (Decidable True)

/-- Where only handles of live threads are found, only live threads are linked. -/
theorem Step.live (hs : v.Step a e v') (hw : v.SignalsLive a)
    (ht : ∀ sp, a = .tick sp → ∀ t, some t ∈ v.taken v' → v.pc t ≠ .none)
    (h : ∀ t, v.linked t = true → v.pc t ≠ .none) (hf : v'.fault = false)
    (hl : v'.linked t = true) : v'.pc t ≠ .none := by
  intro hn
  rcases hs.pc_none hn with hp | ⟨hp, hr, ha⟩
  · have hlt : v.linked t = false := by
      rw [Bool.eq_false_iff]
      exact fun hlt => h t hlt hp
    rcases hs.linked hlt hl with ⟨-, hu⟩ | ⟨o, l, hq, -, rfl | ⟨x, n, timeout, rfl, rfl, hr, hx, -⟩⟩ |
      ⟨sp, rfl, hm⟩
    · rw [hn] at hu
      cases hu
    · have hhead : v.HeadLive o := by
        cases o <;> exact hw
      exact hhead t (by rw [hq]; rfl) hp
    · exact hw x hr (.sem n) (by rw [hx]; rfl) t (by rw [hq]; rfl) hp
    · exact ht sp rfl t hm hp
  · rw [hs.kill_unlinks ha hr hp hf] at hl
    cases hl

end View

/-! ## Ticks that wake nobody -/

namespace Kernel

variable {k : Kernel} {t u : TaskId}

/-- The next `os_update` takes no entry out of `sleep_queue` and `t_waitqueue`. -/
def Resting (k : Kernel) : Prop :=
  (k.sleepQueue.count = 0 ∨ 0 < (k.sleepQueue.countDown.storage 1).priority) ∧
    (k.tWaitqueue.count = 0 ∨ 0 < (k.tWaitqueue.countDown.storage 1).priority ∧
      k.isActive (k.tWaitqueue.countDown.storage 1).data.data = false)

instance (k : Kernel) : Decidable k.Resting :=
  inferInstanceAs (Decidable ((_ ∨ _) ∧ (_ ∨ _ ∧ _)))

theorem wakeSleepers_of_resting (h : k.sleepQueue.count = 0 ∨
    0 < (k.sleepQueue.countDown.storage 1).priority) (thresh fuel : Nat) :
    ∃ q, wakeSleepers thresh fuel k = { k with sleepQueue := q } := by
  cases fuel with
  | zero => exact ⟨k.sleepQueue, rfl⟩
  | succ fuel =>
      unfold wakeSleepers
      split
      · rename_i hc
        have hp := h.resolve_left (Nat.ne_of_gt (Nat.zero_lt_of_lt hc))
        dsimp only
        rw [if_neg (not_le.2 hp)]
        exact ⟨_, rfl⟩
      · exact ⟨k.sleepQueue, rfl⟩

theorem expireDeadlines_of_resting (h : k.tWaitqueue.count = 0 ∨
    0 < (k.tWaitqueue.countDown.storage 1).priority ∧
      k.isActive (k.tWaitqueue.countDown.storage 1).data.data = false) (thresh fuel : Nat) :
    ∃ q, expireDeadlines thresh fuel k = { k with tWaitqueue := q } := by
  cases fuel with
  | zero => exact ⟨k.tWaitqueue, rfl⟩
  | succ fuel =>
      unfold expireDeadlines
      split
      · rename_i hc
        obtain ⟨hp, hn⟩ := h.resolve_left (Nat.ne_of_gt (Nat.zero_lt_of_lt hc))
        dsimp only
        rw [if_neg]
        · exact ⟨_, rfl⟩
        · rintro (hle | ha)
          · exact not_le.2 hp hle
          · exact Bool.false_ne_true (hn.symm.trans ha)
      · exact ⟨k.tWaitqueue, rfl⟩

theorem osUpdate_of_resting (h : k.Resting) : k.osUpdate.runQueue = k.runQueue := by
  unfold osUpdate
  dsimp only
  rcases wakeSleepers_of_resting (k := { k with osTickCnt := (k.osTickCnt + 1) % wordSize }) h.1
    (k.sleepQueue.count / 2) k.sleepQueue.count with ⟨q, hq⟩
  rw [hq]
  rcases expireDeadlines_of_resting
    (k := { k with osTickCnt := (k.osTickCnt + 1) % wordSize, sleepQueue := q }) h.2
    (k.tWaitqueue.count / 2) k.tWaitqueue.count with ⟨r, hr⟩
  rw [hr]

/-- If `t` is the running thread and is not linked, the next tick replaces it: it is marked as
blocked or asleep, its slice is over, or no other thread is linked by then. -/
def Replaceable (k : Kernel) (t : TaskId) : Prop :=
  (k.thrds t).state = .BLOCKING ∨ (k.thrds t).state = .SLEEPING ∨ (k.thrds t).workingPrio = 1 ∨
    (∀ u, k.runQueue.linked u = true → u = t) ∧ k.Resting

instance (k : Kernel) (t : TaskId) : Decidable (k.Replaceable t) :=
  inferInstanceAs (Decidable (_ ∨ _ ∨ _ ∨ _ ∧ _))

theorem Replaceable.leave (h : k.Replaceable t) (hk : k.Good) : (k.leave t).Replaceable t := by
  rcases h with hb | hs | hw | ⟨hl, hr⟩
  · exact .inl hb
  · exact .inr (.inl hs)
  · exact .inr (.inr (.inl hw))
  · refine .inr (.inr (.inr ⟨?_, hr⟩))
    intro u hu
    cases hlu : k.runQueue.linked u with
    | true => exact hl u hlu
    | false =>
        have hlv : ((k.leave t).view fun _ => .none).linked u = false :=
          (hk.leaves t fun _ => .none).linked hlu
        exact absurd (hlv.symm.trans hu) Bool.false_ne_true

end Kernel

/-! ## Runs -/

namespace Sys

open Kernel

variable {s s' : Sys} {t : TaskId} {a : Action} {e : Option Event} {vals : Nat → Nat}
  {h : List (Option Event)}

/-- A thread that ends, or that pauses for a number of ticks, is replaced by the next tick. -/
def LeavesReplaceable (s : Sys) (a : Action) : Prop :=
  a = .resume → ∀ t, s.k.runPtr = some t → s.resumeDeletes t = true → s.k.Replaceable t

instance (s : Sys) (a : Action) : Decidable (s.LeavesReplaceable a) :=
  inferInstanceAs (Decidable (_ → ∀ _, _))

/-- Signals and ticks take no handles of threads that are gone out of the queues. -/
def WakesLive (s : Sys) (a : Action) : Prop :=
  s.view.SignalsLive a ∧
    match a with
    | .tick _ => ∀ t, some t ∈ s.k.taken → s.pc t ≠ .none
    | _ => True

instance (s : Sys) : ∀ a, Decidable (s.WakesLive a)
  | .tick _ => inferInstanceAs (Decidable (_ ∧ ∀ _, _ → _))
  | .create _ _ | .launch | .call _ | .resume => inferInstanceAs (Decidable (_ ∧ True))

/-- The step is regular and leaves the cursor on a linked element, a thread that ends or pauses can
be replaced, and no handle of a thread that is gone is taken out of a queue. -/
def SelectGuard (s : Sys) (a : Action) : Prop :=
  s.Regular a ∧ s.CursorGuard a ∧ s.LeavesReplaceable a ∧ s.WakesLive a

instance (s : Sys) (a : Action) : Decidable (s.SelectGuard a) :=
  inferInstanceAs (Decidable (_ ∧ _ ∧ _ ∧ _))

/-- The running thread is linked, or will be replaced. -/
structure SelectOk (s : Sys) : Prop where
  sound : s.Sound
  queue : s.k.runQueue.Ok
  idle : s.view.IdleApart
  live : s.k.fault = false → ∀ t, s.k.runQueue.linked t = true → s.pc t ≠ .none
  run : ∀ t, s.k.runPtr = some t → t = .idle ∨ s.k.runQueue.linked t = true ∨
    s.k.irq.wdtifg = true ∧ s.k.Replaceable t

/-- The running thread goes on with a section that unlinks it. -/
theorem stepResume_replaceable (hk : s.k.Good) (ho : s.k.Open) (hr : s.k.runPtr = some t)
    (ht : t ≠ .idle) (hd : s.pc t = .kill ∨ ∃ n, s.pc t = .sleepPause n)
    (hp : s.k.Replaceable t) (hs : s.stepResume t = some (e, s')) :
    s'.k.irq.wdtifg = true ∧ s'.k.Replaceable t := by
  have hl := hp.leave hk
  unfold stepResume at hs
  rcases hd with hd | ⟨n, hd⟩
  · rw [hd] at hs
    cases hs
    cases t with
    | idle => exact absurd rfl ht
    | slot i =>
        rw [setPc_k, osTaskKill_eq ho hr]
        exact ⟨rfl, hl⟩
  · rw [hd] at hs
    rw [← congrArg (·.2.k) (Option.some.inj hs), complete_k]
    show (s.k.osTaskPause (some t)).irq.wdtifg = true ∧ (s.k.osTaskPause (some t)).Replaceable t
    rw [osTaskPause_eq ho]
    exact ⟨rfl, hl⟩

/-- With the cursor in order, a tick does not fail. -/
theorem SelectOk.tick_fault {sp : Addr} (h : s.SelectOk) (hs : s.step (.tick sp) = some (e, s')) :
    s'.k.fault = false := by
  have hgood : (save s.k sp).Good := h.sound.good.congr rfl rfl rfl rfl rfl
  have hqueue : (save s.k sp).osUpdate.runQueue.Ok :=
    osUpdate_keeps (fun _ t hq => hq.add t) h.queue
  obtain ⟨_, _, hup⟩ := hgood.osUpdate
  obtain ⟨hf, hst⟩ := steps_of_step hs
  cases hst with
  | tick sp hr hgie =>
      have hr' : (save s.k sp).osUpdate.runPtr ≠ none := by
        rw [hup.run]
        show s.k.runPtr ≠ none
        rw [hr]
        exact Option.some_ne_none _
      exact (osSchedule_fault hqueue hr').trans (hup.fault.trans hf)

/-- A tick selects a linked thread, or the idle thread if no thread is linked. -/
theorem SelectOk.tick {sp : Addr} (h : s.SelectOk) (hg : s.SelectGuard (.tick sp))
    (hs : s.step (.tick sp) = some (e, s')) :
    (∃ t, s'.k.runPtr = some t ∧ s'.k.runQueue.linked t = true) ∨
      s'.k.runPtr = some .idle ∧ ∀ t, s'.k.runQueue.linked t = false := by
  have hst := (step_refines h.sound hg.1 hs).2
  have hk := (tick_of_step hs).1
  have hf' : s'.view.fault = false := h.tick_fault hs
  have hgood : (save s.k sp).Good := h.sound.good.congr rfl rfl rfl rfl rfl
  obtain ⟨_, _, hup⟩ := hgood.osUpdate
  generalize hv : s'.view = v' at hst
  cases hst with
  | @tick _ woken expired sp hr ht =>
      subst hv
      rcases ht.run with hn | hl | hi | ⟨hkept, ⟨u, hu⟩, hact⟩
      · exact absurd hn (ht.fault hf').2
      · exact .inl hl
      · exact .inr hi
      · -- the running thread stays selected
        obtain ⟨t, ht₀⟩ := Option.ne_none_iff_exists'.1 hr
        obtain ⟨hb, hsl, hw⟩ := hact t ht₀
        refine .inl ⟨t, hkept.trans ht₀, ?_⟩
        have hlinked := ht.linked t
        have hstate : s'.view.linked t = false → (s'.view.thrds t).state = (s.view.thrds t).state := by
          intro hlt
          obtain ⟨w, he⟩ := ht.thrds t
          rw [he]
          refine if_neg fun hm => ?_
          exact Bool.false_ne_true (hlt.symm.trans (hlinked.2 (.inr (.inl hm))))
        by_contra hlt
        have hlt : s'.view.linked t = false := Bool.eq_false_iff.2 hlt
        rw [hstate hlt] at hb hsl
        rcases h.run t ht₀ with rfl | hl | ⟨-, hbl | hsp | hone | ⟨hnone, hrest⟩⟩
        · exact hw h.idle.workingPrio
        · exact Bool.false_ne_true (hlt.symm.trans (hlinked.2 (.inl hl)))
        · exact hb hbl
        · exact hsl hsp
        · exact hw hone
        · -- nothing was linked, and nothing has been
          have hsame : s'.k.runQueue.linked = s.k.runQueue.linked := by
            rw [hk]
            show (save s.k sp).osUpdate.osSchedule.runQueue.linked = _
            rw [hup.good.osSchedule.linked, osUpdate_of_resting (k := save s.k sp) hrest]
            rfl
          have hu : s'.k.runQueue.linked u = true := hu
          have hut : u = t := hnone u (hsame ▸ hu)
          subst hut
          exact Bool.false_ne_true (hlt.symm.trans hu)

/-- Between ticks the running thread stays linked, or will be replaced. -/
theorem SelectOk.run_step (h : s.SelectOk) (hg : s.SelectGuard a) (hs : s.step a = some (e, s'))
    (ha : ∀ sp, a ≠ .tick sp) (hr' : s'.k.runPtr = some t) :
    t = .idle ∨ s'.k.runQueue.linked t = true ∨ s'.k.irq.wdtifg = true ∧ s'.k.Replaceable t := by
  have hst := (step_refines h.sound hg.1 hs).2
  have hrun : s'.k.runPtr = s.k.runPtr ∨ a = .launch := by
    rcases hst.run_eq with hrun | hl | ⟨sp, he⟩
    · exact .inl hrun
    · exact .inr hl
    · exact absurd he (ha sp)
  -- a thread that goes on is linked, for a tick comes first otherwise
  have hlinked : s.k.runPtr = some t → s.k.irq.pending = false → t = .idle ∨
      s.k.Open ∧ s.k.runQueue.linked t = true := by
    intro hr hp
    have ho := h.sound.enabled.open hp
    rcases h.run t hr with hi | hl | ⟨hw, -⟩
    · exact .inl hi
    · exact .inr ⟨ho, hl⟩
    · rw [ho.ifg] at hw
      cases hw
  cases (steps_of_step hs).2 with
  | tick sp hr hgie => exact absurd rfl (ha sp)
  | create r p hr =>
      rcases hrun with hrun | hl
      · rw [hrun, hr] at hr'
        cases hr'
      · cases hl
  | launch hr =>
      generalize hv : ({ s with k := osStart s.k } : Sys).view = v' at hst
      cases hst with
      | launch hn hp =>
          have hp' := congrArg View.run hv
          have hl' := congrArg View.linked hv
          have hp' : some t = _ := hr'.symm.trans hp'
          rcases hp with ⟨rfl, -⟩ | ⟨rfl, -⟩ | ⟨⟨u, rfl, hl⟩, -⟩
          · cases hp'
          · exact .inl (Option.some.inj hp')
          · cases hp'
            exact .inr (.inl ((congrFun hl' t).trans hl))
  | @call u c hr hpc hp =>
      have ht : s.k.runPtr = some t := by
        rcases hrun with hrun | hl
        · exact hrun.symm.trans hr'
        · cases hl
      rcases hlinked ht hp with hi | ⟨ho, hl⟩
      · exact .inl hi
      · rcases hst.leaves hl with hl' | ⟨hi', hb | hsl⟩ | ⟨he, -⟩
        · exact .inr (.inl hl')
        · exact .inr (.inr ⟨hi', .inl hb⟩)
        · exact .inr (.inr ⟨hi', .inr (.inl hsl)⟩)
        · cases he
  | @resume u _ _ hr hp hres =>
      have ht : s.k.runPtr = some t := by
        rcases hrun with hrun | hl
        · exact hrun.symm.trans hr'
        · cases hl
      rcases hlinked ht hp with hi | ⟨ho, hl⟩
      · exact .inl hi
      · rcases hst.leaves hl with hl' | ⟨hi', hb | hsl⟩ | ⟨-, hd⟩
        · exact .inr (.inl hl')
        · exact .inr (.inr ⟨hi', .inl hb⟩)
        · exact .inr (.inr ⟨hi', .inr (.inl hsl)⟩)
        · cases hr.symm.trans ht
          have hdel : s.resumeDeletes t = true := by
            rcases hd with hd | ⟨n, hd⟩
            · rw [resumeDeletes, show s.pc t = _ from hd]
            · rw [resumeDeletes, show s.pc t = _ from hd]
          rcases eq_or_ne t .idle with hi | hi
          · exact .inl hi
          · exact .inr (.inr (stepResume_replaceable h.sound.good ho hr hi hd
              (hg.2.2.1 rfl t hr hdel) hres))

theorem SelectOk.step (h : s.SelectOk) (hg : s.SelectGuard a) (hs : s.step a = some (e, s')) :
    s'.SelectOk := by
  obtain ⟨hsound, hst⟩ := step_refines h.sound hg.1 hs
  have hf := (steps_of_step hs).1
  constructor
  case sound => exact hsound
  case queue => exact step_ok h.queue hg.2.1 hs
  case idle => exact h.idle.step h.sound.idle hst
  case live =>
      intro hf' t hl
      refine hst.live hg.2.2.2.1 ?_ (h.live hf) hf' hl
      rintro sp rfl u hm
      rw [h.sound.taken_tick hs] at hm
      exact hg.2.2.2.2 u hm
  case run =>
      intro t hr'
      rcases Classical.em (∃ sp, a = .tick sp) with ⟨sp, rfl⟩ | ha
      · rcases h.tick hg hs with ⟨u, hu, hl⟩ | ⟨hi, -⟩
        · cases hr'.symm.trans hu
          exact .inr (.inl hl)
        · exact .inl (Option.some.inj (hr'.symm.trans hi))
      · exact h.run_step hg hs (fun sp he => ha ⟨sp, he⟩) hr'

theorem boot_selectOk (vals : Nat → Nat) : (boot vals).SelectOk where
  sound := boot_sound vals
  queue := boot_ok vals
  idle :=
    { holder := fun _ hm => nomatch hm
      waiters := by
        intro o
        cases o with
        | sem n => exact List.not_mem_nil
        | mtx m => exact List.not_mem_nil
      workingPrio := rfl
      fixedPrio := rfl }
  live := by
    intro _ t hl
    cases t <;> cases hl
  run := fun _ ht => nomatch ht

theorem run_selectOk (hr : (system vals).Run SelectGuard h s) : s.SelectOk := by
  refine hr.invariant (P := fun _ s => s.SelectOk) ?_ ?_
  · rintro s rfl
    exact boot_selectOk vals
  · intro h s a e s' hk hg hs
    exact hk.step hg hs

/-- After every `os_schedule`, `run_ptr` is the idle task if no task is active, and a linked task
otherwise; a thread that has ended is never selected, and does not stay selected. -/
theorem runnable_selected {sp : Addr} (hr : (system vals).Run SelectGuard h s)
    (hg : s.SelectGuard (.tick sp)) (hs : s.step (.tick sp) = some (e, s')) :
    (if s'.k.runQueue.taskActiveCnt = 0 then s'.k.runPtr = some .idle
      else ∃ t, s'.k.runPtr = some t ∧ s'.k.runQueue.linked t = true) ∧
    ∀ i, s'.k.runPtr = some (.slot i) → s'.pc (.slot i) ≠ .none := by
  have hk := run_selectOk hr
  have hk' := hk.step hg hs
  obtain ⟨l, hl, -⟩ := hk'.queue
  have hf := hk.tick_fault hs
  rcases hk.tick hg hs with ⟨t, hrt, hlt⟩ | ⟨hi, hnone⟩
  · refine ⟨?_, ?_⟩
    · rw [if_neg]
      · exact ⟨t, hrt, hlt⟩
      · rw [hl.count]
        exact Nat.ne_of_gt (List.length_pos_of_mem (hl.linked_iff.1 hlt))
    · intro i hri
      cases hri.symm.trans hrt
      exact hk'.live hf _ hlt
  · refine ⟨?_, ?_⟩
    · rw [if_pos]
      · exact hi
      · rw [hl.count, List.length_eq_zero_iff, List.eq_nil_iff_forall_not_mem]
        intro t ht
        rw [← hl.linked_iff, hnone] at ht
        cases ht
    · intro i hri
      rw [hi] at hri
      cases hri

/-- A thread ends whose old deadline is still in `t_waitqueue`, behind that of another thread. The tick
after that does not come to it, and selects a third thread. -/
theorem runnable_selected_three_threads :
    ∃ h s s', (system fun _ => 0).Run SelectGuard h s ∧ s.pc (.slot 15) = .none ∧
      some (.slot 15) ∈ s.k.tWaitqueue.handles ∧ s.step (.tick 0) = some (none, s') ∧
      (if s'.k.runQueue.taskActiveCnt = 0 then s'.k.runPtr = some .idle
        else ∃ t, s'.k.runPtr = some t ∧ s'.k.runQueue.linked t = true) ∧
      ∀ i, s'.k.runPtr = some (.slot i) → s'.pc (.slot i) ≠ .none := by
  rcases exists_step (fun _ => 0) (G := SelectGuard)
    [.create 1 1, .create 1 1, .create 1 1, .launch, .call (.semTimedwait 0 9), .tick 0,
      .call (.semTimedwait 1 6), .tick 0, .call (.semPost 0), .tick 0, .resume, .call (.thrdExit 0),
      .resume] (.tick 0)
    (P := fun s => s.SelectGuard (.tick 0) ∧ s.pc (.slot 15) = .none ∧
      some (.slot 15) ∈ s.k.tWaitqueue.handles) (Q := fun e _ => e = none)
    (by decide +kernel) with ⟨h, s, e, s', hr, ⟨hg, hpc, hm⟩, hs, rfl⟩
  exact ⟨h, s, s', hr, hpc, hm, hs, runnable_selected hr hg hs⟩

/-- A thread with a slice of two ticks ends. The next tick keeps it as the running thread, although
another thread is linked. -/
theorem ended_thread_selected :
    ∃ h s s', (system fun _ => 0).Run (fun _ _ => True) h s ∧ s.pc (.slot 14) = .none ∧
      s.step (.tick 0) = some (none, s') ∧ s'.k.runQueue.taskActiveCnt = 1 ∧
      s'.k.runQueue.linked (.slot 15) = true ∧ s'.k.runPtr = some (.slot 14) ∧
      s'.k.runQueue.linked (.slot 14) = false := by
  rcases exists_step (fun _ => 0) (G := fun _ _ => True)
    [.create 1 1, .create 1 2, .launch, .tick 0, .call (.thrdExit 0), .resume] (.tick 0)
    (P := fun s => s.pc (.slot 14) = .none)
    (Q := fun e s' => e = none ∧ s'.k.runQueue.taskActiveCnt = 1 ∧
      s'.k.runQueue.linked (.slot 15) = true ∧ s'.k.runPtr = some (.slot 14) ∧
      s'.k.runQueue.linked (.slot 14) = false)
    (by decide +kernel) with ⟨h, s, e, s', hr, hpc, hs, rfl, hP⟩
  exact ⟨h, s, s', hr, hpc, hs, hP⟩

end Sys

end MsTos
