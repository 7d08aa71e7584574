-- SUMMARY: Mutual exclusion: how the holder of a mutex changes, and how `mtx_trylock` takes a mutex that is held.
import MsTos.Blocking

namespace MsTos

/-! ## Owners -/

/-- The calls that acquire a mutex. -/
def acquires (m : Nat) : Call → Bool
  | .mtxLock n | .mtxTimedlock n _ | .mtxTrylock n => n = m
  | _ => false

/-- By the history, `t` has returned 0 from an acquiring call and has not unlocked since. -/
def owns (m : Nat) (t : TaskId) : List (Option Event) → Bool
  | [] => false
  | none :: h => owns m t h
  | some e :: h =>
      if e.thrd = t then
        (acquires m e.call && e.ret == 0) || (owns m t h && e.call != .mtxUnlock m)
      else owns m t h

namespace View

variable {v v' : View} {o : Obj} {t u : TaskId} {a : Action} {e : Option Event} {m : Nat}
  {h : List (Option Event)}

/-- `mtx_trylock` is called for a mutex that is free, or that the caller holds. -/
def TriesFree (v : View) (a : Action) : Prop :=
  match a with
  | .call (.mtxTrylock m) => v.holder m = none ∨ v.holder m = v.run
  | _ => True

instance (v : View) : DecidablePred v.TriesFree
  | .call (.mtxTrylock _) => inferInstanceAs (Decidable (_ ∨ _))
  | .call (.thrdCreate _ _) | .call .thrdYield | .call (.thrdSleep _) | .call (.thrdExit _)
  | .call (.thrdJoin _) | .call (.semWait _) | .call (.semTimedwait _ _) | .call (.semTrywait _)
  | .call (.semPost _) | .call (.mtxLock _) | .call (.mtxTimedlock _ _) | .call (.mtxUnlock _)
  | .create _ _ | .launch | .resume | .tick _ => inferInstanceAs (Decidable True)

/-- The threads that are in a call that acquires a mutex hold it, unless they still wait. -/
structure Holding (v : View) : Prop where
  locked : ∀ t m n, v.pc t = .mtxTimedlock m n true → v.holder m = some t
  granted : ∀ t m, blocksOn (v.pc t) = some (.mtx m) → some t ∉ v.waiters (.mtx m) →
    v.holder m = some t

/-- A mutex is not taken away from a thread that is in a call. -/
theorem HolderStep.keeps (h : HolderStep v v' m a e) (hg : v.TriesFree a)
    (hh : v.holder m = some t) (ht : v.pc t ≠ .user) : v'.holder m = some t := by
  cases h with
  | same hs => rw [hs, hh]
  | lock hr hu hn | timedlock n hr hu hn =>
      rw [hh] at hn
      cases hn
  | @steal u hr hu hn hs =>
      rcases hg with hg | hg
      · exact absurd hg hn
      · rw [hh, hr] at hg
        cases hg
        exact absurd hu ht
  | release hr hu hs | handOver hr hu hs =>
      rw [hh] at hs
      cases hs
      exact absurd hu ht

theorem Holding.step (hk : v.Holding) (hw : v.Waiting) (hs : v.Step a e v') (hg : v.TriesFree a) :
    v'.Holding where
  locked := by
    intro t m n hp
    rcases hs.pc_timed (o := .mtx m) hp with hp | ⟨-, -, -, ⟨-, -, hh⟩ | ⟨hb, -⟩⟩
    · exact (hs.holderStep m).keeps hg (hk.locked t m n hp) (by
        intro hu
        rw [show v.pc t = _ from hp] at hu
        cases hu)
    · rw [hh, setHolder_apply, if_pos rfl]
    · cases hb
  granted := by
    intro t m hp hm
    rcases hs.pc_blocks hp with hpc | ⟨-, hu, hq⟩
    · rw [hpc] at hp
      rcases Classical.em (some t ∈ v.waiters (.mtx m)) with hm' | hm'
      · -- it has just been dequeued
        obtain ⟨l, -, -, hh, -⟩ := hs.dequeued hm' hm
        rw [hh, setHolder_apply, if_pos rfl]
      · refine (hs.holderStep m).keeps hg (hk.granted t m hp hm') ?_
        intro hu
        rw [hu] at hp
        cases hp
    · -- it has just joined
      refine absurd ?_ hm
      rw [hq]
      exact (hw.mem_enqueue hu).2 (.inr ⟨rfl, rfl⟩)

/-- A call that acquires a mutex returns 0 to its holder. -/
theorem Step.acquired (hs : v.Step a e v') (hw : v.Waiting) (hk : v.Holding) (hf : v.fault = false)
    {c : Call} (he : e = some ⟨t, c, 0⟩) (hc : acquires m c = true) : v'.holder m = some t := by
  have hobj : ∀ o : Obj, acquires m o.waitCall = true → o = .mtx m := by
    intro o ho
    cases o <;> simp_all [acquires, Obj.waitCall]
  have htimed : ∀ (o : Obj) n, acquires m (o.timedCall n) = true → o = .mtx m := by
    intro o n ho
    cases o <;> simp_all [acquires, Obj.timedCall]
  cases hs with
  | create | createFails | launch | yields | block | timedTake | timedZero | timedBlock | sleep
  | exit | pause | kill | tick => cases he
  | thrdCreate | tryTake =>
      cases he
      cases hc
  | fails c' hr hu hz =>
      cases he
      exact absurd rfl hz
  | take o hr hu hb =>
      cases he
      cases hobj o hc
      exact Function.update_self _ _ _
  | trySteal m' hr hu hb =>
      cases he
      simp only [acquires, decide_eq_true_eq] at hc
      subst hc
      exact Function.update_self _ _ _
  | signal o hr hu hh hs =>
      cases he
      cases o <;> cases hc
  | ret c' r hr hi hu =>
      cases he
      -- a call that may have blocked: it has been granted the mutex since
      have hb : blocksOn (v.pc t) = some (.mtx m) := by
        rcases hw.ret t c 0 hu with rfl | ⟨n, rfl⟩ | ⟨o, rfl⟩
        · cases hc
        · cases hc
        · rw [hu, blocksOn_waitCall, hobj o hc]
      exact hk.granted t m hb (hw.not_mem_of_ret hf hr hi hu _)
  | timedLeave o n b hr hi hu hs hm =>
      cases he
      cases htimed o n hc
      cases b with
      | true => exact hk.locked t m n hu
      | false => exact hm m rfl rfl
  | rollback => cases he

/-- Only its own `mtx_unlock` takes a mutex away from a thread. -/
theorem HolderStep.unlocks (h : HolderStep v v' m a e) (hg : v.TriesFree a)
    (hh : v.holder m = some t) : v'.holder m = some t ∨ e = some ⟨t, .mtxUnlock m, 0⟩ := by
  cases h with
  | same hs => exact .inl (hs.trans hh)
  | lock hr hu hn | timedlock n hr hu hn =>
      rw [hh] at hn
      cases hn
  | steal hr hu hn hs =>
      rcases hg with hg | hg
      · exact absurd hg hn
      · exact .inl (by rw [hs, ← hr, ← hg, hh])
  | release hr hu hs | handOver hr hu hs =>
      rw [hh] at hs
      cases hs
      exact .inr rfl

/-- By the history, every owner of a mutex is its holder. -/
def OwnersHold (h : List (Option Event)) (v : View) : Prop :=
  ∀ m t, owns m t h = true → v.holder m = some t

theorem OwnersHold.step (ho : v.OwnersHold h) (hs : v.Step a e v') (hw : v.Waiting)
    (hk : v.Holding) (hf : v.fault = false) (hg : v.TriesFree a) : v'.OwnersHold (e :: h) := by
  intro m t hown
  cases e with
  | none =>
      rcases (hs.holderStep m).unlocks hg (ho m t hown) with hh | he
      · exact hh
      · cases he
  | some ev =>
      rw [owns] at hown
      split at hown
      · rename_i ht
        subst ht
        simp only [Bool.or_eq_true, Bool.and_eq_true, beq_iff_eq, bne_iff_ne] at hown
        rcases hown with ⟨hc, hr⟩ | ⟨hown, hne⟩
        · refine hs.acquired hw hk hf ?_ hc
          rw [← hr]
        · rcases (hs.holderStep m).unlocks hg (ho m _ hown) with hh | he
          · exact hh
          · exact absurd (congrArg Event.call (Option.some.inj he)) hne
      · rename_i ht
        rcases (hs.holderStep m).unlocks hg (ho m t hown) with hh | he
        · exact hh
        · exact absurd (congrArg Event.thrd (Option.some.inj he)) ht

end View

/-! ## Runs -/

namespace Sys

variable {s : Sys} {vals : Nat → Nat} {h : List (Option Event)}

/-- The wait queues are used as they should be, and nobody tries to lock a mutex that another
thread holds. -/
def MutexGuard (s : Sys) (a : Action) : Prop := s.Clean a ∧ s.view.TriesFree a

instance (s : Sys) (a : Action) : Decidable (s.MutexGuard a) :=
  inferInstanceAs (Decidable (_ ∧ _))

theorem run_holding (hv : ValidVals vals) (hr : (system vals).Run MutexGuard h s) :
    s.Sound ∧ s.view.Waiting ∧ s.view.Holding ∧ s.view.OwnersHold h := by
  refine run_view (P := fun h v => v.Waiting ∧ v.Holding ∧ v.OwnersHold h) hr
    (fun _ _ hg => hg.1.1) ⟨boot_waiting hv, ⟨?_, ?_⟩, ?_⟩ ?_
  · intro t m n hp
    cases hp
  · intro t m hp
    cases hp
  · intro m t hown
    cases hown
  · intro h s s' a e hsound hf ⟨hw, hk, ho⟩ hg hst hs
    exact ⟨hg.1.waiting hsound hst hw, hk.step hw hs hg.2, ho.step hs hw hk hf hg.2⟩

/-- How a step may change the holder of `m`: from `NULL` to the thread whose acquiring call returns
0, or, in `mtx_unlock` by the holder, to the dequeued waiter or to `NULL`. -/
def HolderOk (s : Sys) (a : Action) (e : Option Event) (s' : Sys) (m : Nat) : Prop :=
  (s'.k.mtxs m).holder = (s.k.mtxs m).holder ∨
  (∃ t c, (s.k.mtxs m).holder = none ∧ s.k.runPtr = some t ∧ a = .call c ∧ acquires m c = true ∧
    (s'.k.mtxs m).holder = some t ∧ (e = some ⟨t, c, 0⟩ ∨ ∃ n, s'.pc t = .mtxTimedlock m n true)) ∨
  ∃ t, (s.k.mtxs m).holder = some t ∧ s.k.runPtr = some t ∧ a = .call (.mtxUnlock m) ∧
    ((s.k.mtxs m).wq.toList = [] ∧ (s'.k.mtxs m).holder = none ∨
      ∃ u, (s.k.mtxs m).wq.toList = some u :: (s'.k.mtxs m).wq.toList ∧
        (s'.k.mtxs m).holder = some u)

theorem holderOk_of_step {s' : Sys} {a : Action} {e : Option Event} {m : Nat}
    (hs : View.HolderStep s.view s'.view m a e) (hg : s.view.TriesFree a) :
    s.HolderOk a e s' m := by
  have hacq : ∀ c, c = .mtxLock m ∨ (∃ n, c = .mtxTimedlock m n) → acquires m c = true := by
    rintro c (rfl | ⟨n, rfl⟩) <;> simp [acquires]
  cases hs with
  | same hh => exact .inl hh
  | @lock t hr hu hn hh =>
      exact .inr (.inl ⟨t, .mtxLock m, hn, hr, rfl, hacq _ (.inl rfl), hh, .inl rfl⟩)
  | @timedlock t n hr hu hn hh hpc =>
      exact .inr (.inl ⟨t, .mtxTimedlock m n, hn, hr, rfl, hacq _ (.inr ⟨n, rfl⟩), hh,
        .inr ⟨n, hpc⟩⟩)
  | steal hr hu hn hh =>
      rcases hg with hg | hg
      · exact absurd hg hn
      · exact .inl (hh.trans (hg.trans hr).symm)
  | @release t hr hu ht hw hh => exact .inr (.inr ⟨t, ht, hr, rfl, .inl ⟨hw, hh⟩⟩)
  | @handOver t u l hr hu ht hw hw' hh =>
      refine .inr (.inr ⟨t, ht, hr, rfl, .inr ⟨u, ?_, hh⟩⟩)
      subst hw'
      exact hw

/-- At no time do two threads own a mutex, and its holder changes only as it should. -/
theorem mutual_exclusion (hv : ValidVals vals) (hr : (system vals).Run MutexGuard h s) :
    (∀ m t u, owns m t h = true → owns m u h = true → t = u) ∧
    ∀ a e s', s.MutexGuard a → s.step a = some (e, s') → ∀ m, s.HolderOk a e s' m ∧
      (∀ c t u, a = .call c → acquires m c = true → s.k.runPtr = some t →
        (s.k.mtxs m).holder = some u → u ≠ t → (s'.k.mtxs m).holder = some u) ∧
      ∀ t n, a = .resume → s.k.runPtr = some t → s.pc t = .mtxTimedlock m n true →
        e = some ⟨t, .mtxTimedlock m n, 0⟩ := by
  obtain ⟨hsound, -, -, ho⟩ := run_holding hv hr
  refine ⟨?_, ?_⟩
  · intro m t u ht hu
    exact Option.some.inj ((ho m t ht).symm.trans (ho m u hu))
  · intro a e s' hg hs m
    have hst := (step_refines hsound hg.1.1 hs).2
    have hok : s.HolderOk a e s' m := holderOk_of_step (hst.holderStep m) hg.2
    refine ⟨hok, ?_, ?_⟩
    · rintro c t u rfl hc - hh -
      rcases hok with hsame | ⟨_, _, hn, -⟩ | ⟨_, -, -, ha, -⟩
      · exact hsame.trans hh
      · rw [hh] at hn
        cases hn
      · cases ha
        cases hc
    · rintro t n rfl ht hpc
      generalize s'.view = v' at hst
      cases hst with
      | ret c r hr hi hu | pause _ hr hi hu hl | rollback _ _ hr hi hu hs hv | kill hr hi hu hl =>
          cases hr.symm.trans ht
          cases hu.symm.trans hpc
      | timedLeave o n' b hr hi hu _ _ =>
          cases hr.symm.trans ht
          cases o <;> cases hu.symm.trans hpc
          rfl

/-- A mutex that is handed over to a waiter is owned by the waiter alone. -/
theorem mutual_exclusion_two_threads :
    ∃ h s, (system fun _ => 0).Run MutexGuard h s ∧ owns 0 (.slot 14) h = true ∧
      ∀ u, owns 0 u h = true → u = .slot 14 := by
  rcases exists_run (fun _ => 0) (G := MutexGuard)
    [.create 1 1, .create 1 1, .launch, .call (.mtxLock 0), .tick 0, .call (.mtxLock 0), .tick 0,
      .call (.mtxUnlock 0), .tick 0, .resume]
    (P := fun h _ => owns 0 (.slot 14) h = true) (by decide +kernel) with ⟨h, s, hr, ho⟩
  exact ⟨h, s, hr, ho, fun u hu =>
    (mutual_exclusion (fun _ => Nat.zero_le _) hr).1 0 u (.slot 14) hu ho⟩

/-- `B` calls `mtx_trylock` for the mutex that `A` has locked. -/
theorem trylock_steals :
    ∃ h s, (system fun _ => 0).Run (fun _ _ => True) h s ∧ owns 0 (.slot 15) h = true ∧
      owns 0 (.slot 14) h = true ∧ (s.k.mtxs 0).holder = some (.slot 14) :=
  exists_run (fun _ => 0)
    [.create 1 1, .create 1 1, .launch, .call (.mtxLock 0), .tick 0, .call (.mtxTrylock 0)]
    (by decide +kernel)

end Sys

end MsTos
