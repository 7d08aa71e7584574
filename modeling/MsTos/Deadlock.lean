-- SUMMARY: Deadlocks of mutexes: an order of locking excludes them, and no run gets out of one.
import MsTos.Lib.WaitGraph
import MsTos.Priorities

namespace MsTos

namespace View

variable {v v' : View} {t u : TaskId} {m m' : Nat} {a : Action} {e : Option Event} {ι : Type*}

/-! ## Waiting for mutexes -/

/-- The mutex in whose wait queue a thread is. -/
def awaits (v : View) (t : TaskId) : Option Nat :=
  (waitsOn (v.pc t)).bind fun o =>
    match o with
    | .sem _ => none
    | .mtx m => if (v.waiters (.mtx m)).contains (some t) then some m else none

/-- Which mutex every thread waits for, and who holds a mutex. -/
def waitGraph (v : View) : WaitGraph TaskId Nat := ⟨v.awaits, v.holder⟩

theorem Waiting.awaits_iff (h : v.Waiting) : v.awaits t = some m ↔ some t ∈ v.waiters (.mtx m) := by
  unfold awaits
  constructor
  · intro ha
    obtain ⟨o, -, ho⟩ := Option.bind_eq_some_iff.1 ha
    cases o with
    | sem n => cases ho
    | mtx n =>
        dsimp only at ho
        split at ho
        · rename_i hm
          obtain rfl := Option.some.inj ho
          exact List.contains_iff_mem.1 hm
        · cases ho
  · intro hm
    rw [h.waiter_some hm]
    exact if_pos (List.contains_iff_mem.2 hm)

/-- The mutex that a call asks for, and may block on. -/
def asksFor : Action → Option Nat
  | .call (.mtxLock m) | .call (.mtxTimedlock m _) => some m
  | _ => none

/-- The running thread asks only for mutexes above those that it holds. -/
def Ascends [LT ι] (rank : Nat → ι) (v : View) (a : Action) : Prop :=
  ∀ t m, v.run = some t → asksFor a = some m → ∀ m', v.holder m' = some t → rank m' < rank m

/-- Everybody who waits does so for a mutex above those that they hold. -/
def LockOrder [LT ι] (rank : Nat → ι) (v : View) : Prop :=
  ∀ t m m', some t ∈ v.waiters (.mtx m) → v.holder m' = some t → rank m' < rank m

theorem LockOrder.ascending [Preorder ι] {rank : Nat → ι} (h : v.LockOrder rank)
    (hw : v.Waiting) : v.waitGraph.Ascending rank := by
  intro t m m' ha ho
  exact h t m m' (hw.awaits_iff.1 ha) ho

/-- A thread in a wait queue waits for a holder. -/
theorem NoneWaits.waitsFor (h : v.NoneWaits) (hw : v.Waiting) (ha : v.awaits t = some m) :
    ∃ u, v.waitGraph.WaitsFor t u := by
  have hm := hw.awaits_iff.1 ha
  cases hh : v.holder m with
  | none =>
      rw [h m hh] at hm
      cases hm
  | some u => exact ⟨u, m, ha, hh⟩

/-- A mutex gets a new holder who waits for none of them: the running thread, or the waiter that is
dequeued. -/
theorem HolderStep.new_holder (h : HolderStep v v' m a e) (hw : v.Waiting)
    (ht : v'.holder m = some t) :
    v.holder m = some t ∨ v.pc t = .user ∨
      some t ∈ v.waiters (.mtx m) ∧ some t ∉ v'.waiters (.mtx m) := by
  cases h with
  | same hs => exact .inl (hs.symm.trans ht)
  | lock hr hu hn hh | timedlock n hr hu hn hh | steal hr hu hn hh =>
      cases hh.symm.trans ht
      exact .inr (.inl hu)
  | release hr hu hs hq hh => cases hh.symm.trans ht
  | @handOver u w l hr hu hs hq hq' hh =>
      cases hh.symm.trans ht
      refine .inr (.inr ⟨by rw [hq]; exact List.mem_cons_self, ?_⟩)
      rw [hq']
      have hn := hw.nodup (.mtx m)
      rw [hq] at hn
      exact (List.nodup_cons.1 hn).1

/-- Who is in the wait queue of a mutex after a step: a thread that was there before, or the running
thread, which asks for the mutex. -/
theorem Step.new_waiter (hs : v.Step a e v') (hm : some t ∈ v'.waiters (.mtx m)) :
    some t ∈ v.waiters (.mtx m) ∨
      v.run = some t ∧ asksFor a = some m ∧ v.holder m ≠ none := by
  rcases hs.waiters (.mtx m) with hq | ⟨u, hr, -, hb, hc, hq⟩ | ⟨r, hq⟩
  · rw [hq] at hm
    exact .inl hm
  · rw [hq, queued, Function.update_self] at hm
    split at hm
    · rcases List.mem_append.1 hm with hm | hm
      · exact .inl hm
      · cases List.mem_singleton.1 hm
        refine .inr ⟨hr, ?_, hb⟩
        rcases hc with rfl | ⟨n, rfl⟩ <;> rfl
    · exact .inl hm
  · exact .inl (by rw [hq]; exact List.mem_cons_of_mem _ hm)

theorem LockOrder.step [LT ι] {rank : Nat → ι} (h : v.LockOrder rank) (hw : v.Waiting)
    (hs : v.Step a e v') (hg : v.Ascends rank a) : v'.LockOrder rank := by
  intro t m m' hm ho
  rcases hs.new_waiter hm with hm' | ⟨hr, ha, hb⟩
  · have hpc := hw.waiter_some hm'
    rcases (hs.holderStep m').new_holder hw ho with ho' | hu | ⟨hin, hout⟩
    · exact h t m m' hm' ho'
    · rw [hu] at hpc
      cases hpc
    · -- it waited for the mutex that it has got
      have hpc' := hw.waiter_some hin
      rw [hpc] at hpc'
      cases hpc'
      exact absurd hm hout
  · refine hg t m hr ha m' ?_
    cases hs.holderStep m' with
    | same hh => rwa [← hh]
    | lock hr' hu hn | timedlock n hr' hu hn =>
        cases ha
        exact absurd hn hb
    | steal | release | handOver => cases ha

/-! ## Deadlocks -/

/-- `u` can take a step: it runs in its own code, or no tick is requested. -/
def Acts (v : View) (u : TaskId) : Prop := v.run = some u ∧ (v.pc u = .user ∨ v.ifg = false)

/-- Who moves, and who returns from a call. -/
theorem Step.acts (hs : v.Step a e v') :
    (∀ u, v'.pc u = v.pc u ∨ v.pc u = .none ∨ v.Acts u) ∧ ∀ ev, e = some ev → v.Acts ev.thrd := by
  have hmove : ∀ {t : TaskId} {p : Pc}, v.pc t = .none ∨ v.Acts t → ∀ u,
      Function.update v.pc t p u = v.pc u ∨ v.pc u = .none ∨ v.Acts u := by
    intro t p ht u
    rcases eq_or_ne u t with rfl | hne
    · exact .inr ht
    · exact .inl (Function.update_of_ne hne _ _)
  have hevent : ∀ {t : TaskId} {c : Call} {r : Int}, v.Acts t →
      ∀ ev, some (⟨t, c, r⟩ : Event) = some ev → v.Acts ev.thrd := by
    rintro t c r ht ev he
    cases he
    exact ht
  cases hs with
  | create r p i hr hi => exact ⟨hmove (.inl hi), nofun⟩
  | createFails | launch => exact ⟨fun _ => .inl rfl, nofun⟩
  | thrdCreate r p i hr hu hi => exact ⟨hmove (.inl hi), hevent ⟨hr, .inl hu⟩⟩
  | fails c hr hu hz => exact ⟨fun _ => .inl rfl, hevent ⟨hr, .inl hu⟩⟩
  | take o hr hu hb => exact ⟨fun _ => .inl rfl, hevent ⟨hr, .inl hu⟩⟩
  | tryTake n hr hu hb => exact ⟨fun _ => .inl rfl, hevent ⟨hr, .inl hu⟩⟩
  | trySteal m hr hu hb => exact ⟨fun _ => .inl rfl, hevent ⟨hr, .inl hu⟩⟩
  | yields c hr hu hc => exact ⟨hmove (.inr ⟨hr, .inl hu⟩), nofun⟩
  | timedTake o n hr hu hb => exact ⟨hmove (.inr ⟨hr, .inl hu⟩), nofun⟩
  | timedZero o n hn hr hu hb => exact ⟨hmove (.inr ⟨hr, .inl hu⟩), nofun⟩
  | sleep n hn hr hu => exact ⟨hmove (.inr ⟨hr, .inl hu⟩), nofun⟩
  | exit r hr hu => exact ⟨hmove (.inr ⟨hr, .inl hu⟩), nofun⟩
  | block o hr hu hb hl | timedBlock o n hn hr hu hb hl =>
      obtain ⟨l, f, rfl, -⟩ := hl.eq
      exact ⟨hmove (.inr ⟨hr, .inl hu⟩), nofun⟩
  | signal o hr hu hh hs =>
      refine ⟨fun u => .inl (congrFun hs.pc_eq u), hevent ⟨hr, .inl hu⟩⟩
  | ret c r hr hi hu => exact ⟨hmove (.inr ⟨hr, .inr hi⟩), hevent ⟨hr, .inr hi⟩⟩
  | timedLeave o n b hr hi hu hst hm =>
      exact ⟨hmove (.inr ⟨hr, .inr hi⟩), hevent ⟨hr, .inr hi⟩⟩
  | pause n hr hi hu hl | kill hr hi hu hl =>
      obtain ⟨l, f, rfl, -⟩ := hl.eq
      exact ⟨hmove (.inr ⟨hr, .inr hi⟩), nofun⟩
  | rollback n timeout hr hi hu hst hv =>
      refine ⟨?_, hevent ⟨hr, .inr hi⟩⟩
      rw [setPc, hv.pc_eq]
      exact hmove (.inr ⟨hr, .inr hi⟩)
  | tick sp hr ht => exact ⟨fun u => .inl (congrFun ht.pc u), nofun⟩

/-- `mtx_unlock` by the holder is the only call of it that changes anything. -/
theorem Step.unlocker (hs : v.Step (.call (.mtxUnlock m)) e v') :
    v' = v ∨ ∃ t, v.holder m = some t ∧ v.Acts t := by
  generalize hc : Action.call (.mtxUnlock m) = a at hs
  cases hs with
  | fails => exact .inl rfl
  | yields c hr hu hy =>
      cases hc
      rcases hy with hy | ⟨n, hy⟩ <;> cases hy
  | take o | block o | timedTake o | timedZero o | timedBlock o => cases o <;> cases hc
  | signal o hr hu hh =>
      cases o with
      | sem n => cases hc
      | mtx m' =>
          cases hc
          exact .inr ⟨_, hh m rfl, hr, .inl hu⟩
  | _ => cases hc

/-- Everybody in the set is blocked in `mtx_lock`, on a mutex that one of the set holds. -/
structure LockedUp (v : View) (D : Set TaskId) : Prop where
  blocked : ∀ t ∈ D, ∃ m, v.pc t = .ret (.mtxLock m) 0
  deadlocked : v.waitGraph.Deadlocked D

variable {D : Set TaskId}

/-- A thread in a wait queue takes no step. -/
theorem Waiting.not_acts (hw : v.Waiting) (hf : v.fault = false)
    (hb : ∃ m, v.pc t = .ret (.mtxLock m) 0) (hm : v.awaits t = some m) : ¬ v.Acts t := by
  rintro ⟨hr, hu | hi⟩
  · obtain ⟨n, hn⟩ := hb
    cases hu.symm.trans hn
  · obtain ⟨n, hn⟩ := hb
    refine hw.running_not_blocking hf hr hi ((hw.blocking t).2 ⟨.mtx m, ?_, hw.awaits_iff.1 hm⟩)
    have hwait := hw.waiter_some (hw.awaits_iff.1 hm)
    rw [hn] at hwait ⊢
    exact hwait

theorem LockedUp.not_acts (h : v.LockedUp D) (hw : v.Waiting) (hf : v.fault = false)
    (ht : t ∈ D) : ¬ v.Acts t := by
  obtain ⟨u, -, m, hm, -⟩ := h.deadlocked.waits t ht
  exact hw.not_acts hf (h.blocked t ht) hm

/-- No step gets a thread out of a deadlock. -/
theorem LockedUp.step (h : v.LockedUp D) (hw : v.Waiting) (hf : v.fault = false)
    (hs : v.Step a e v') (hw' : v'.Waiting) (hg : v.TriesFree a) :
    v'.LockedUp D ∧ (∀ t ∈ D, v'.pc t = v.pc t) ∧ ∀ ev, e = some ev → ev.thrd ∉ D := by
  obtain ⟨hmoves, hevents⟩ := hs.acts
  have hpc : ∀ t ∈ D, v'.pc t = v.pc t := by
    intro t ht
    rcases hmoves t with hp | hn | ha
    · exact hp
    · obtain ⟨m, hm⟩ := h.blocked t ht
      cases hn.symm.trans hm
    · exact absurd ha (h.not_acts hw hf ht)
  refine ⟨⟨?_, h.deadlocked.nonempty, ?_⟩, hpc, ?_⟩
  · intro t ht
    rw [hpc t ht]
    exact h.blocked t ht
  · intro t ht
    obtain ⟨u, hu, m, ha, ho⟩ := h.deadlocked.waits t ht
    have hm := hw.awaits_iff.1 ha
    -- the holder cannot give the mutex up
    have hne : v.pc u ≠ .user := by
      obtain ⟨n, hn⟩ := h.blocked u hu
      rw [hn]
      simp
    have ho' : v'.holder m = some u := (hs.holderStep m).keeps hg ho hne
    refine ⟨u, hu, m, hw'.awaits_iff.2 ?_, ho'⟩
    by_contra hm'
    obtain ⟨l, -, -, -, hc | ⟨n, hn⟩⟩ := hs.dequeued hm hm'
    · subst hc
      rcases Step.unlocker hs with rfl | ⟨w, hw', hacts⟩
      · exact hm' hm
      · cases ho.symm.trans hw'
        exact h.not_acts hw hf hu hacts
    · cases hn
  · intro ev he hd
    exact h.not_acts hw hf hd (hevents ev he)

/-- A mutex that nobody asks for stays free. -/
theorem Step.stays_free (hs : v.Step a e v') (hn : v.holder m = none) (ha : asksFor a ≠ some m) :
    v'.holder m = none := by
  cases hs.holderStep m with
  | same hh => exact hh.trans hn
  | lock | timedlock => exact absurd rfl ha
  | steal hr hu hb hh => exact absurd hn hb
  | release hr hu ht | handOver hr hu ht => cases hn.symm.trans ht

end View

/-! ## Runs -/

namespace Sys

variable {s s' : Sys} {vals : Nat → Nat} {h h' : List (Option Event)} {a : Action}
  {e : Option Event} {t : TaskId} {D : Set TaskId} {ι : Type*}

/-- The mutexes are used as they should be, and every thread asks for them in ascending order. -/
def OrderGuard [LT ι] (rank : Nat → ι) (s : Sys) (a : Action) : Prop :=
  s.MutexGuard a ∧ s.view.Ascends rank a

theorem run_lockOrder [LT ι] {rank : Nat → ι} (hv : ValidVals vals)
    (hr : (system vals).Run (OrderGuard rank) h s) :
    s.Sound ∧ s.view.Waiting ∧ s.view.NoneWaits ∧ s.view.LockOrder rank := by
  refine run_view (P := fun _ v => v.Waiting ∧ v.NoneWaits ∧ v.LockOrder rank) hr
    (fun _ _ hg => hg.1.1.1) ⟨boot_waiting hv, fun _ _ => rfl, ?_⟩ ?_
  · intro t m m' hm
    cases hm
  · intro h s s' a e hk _ ⟨hw, hn, ho⟩ hg hst hs
    exact ⟨hg.1.1.waiting hk hst hw, hn.step hs, ho.step hw hs hg.2⟩

/-- Where all threads lock mutexes in ascending order, there is never a deadlock: nobody waits in a
circle, and following who waits for whom leads to a thread that waits for no mutex. -/
theorem lock_order_no_deadlock [Preorder ι] {rank : Nat → ι} (hv : ValidVals vals)
    (hr : (system vals).Run (OrderGuard rank) h s) :
    (∀ D, ¬ s.view.waitGraph.Deadlocked D) ∧
    (∀ t, ¬ Relation.TransGen s.view.waitGraph.WaitsFor t t) ∧
    ∀ t, ∃ u, Relation.ReflTransGen s.view.waitGraph.WaitsFor t u ∧ s.view.awaits u = none := by
  obtain ⟨-, hw, hn, ho⟩ := run_lockOrder hv hr
  have hasc := ho.ascending hw
  refine ⟨hasc.not_deadlocked, hasc.no_circle, ?_⟩
  intro t
  obtain ⟨u, hu, hend | ⟨D, hD, -⟩⟩ := s.view.waitGraph.leads t
  · refine ⟨u, hu, ?_⟩
    cases ha : s.view.awaits u with
    | none => rfl
    | some m =>
        obtain ⟨w, hwait⟩ := hn.waitsFor hw ha
        exact absurd hwait (hend w)
  · exact absurd hD (hasc.not_deadlocked D)

/-- The same for an application with `k` mutexes, locked in the order of their numbers. -/
def FewGuard (k : Nat) (s : Sys) (a : Action) : Prop :=
  s.MutexGuard a ∧ ∀ m ∈ View.asksFor a, m < k ∧ ∀ m' < k, s.view.holder m' = s.view.run → m' < m

instance (k : Nat) (s : Sys) (a : Action) : Decidable (s.FewGuard k a) :=
  inferInstanceAs (Decidable (_ ∧ _))

theorem run_few {G : Sys → Action → Prop} {k : Nat} (hG : ∀ s a, G s a → s.FewGuard k a)
    (hr : (system vals).Run G h s) :
    (system vals).Run (fun s a => G s a ∧ s.view.Ascends (id : Nat → Nat) a) h s ∧ s.Sound ∧
      ∀ m, k ≤ m → s.view.holder m = none := by
  induction hr with
  | init hi =>
      obtain rfl := hi
      exact ⟨.init rfl, boot_sound vals, fun _ _ => rfl⟩
  | @step h s s' a e _ hg hs ih =>
      obtain ⟨hr, hsound, hfree⟩ := ih
      have hfew := hG s a hg
      have hst := step_refines hsound hfew.1.1.1 hs
      refine ⟨hr.step ⟨hg, ?_⟩ hs, hst.1, ?_⟩
      · intro t m ht ha m' hm'
        rcases Nat.lt_or_ge m' k with hlt | hge
        · exact (hfew.2 m ha).2 m' hlt (hm'.trans ht.symm)
        · cases (hfree m' hge).symm.trans hm'
      · intro m hm
        refine hst.2.stays_free (hfree m hm) ?_
        intro ha
        exact absurd (hfew.2 m ha).1 (Nat.not_lt.2 hm)

/-- A thread that holds a mutex asks for the next one, which another thread holds. -/
theorem lock_order_two_threads :
    ∃ h s, (system fun _ => 0).Run (OrderGuard (id : Nat → Nat)) h s ∧
      s.view.holder 0 = some (.slot 15) ∧ s.view.awaits (.slot 15) = some 1 ∧
      (∀ D, ¬ s.view.waitGraph.Deadlocked D) ∧
      (∀ t, ¬ Relation.TransGen s.view.waitGraph.WaitsFor t t) ∧
      ∀ t, ∃ u, Relation.ReflTransGen s.view.waitGraph.WaitsFor t u ∧ s.view.awaits u = none := by
  rcases exists_run (fun _ => 0) (G := FewGuard 2)
    [.create 1 1, .create 1 1, .launch, .call (.mtxLock 0), .tick 0, .call (.mtxLock 1), .tick 0,
      .call (.mtxLock 1)]
    (P := fun _ s => s.view.holder 0 = some (.slot 15) ∧ s.view.awaits (.slot 15) = some 1)
    (by decide +kernel) with ⟨h, s, hr, hh, ha⟩
  have hr : (system fun _ => 0).Run (OrderGuard (id : Nat → Nat)) h s :=
    (run_few (fun _ _ hg => hg) hr).1.mono fun _ _ hg => ⟨hg.1.1, hg.2⟩
  exact ⟨h, s, hr, hh, ha, lock_order_no_deadlock (fun _ => Nat.zero_le _) hr⟩

/-! ## Runs out of a deadlock -/

/-- Nobody gets out of a deadlock: whatever the other threads do, the threads of the set return from
no call and are not linked again. -/
theorem deadlock_forever (hv : ValidVals vals) (hr : (system vals).Run MutexGuard h s)
    (hd : s.view.LockedUp D) (hr' : ((system vals).startedAt s).Run MutexGuard h' s') :
    s'.view.LockedUp D ∧
    (∀ t ∈ D, s'.pc t = s.pc t ∧ (s'.k.fault = false → s'.k.runQueue.linked t = false)) ∧
    ∀ ev, some ev ∈ h' → ev.thrd ∉ D := by
  obtain ⟨hsound, hw, -⟩ := run_holding hv hr
  have hinv : s'.Sound ∧ s'.view.Waiting ∧ s'.view.LockedUp D ∧ (∀ t ∈ D, s'.pc t = s.pc t) ∧
      ∀ ev, some ev ∈ h' → ev.thrd ∉ D := by
    refine hr'.invariant (P := fun h' s' => s'.Sound ∧ s'.view.Waiting ∧ s'.view.LockedUp D ∧
      (∀ t ∈ D, s'.pc t = s.pc t) ∧ ∀ ev, some ev ∈ h' → ev.thrd ∉ D) ?_ ?_
    · rintro s' rfl
      exact ⟨hsound, hw, hd, fun _ _ => rfl, nofun⟩
    · rintro h₁ s₁ a e s₂ ⟨hsound, hw, hd, hpc, hev⟩ hg hs
      have hf := (steps_of_step hs).1
      obtain ⟨hsound', hst⟩ := step_refines hsound hg.1.1 hs
      have hw' := hg.1.waiting hsound hs hw
      obtain ⟨hd', hpc', hev'⟩ := hd.step hw hf hst hw' hg.2
      refine ⟨hsound', hw', hd', fun t ht => (hpc' t ht).trans (hpc t ht), ?_⟩
      intro ev hm
      rcases List.mem_cons.1 hm with he | hm
      · exact hev' ev he.symm
      · exact hev ev hm
  obtain ⟨-, hw', hd', hpc, hev⟩ := hinv
  refine ⟨hd', ?_, hev⟩
  intro t ht
  refine ⟨hpc t ht, ?_⟩
  intro hf
  obtain ⟨u, -, m, ha, -⟩ := hd'.deadlocked.waits t ht
  obtain ⟨n, hn⟩ := hd'.blocked t ht
  have hm := hw'.awaits_iff.1 ha
  refine (hw'.unlinked hf t ((hw'.blocking t).2 ⟨.mtx m, ?_, hm⟩)).1
  have hwait := hw'.waiter_some hm
  rw [hn] at hwait ⊢
  exact hwait

/-- Two threads that lock two mutexes in different orders. -/
theorem deadlock_forever_two_threads :
    ∃ h s h' s', (system fun _ => 0).Run MutexGuard h s ∧
      s.view.LockedUp {.slot 14, .slot 15} ∧
      ((system fun _ => 0).startedAt s).Run MutexGuard h' s' ∧ h'.length = 1 ∧
      s'.view.LockedUp {.slot 14, .slot 15} ∧
      (∀ t ∈ ({.slot 14, .slot 15} : Set TaskId),
        s'.pc t = s.pc t ∧ (s'.k.fault = false → s'.k.runQueue.linked t = false)) ∧
      ∀ ev, some ev ∈ h' → ev.thrd ∉ ({.slot 14, .slot 15} : Set TaskId) := by
  rcases exists_step (fun _ => 0) (G := MutexGuard)
    [.create 1 1, .create 1 1, .launch, .call (.mtxLock 0), .tick 0, .call (.mtxLock 1), .tick 0,
      .call (.mtxLock 1), .tick 0, .call (.mtxLock 0)] (.tick 0)
    (P := fun s => s.pc (.slot 14) = .ret (.mtxLock 0) 0 ∧ s.pc (.slot 15) = .ret (.mtxLock 1) 0 ∧
      s.view.awaits (.slot 14) = some 0 ∧ s.view.awaits (.slot 15) = some 1 ∧
      s.view.holder 0 = some (.slot 15) ∧ s.view.holder 1 = some (.slot 14) ∧ s.MutexGuard (.tick 0))
    (Q := fun _ _ => True) (by decide +kernel)
    with ⟨h, s, e, s', hr, ⟨hp, hp', ha, ha', hh, hh', hg⟩, hs, -⟩
  have hd : s.view.LockedUp {.slot 14, .slot 15} := by
    refine ⟨?_, ⟨.slot 14, .inl rfl⟩, ?_⟩
    · rintro t (rfl | rfl)
      · exact ⟨0, hp⟩
      · exact ⟨1, hp'⟩
    · rintro t (rfl | rfl)
      · exact ⟨.slot 15, .inr rfl, 0, ha, hh⟩
      · exact ⟨.slot 14, .inl rfl, 1, ha', hh'⟩
  have hr' : ((system fun _ => 0).startedAt s).Run MutexGuard [e] s' := .step (.init rfl) hg hs
  exact ⟨h, s, [e], s', hr, hd, hr', rfl, deadlock_forever (fun _ => Nat.zero_le _) hr hd hr'⟩

/-! ## Progress -/

/-- In a quiet system, following who waits for whom leads to a thread that is ready, or that waits
for a semaphore, or into a deadlock. -/
theorem LendingOk.leads (hl : s.LendingOk) (ht : s.pc t ≠ .none) :
    ∃ u, Relation.ReflTransGen s.view.waitGraph.WaitsFor t u ∧
      (s.k.runQueue.linked u = true ∨ (∃ n, some u ∈ s.view.waiters (.sem n)) ∨
        ∃ D, s.view.waitGraph.Deadlocked D ∧ u ∈ D) := by
  obtain ⟨u, hu, hend | hD⟩ := s.view.waitGraph.leads t
  · have hlive : s.pc u ≠ .none := by
      rcases Relation.reflTransGen_iff_eq_or_transGen.1 hu with rfl | hu
      · exact ht
      · obtain ⟨x, -, m, -, ho⟩ := Relation.TransGen.tail'_iff.1 hu
        exact hl.lending.live m u ho
    refine ⟨u, hu, ?_⟩
    rcases hl.lending.quiet.linked u hlive with hlinked | hb
    · exact .inl hlinked
    · obtain ⟨o, ho, hm⟩ := (hl.lending.waiting.blocking u).1 hb
      cases o with
      | sem n => exact .inr (.inl ⟨n, hm⟩)
      | mtx m =>
          obtain ⟨w, hwait⟩ := hl.lending.noneWaits.waitsFor hl.lending.waiting
            (hl.lending.waiting.awaits_iff.2 hm)
          exact absurd hwait (hend w)
  · exact ⟨u, hu, .inr (.inr hD)⟩

/-- A quiet step in which nobody breaks the order of the mutexes. -/
def QuietOrderGuard [LT ι] (rank : Nat → ι) (s : Sys) (a : Action) : Prop :=
  s.QuietGuard a ∧ s.view.Ascends rank a

/-- Where all threads lock mutexes in ascending order and neither sleep nor end, a thread that is
there is ready itself, or waits through mutexes for one that is ready or that waits for a
semaphore. -/
theorem lock_order_progress [Preorder ι] {rank : Nat → ι} (hv : ValidVals vals)
    (hr : (system vals).Run (QuietOrderGuard rank) h s) (ht : s.pc t ≠ .none) :
    s.k.fault = false ∧ ∃ u, Relation.ReflTransGen s.view.waitGraph.WaitsFor t u ∧
      (s.k.runQueue.linked u = true ∨ ∃ n, some u ∈ (s.k.sems (.app n)).wq.toList) := by
  have hinv : s.LendingOk ∧ s.view.LockOrder rank := by
    refine hr.invariant (P := fun _ s => s.LendingOk ∧ s.view.LockOrder rank) ?_ ?_
    · rintro s rfl
      refine ⟨boot_lendingOk hv, ?_⟩
      intro t m m' hm
      cases hm
    · rintro h s a e s' ⟨hl, ho⟩ hg hs
      have hst := (step_refines hl.quietOk.sound (hl.quietOk.clean hg.1).1 hs).2
      exact ⟨hl.step hg.1 hs, ho.step hl.lending.waiting hst hg.2⟩
  obtain ⟨hl, ho⟩ := hinv
  refine ⟨hl.quietOk.fault, ?_⟩
  obtain ⟨u, hu, hlinked | hsem | ⟨D, hD, -⟩⟩ := hl.leads ht
  · exact ⟨u, hu, .inl hlinked⟩
  · exact ⟨u, hu, .inr hsem⟩
  · exact absurd hD ((ho.ascending hl.lending.waiting).not_deadlocked D)

/-- A thread that has blocked waits for the other one, which is ready. -/
theorem lock_order_progress_two_threads :
    ∃ h s, (system fun _ => 0).Run (QuietOrderGuard (id : Nat → Nat)) h s ∧
      s.k.runQueue.linked (.slot 15) = false ∧ s.k.fault = false ∧
      ∃ u, Relation.ReflTransGen s.view.waitGraph.WaitsFor (.slot 15) u ∧
        (s.k.runQueue.linked u = true ∨ ∃ n, some u ∈ (s.k.sems (.app n)).wq.toList) := by
  rcases exists_run (fun _ => 0) (G := fun s a => s.FewGuard 2 a ∧ s.QuietGuard a)
    [.create 1 1, .create 1 1, .launch, .call (.mtxLock 0), .tick 0, .call (.mtxLock 1), .tick 0,
      .call (.mtxLock 1)]
    (P := fun _ s => s.k.runQueue.linked (.slot 15) = false ∧ s.pc (.slot 15) ≠ .none)
    (by decide +kernel) with ⟨h, s, hr, hlinked, hpc⟩
  have hr : (system fun _ => 0).Run (QuietOrderGuard (id : Nat → Nat)) h s :=
    (run_few (fun _ _ hg => hg.1) hr).1.mono fun _ _ hg => ⟨hg.1.2, hg.2⟩
  exact ⟨h, s, hr, hlinked, lock_order_progress (fun _ => Nat.zero_le _) hr hpc⟩

end Sys

end MsTos
