-- SUMMARY: What the steps of the abstract kernel change: threads that move, are linked, join wait queues or leave them.
import MsTos.View

namespace MsTos

namespace View

variable {v v' : View} {o : Obj} {t u : TaskId} {a : Action} {e : Option Event} {m : Nat}

theorem setThrd_state {f : Thrd → Thrd} :
    (v.setThrd t f u).state = if u = t then (f (v.thrds t)).state else (v.thrds u).state := by
  unfold setThrd
  rw [Function.update_apply]
  split <;> rfl

/-- Leaving the run queue changes nothing else, and other threads stay linked. -/
theorem Leaves.eq (h : Leaves v t v') : ∃ l f, v' = { v with linked := l, fault := f, ifg := true } ∧
    (∀ u, u ≠ t → l u = v.linked u) ∧ (f = false → v.fault = false ∧ l t = false) := by
  cases h with
  | unlink =>
      refine ⟨_, _, rfl, ?_, ?_⟩
      · intro u hu
        exact Function.update_of_ne hu _ _
      · intro hf
        exact ⟨hf, Function.update_self _ _ _⟩
  | fault =>
      refine ⟨_, _, rfl, fun _ _ => rfl, ?_⟩
      intro hf
      cases hf

theorem Signals.pc_eq (h : v.Signals o t v') : v'.pc = v.pc := by
  cases h <;> rfl

/-- A step moves at most one thread: the running one, or a new one. -/
theorem Step.pc_eq (h : v.Step a e v') : v'.pc = v.pc ∨
    ∃ u p, v'.pc = Function.update v.pc u p ∧
      (v.run = some u ∧ v.pc u ≠ .none ∨ ∃ i, u = .slot i ∧ v.pc u = .none) ∧
      ∀ w, p ≠ .join w := by
  cases h with
  | create r p i hr hi | thrdCreate r p i hr hu hi =>
      exact .inr ⟨.slot i, .user, rfl, .inr ⟨i, rfl, hi⟩, by simp⟩
  | createFails | launch | fails | take | tryTake | trySteal => exact .inl rfl
  | signal o hr hu hh hs => exact .inl hs.pc_eq
  | tick sp hr ht => exact .inl ht.pc
  | @block t v₁ o hr hu hb hl =>
      obtain ⟨l, f, rfl, -⟩ := hl.eq
      exact .inr ⟨t, _, rfl, .inl ⟨hr, by rw [hu]; simp⟩, by simp⟩
  | @timedBlock t v₁ o n hn hr hu hb hl =>
      obtain ⟨l, f, rfl, -⟩ := hl.eq
      exact .inr ⟨t, _, rfl, .inl ⟨hr, by rw [hu]; simp⟩, by cases o <;> simp [Obj.timedPc]⟩
  | @timedTake t o n hr hu hb =>
      exact .inr ⟨t, _, rfl, .inl ⟨hr, by rw [hu]; simp⟩, by cases o <;> simp [Obj.timedPc]⟩
  | @timedZero t o n hn hr hu hb =>
      exact .inr ⟨t, _, rfl, .inl ⟨hr, by rw [hu]; simp⟩, by cases o <;> simp [Obj.timedPc]⟩
  | @timedLeave t o n b hr hi hu hs hm =>
      exact .inr ⟨t, _, rfl, .inl ⟨hr, by rw [hu]; cases o <;> simp [Obj.timedPc]⟩, by simp⟩
  | @rollback t v₁ n timeout hr hi hu hs hv =>
      refine .inr ⟨t, .user, ?_, .inl ⟨hr, by rw [hu]; simp⟩, by simp⟩
      rw [setPc, hv.pc_eq]
      rfl
  | @pause t v₁ n hr hi hu hl | @kill t v₁ hr hi hu hl =>
      obtain ⟨l, f, rfl, -⟩ := hl.eq
      exact .inr ⟨t, _, rfl, .inl ⟨hr, by rw [hu]; simp⟩, by simp⟩
  | @yields t c hr hu hc => exact .inr ⟨t, _, rfl, .inl ⟨hr, by rw [hu]; simp⟩, by simp⟩
  | @sleep t n hn hr hu => exact .inr ⟨t, _, rfl, .inl ⟨hr, by rw [hu]; simp⟩, by simp⟩
  | @exit t r hr hu => exact .inr ⟨t, _, rfl, .inl ⟨hr, by rw [hu]; simp⟩, by simp⟩
  | @ret t c r hr hi hu => exact .inr ⟨t, _, rfl, .inl ⟨hr, by rw [hu]; simp⟩, by simp⟩

/-- Only the scheduler changes the running thread. -/
theorem Step.run_eq (h : v.Step a e v') : v'.run = v.run ∨ a = .launch ∨ ∃ sp, a = .tick sp := by
  cases h with
  | launch hr hp => exact .inr (.inl rfl)
  | tick sp hr ht => exact .inr (.inr ⟨sp, rfl⟩)
  | signal o hr hu hh hs => cases hs <;> exact .inl rfl
  | rollback n timeout hr hi hu hs hv => cases hv <;> exact .inl rfl
  | block o hr hu hb hl | timedBlock o n hn hr hu hb hl | pause n hr hi hu hl | kill hr hi hu hl =>
      obtain ⟨l, f, rfl, -⟩ := hl.eq
      exact .inl rfl
  | _ => exact .inl rfl

/-- What signals link is the first waiter, which leaves the wait queue. -/
theorem Signals.linked (h : v.Signals o t v') {u : TaskId} (hl : v.linked u = false)
    (hl' : v'.linked u = true) : ∃ l, v.waiters o = some u :: l ∧ v'.waiters o = l := by
  cases h with
  | free | crash => exact absurd (hl.symm.trans hl') Bool.false_ne_true
  | @grant w l hv hw =>
      have hl' : Function.update v.linked w true u = true := hl'
      rw [Function.update_apply] at hl'
      split at hl'
      · rename_i hu
        subst hu
        exact ⟨l, hw, Function.update_self _ _ _⟩
      · exact absurd (hl.symm.trans hl') Bool.false_ne_true

/-- Signals unlink nobody. -/
theorem Signals.keeps_linked (h : v.Signals o t v') {u : TaskId}
    (hl : v.linked u = true) : v'.linked u = true := by
  cases h with
  | free | crash => exact hl
  | @grant w l hv hq =>
      show Function.update v.linked w true u = true
      rw [Function.update_apply]
      split
      · rfl
      · exact hl

/-- Leaving the run queue links nobody. -/
theorem Leaves.linked (h : Leaves v t v') {u : TaskId} (hl : v.linked u = false) :
    v'.linked u = false := by
  cases h with
  | fault => exact hl
  | unlink =>
      show Function.update v.linked t false u = false
      rw [Function.update_apply]
      split
      · rfl
      · exact hl

/-- The handles that are no longer among the sleepers and the deadlines. -/
def taken (v v' : View) : Multiset ThrdPtr := v.sleepers - v'.sleepers + (v.deadlines - v'.deadlines)

theorem Ticks.taken_eq {woken expired : Multiset ThrdPtr} (h : v.Ticks v' woken expired) :
    v.taken v' = woken + expired := by
  rw [taken, h.sleepers, h.deadlines, add_tsub_cancel_right, add_tsub_cancel_right]

theorem mem_taken {p : ThrdPtr} (h : p ∈ v.taken v') : p ∈ v.sleepers ∨ p ∈ v.deadlines :=
  (Multiset.mem_add.1 h).imp (Multiset.mem_of_le (Multiset.sub_le_self _ _))
    (Multiset.mem_of_le (Multiset.sub_le_self _ _))

/-- Whom a step links: a new thread, the first waiter of an object that is given back, or a thread
whose entry a tick takes out of the sleepers or the deadlines. -/
theorem Step.linked (h : v.Step a e v') {u : TaskId} (hl : v.linked u = false)
    (hl' : v'.linked u = true) :
    v.pc u = .none ∧ v'.pc u = .user ∨
    (∃ o l, v.waiters o = some u :: l ∧ v'.waiters o = l ∧ (a = .call o.signalCall ∨
      ∃ t n timeout, o = .sem n ∧ a = .resume ∧ v.run = some t ∧
        v.pc t = .semTimedwait n timeout false ∧ (v.thrds t).state = .SLEEPING)) ∨
    ∃ sp, a = .tick sp ∧ some u ∈ v.taken v' := by
  have hsame : ∀ {l : TaskId → Bool}, l u = false → l u = true → False := by
    intro l h₁ h₂
    rw [h₁] at h₂
    cases h₂
  cases h with
  | create r p i hr hi | thrdCreate r p i hr hu hi =>
      have hl' : Function.update v.linked (.slot i) true u = true := hl'
      rw [Function.update_apply] at hl'
      split at hl'
      · rename_i hu
        subst hu
        exact .inl ⟨hi, Function.update_self _ _ _⟩
      · exact (hsame hl hl').elim
  | createFails | launch | fails | yields | take | tryTake | trySteal | timedTake | timedZero
  | sleep | exit | ret | timedLeave => exact (hsame hl hl').elim
  | block o hr hu hb hv | timedBlock o n hn hr hu hb hv | pause n hr hi hu hv | kill hr hi hu hv =>
      exact (hsame (hv.linked hl) hl').elim
  | signal o hr hu hh hs =>
      obtain ⟨l, hw, hw'⟩ := hs.linked hl hl'
      exact .inr (.inl ⟨o, l, hw, hw', .inl rfl⟩)
  | @rollback t v₁ n timeout hr hi hu hs hv =>
      obtain ⟨l, hw, hw'⟩ := hv.linked hl hl'
      exact .inr (.inl ⟨.sem n, l, hw, hw', .inr ⟨t, n, timeout, rfl, rfl, hr, hu, hs⟩⟩)
  | @tick v₁ woken expired sp hr ht =>
      refine .inr (.inr ⟨sp, rfl, ?_⟩)
      rw [ht.taken_eq]
      exact Multiset.mem_add.2 (((ht.linked u).1 hl').resolve_left (hsame hl))

/-- A thread stays linked unless it is the running one, and blocks, pauses or ends. -/
theorem Step.keeps_linked (h : v.Step a e v') {u : TaskId} (hl : v.linked u = true) :
    v'.linked u = true ∨ v.run = some u ∧ v'.ifg = true ∧
      ((∃ o, v'.pc u = .ret (Obj.waitCall o) 0 ∧ (v'.thrds u).state = .BLOCKING) ∨
        (∃ (o : Obj) (n : SizeT), n ≠ 0 ∧ v.Busy o ∧ a = .call (o.timedCall n) ∧
          v'.deadlines = pushed u v.deadlines ∧ (v'.thrds u).state = .SLEEPING) ∨
        (a = .resume ∧ ∃ n, v.pc u = .sleepPause n) ∨
        (a = .resume ∧ v.pc u = .kill ∧ v'.pc u = .none)) := by
  cases h with
  | create r p i hr hi | thrdCreate r p i hr hu hi =>
      left
      show Function.update v.linked (.slot i) true u = true
      rw [Function.update_apply]
      split
      · rfl
      · exact hl
  | createFails | launch | fails | yields | take | tryTake | trySteal | timedTake | timedZero | sleep
  | exit | ret | timedLeave => exact .inl hl
  | signal o hr hu hh hs => exact .inl (hs.keeps_linked hl)
  | @rollback t v₁ n timeout hr hi hu hs hv =>
      have hk : v₁.linked u = true := hv.keeps_linked (v := v.awake t) hl
      exact .inl hk
  | tick sp hr ht => exact .inl ((ht.linked u).2 (.inl hl))
  | @block t v₁ o hr hu hb hv =>
      obtain ⟨l, f, rfl, hk, -⟩ := hv.eq
      rcases eq_or_ne u t with rfl | hne
      · refine .inr ⟨hr, rfl, .inl ⟨o, Function.update_self _ _ _, ?_⟩⟩
        show ((v.enqueue o u).setThrd u _ u).state = _
        rw [setThrd_state, if_pos rfl]
      · exact .inl ((hk u hne).trans hl)
  | @timedBlock t v₁ o n hn hr hu hb hv =>
      obtain ⟨l, f, rfl, hk, -⟩ := hv.eq
      rcases eq_or_ne u t with rfl | hne
      · refine .inr ⟨hr, rfl, .inr (.inl ⟨o, n, hn, hb, rfl, rfl, ?_⟩)⟩
        show (View.setThrd _ u _ u).state = _
        rw [setThrd_state, if_pos rfl]
      · exact .inl ((hk u hne).trans hl)
  | @pause t v₁ n hr hi hu hv =>
      obtain ⟨l, f, rfl, hk, -⟩ := hv.eq
      rcases eq_or_ne u t with rfl | hne
      · exact .inr ⟨hr, rfl, .inr (.inr (.inl ⟨rfl, n, hu⟩))⟩
      · exact .inl ((hk u hne).trans hl)
  | @kill t v₁ hr hi hu hv =>
      obtain ⟨l, f, rfl, hk, -⟩ := hv.eq
      rcases eq_or_ne u t with rfl | hne
      · exact .inr ⟨hr, rfl, .inr (.inr (.inr ⟨rfl, hu, Function.update_self _ _ _⟩))⟩
      · exact .inl ((hk u hne).trans hl)

/-! ## Where threads stand -/

theorem update_pc {f : TaskId → Pc} {p q : Pc} (hne : p ≠ q) (h : Function.update f t p u = q) :
    f u = q := by
  rw [Function.update_apply] at h
  split at h
  · exact absurd h hne
  · exact h

theorem update_pc_cases {f : TaskId → Pc} {p q : Pc} (h : Function.update f t p u = q) :
    u = t ∧ p = q ∨ f u = q := by
  rw [Function.update_apply] at h
  split at h
  · rename_i hu
    exact .inl ⟨hu, h⟩
  · exact .inr h

/-- A thread is gone only after its `os_task_kill`. -/
theorem Step.pc_none (h : v.Step a e v') (hp : v'.pc u = .none) :
    v.pc u = .none ∨ v.pc u = .kill ∧ v.run = some u ∧ a = .resume := by
  have htimed : ∀ (o : Obj) (n : SizeT) (b : Bool), o.timedPc n b ≠ .none := by
    intro o n b
    cases o <;> simp [Obj.timedPc]
  cases h with
  | createFails | launch | fails | take | tryTake | trySteal => exact .inl hp
  | signal o' hr hu hh hs => exact .inl (hs.pc_eq ▸ hp)
  | tick sp hr ht => exact .inl (ht.pc ▸ hp)
  | create r p i hr hi | thrdCreate r p i hr hu hi => exact .inl (update_pc (by simp) hp)
  | yields | sleep | exit | ret | timedLeave => exact .inl (update_pc (by simp) hp)
  | timedTake o' n' hr hu hb => exact .inl (update_pc (htimed o' n' true) hp)
  | timedZero o' n' hn hr hu hb => exact .inl (update_pc (htimed o' n' false) hp)
  | timedBlock o' n' hn hr hu hb hl =>
      obtain ⟨l, f, rfl, -⟩ := hl.eq
      exact .inl (update_pc (htimed o' n' false) hp)
  | block o' hr hu hb hl | pause n hr hi hu hl =>
      obtain ⟨l, f, rfl, -⟩ := hl.eq
      exact .inl (update_pc (by simp) hp)
  | rollback n timeout hr hi hu hs hv =>
      have hp' := update_pc (by simp) hp
      rw [hv.pc_eq] at hp'
      exact .inl hp'
  | @kill t v₁ hr hi hu hl =>
      obtain ⟨l, f, rfl, -⟩ := hl.eq
      rcases update_pc_cases hp with ⟨rfl, -⟩ | hn
      · exact .inr ⟨hu, hr, rfl⟩
      · exact .inl hn

/-- A thread gets between the critical sections of a timed wait as the one that has taken the
object, or as the one that joins the wait queue. -/
theorem Step.pc_timed (h : v.Step a e v') {n : SizeT} {b : Bool} (hp : v'.pc u = o.timedPc n b) :
    v.pc u = o.timedPc n b ∨ v.run = some u ∧ v.pc u = .user ∧ a = .call (o.timedCall n) ∧
      (b = true ∧ v'.val = v.downVal o ∧ v'.holder = v.setHolder o (some u) ∨
        b = false ∧ v.Busy o ∧ v'.waiters = v.queued o u) := by
  have hinj : ∀ {o' : Obj} {n' : SizeT} {b' : Bool}, o'.timedPc n' b' = o.timedPc n b →
      o' = o ∧ n' = n ∧ b' = b := by
    intro o' n' b' hpc
    cases o' <;> cases o <;> simp_all [Obj.timedPc]
  have hne : ∀ {p : Pc}, (∀ n' b', p ≠ .semTimedwait n' n b' ∧ p ≠ .mtxTimedlock n' n b') →
      p ≠ o.timedPc n b := by
    intro p hp'
    cases o with
    | sem s => exact (hp' s b).1
    | mtx m => exact (hp' m b).2
  cases h with
  | createFails | launch | fails | take | tryTake | trySteal => exact .inl hp
  | signal o' hr hu hh hs => exact .inl (hs.pc_eq ▸ hp)
  | tick sp hr ht => exact .inl (ht.pc ▸ hp)
  | create r p i hr hi | thrdCreate r p i hr hu hi => exact .inl (update_pc (hne (by simp)) hp)
  | yields | sleep | exit | ret | timedLeave => exact .inl (update_pc (hne (by simp)) hp)
  | block o' hr hu hb hl | pause n hr hi hu hl | kill hr hi hu hl =>
      obtain ⟨l, f, rfl, -⟩ := hl.eq
      exact .inl (update_pc (hne (by simp)) hp)
  | rollback n timeout hr hi hu hs hv =>
      rcases hv.pc_eq with hpc
      have hp' := update_pc (hne (by simp)) hp
      rw [hpc] at hp'
      exact .inl hp'
  | @timedTake t o' n' hr hu hb =>
      rcases update_pc_cases hp with ⟨rfl, hq⟩ | hq
      · obtain ⟨rfl, rfl, rfl⟩ := hinj hq
        exact .inr ⟨hr, hu, rfl, .inl ⟨rfl, rfl, rfl⟩⟩
      · exact .inl hq
  | @timedZero t o' n' hn hr hu hb =>
      rcases update_pc_cases hp with ⟨rfl, hq⟩ | hq
      · obtain ⟨rfl, rfl, rfl⟩ := hinj hq
        exact .inr ⟨hr, hu, rfl, .inr ⟨rfl, hb, rfl⟩⟩
      · exact .inl hq
  | @timedBlock t v₁ o' n' hn hr hu hb hl =>
      obtain ⟨l, f, rfl, -⟩ := hl.eq
      rcases update_pc_cases hp with ⟨rfl, hq⟩ | hq
      · obtain ⟨rfl, rfl, rfl⟩ := hinj hq
        exact .inr ⟨hr, hu, rfl, .inr ⟨rfl, hb, rfl⟩⟩
      · exact .inl hq

/-- A thread that has blocked on an object has joined its wait queue. -/
theorem Step.pc_blocks (h : v.Step a e v') (hp : blocksOn (v'.pc u) = some o) :
    v'.pc u = v.pc u ∨ v.run = some u ∧ v.pc u = .user ∧ v'.waiters = v.queued o u := by
  have hkeep : ∀ {t : TaskId} {p : Pc}, v'.pc = Function.update v.pc t p → blocksOn p = none →
      v'.pc u = v.pc u := by
    intro t p hpc hb
    rw [hpc, Function.update_apply]
    split
    · rename_i hu
      rw [hpc, hu, Function.update_self, hb] at hp
      cases hp
    · rfl
  cases h with
  | createFails | launch | fails | take | tryTake | trySteal => exact .inl rfl
  | signal o' hr hu hh hs => exact .inl (congrFun hs.pc_eq u)
  | tick sp hr ht => exact .inl (congrFun ht.pc u)
  | create r p i hr hi | thrdCreate r p i hr hu hi => exact .inl (hkeep rfl rfl)
  | sleep | exit | ret | timedLeave => exact .inl (hkeep rfl rfl)
  | @yields t c hr hu hc =>
      refine .inl (hkeep rfl ?_)
      rcases hc with rfl | ⟨n, rfl⟩ <;> rfl
  | timedTake o' n' hr hu hb => exact .inl (hkeep rfl (blocksOn_timedPc o' n' true))
  | timedZero o' n' hn hr hu hb => exact .inl (hkeep rfl (blocksOn_timedPc o' n' false))
  | timedBlock o' n' hn hr hu hb hl =>
      obtain ⟨l, f, rfl, -⟩ := hl.eq
      exact .inl (hkeep rfl (blocksOn_timedPc o' n' false))
  | pause n hr hi hu hl | kill hr hi hu hl =>
      obtain ⟨l, f, rfl, -⟩ := hl.eq
      exact .inl (hkeep rfl rfl)
  | @rollback t v₁ n timeout hr hi hu hs hv =>
      exact .inl (hkeep (t := t) (p := .user)
        (congrArg (fun f : TaskId → Pc => Function.update f t .user) hv.pc_eq) rfl)
  | @block t v₁ o' hr hu hb hl =>
      obtain ⟨l, f, rfl, -⟩ := hl.eq
      rcases eq_or_ne u t with rfl | hne
      · rw [show (setPc _ u (.ret o'.waitCall 0)).pc u = .ret o'.waitCall 0 from
          Function.update_self _ _ _, blocksOn_waitCall] at hp
        cases hp
        exact .inr ⟨hr, hu, rfl⟩
      · exact .inl (Function.update_of_ne hne _ _)

/-! ## Wait queues -/

/-- A handle leaves a wait queue as its first one, for the thread to get the object. -/
theorem Signals.dequeued (h : v.Signals o t v') {q : Obj} (hm : some u ∈ v.waiters q)
    (hm' : some u ∉ v'.waiters q) : q = o ∧ ∃ l, v.waiters o = some u :: l ∧ v'.waiters o = l ∧
      v'.holder = v.setHolder o (some u) := by
  cases h with
  | free | crash => exact absurd hm hm'
  | @grant w l hv hw =>
      rcases eq_or_ne q o with rfl | hne
      · have hq : (v.grant q t w l).waiters q = l := Function.update_self _ _ _
        rw [hq] at hm'
        rw [hw, List.mem_cons] at hm
        rcases hm with hm | hm
        · cases hm
          exact ⟨rfl, l, hw, hq, rfl⟩
        · exact absurd hm hm'
      · have hq : (v.grant o t w l).waiters q = v.waiters q := Function.update_of_ne hne _ _
        rw [hq] at hm'
        exact absurd hm hm'

theorem mem_queued {q : Obj} {r : ThrdPtr} (h : r ∈ v.waiters q) : r ∈ v.queued o t q := by
  unfold queued
  rw [Function.update_apply]
  split
  · rename_i hq
    subst hq
    split
    · exact List.mem_append_left _ h
    · exact h
  · exact h

/-- A handle leaves a wait queue only through a signal, or through the end of a timed wait. -/
theorem Step.dequeued (h : v.Step a e v') (hm : some u ∈ v.waiters o)
    (hm' : some u ∉ v'.waiters o) : ∃ l, v.waiters o = some u :: l ∧ v'.waiters o = l ∧
      v'.holder = v.setHolder o (some u) ∧ (a = .call o.signalCall ∨ ∃ n, o = .sem n) := by
  cases h with
  | createFails | launch | fails | take | tryTake | trySteal | create | thrdCreate | yields
  | sleep | exit | ret | timedLeave | timedTake => exact absurd hm hm'
  | tick sp hr ht => exact absurd (ht.waiters ▸ hm) hm'
  | timedZero o' n' hn hr hu hb => exact absurd (mem_queued hm) hm'
  | block o' hr hu hb hl | timedBlock o' n' hn hr hu hb hl =>
      obtain ⟨l, f, rfl, -⟩ := hl.eq
      exact absurd (mem_queued hm) hm'
  | pause n hr hi hu hl | kill hr hi hu hl =>
      obtain ⟨l, f, rfl, -⟩ := hl.eq
      exact absurd hm hm'
  | signal o' hr hu hh hs =>
      obtain ⟨rfl, l, hw, hw', hh'⟩ := hs.dequeued hm hm'
      exact ⟨l, hw, hw', hh', .inl rfl⟩
  | @rollback t v₁ n timeout hr hi hu hs hv =>
      obtain ⟨rfl, l, hw, hw', hh'⟩ := hv.dequeued hm hm'
      exact ⟨l, hw, hw', hh', .inr ⟨n, rfl⟩⟩

/-- The first waiter leaves a wait queue that signals change. -/
theorem Signals.waiters (h : v.Signals o t v') (q : Obj) :
    v'.waiters q = v.waiters q ∨ ∃ r, v.waiters q = r :: v'.waiters q := by
  cases h with
  | free | crash => exact .inl rfl
  | @grant u l hv hw =>
      rcases eq_or_ne q o with rfl | hne
      · refine .inr ⟨some u, ?_⟩
        rw [hw, show (v.grant q t u l).waiters q = l from Function.update_self _ _ _]
      · exact .inl (Function.update_of_ne hne _ _)

/-- What a step does to a wait queue: nothing, or the caller joins it, or its first waiter leaves
it. -/
theorem Step.waiters (h : v.Step a e v') (o : Obj) : v'.waiters o = v.waiters o ∨
    (∃ t, v.run = some t ∧ v.pc t = .user ∧ v.Busy o ∧
      (a = .call o.waitCall ∨ ∃ n, a = .call (o.timedCall n)) ∧ v'.waiters o = v.queued o t o) ∨
    ∃ r, v.waiters o = r :: v'.waiters o := by
  have hjoin : ∀ {t : TaskId} {q : Obj}, v.run = some t → v.pc t = .user → v.Busy q →
      (a = .call q.waitCall ∨ ∃ n, a = .call (q.timedCall n)) →
      v.queued q t o = v.waiters o ∨ ∃ t, v.run = some t ∧ v.pc t = .user ∧ v.Busy o ∧
        (a = .call o.waitCall ∨ ∃ n, a = .call (o.timedCall n)) ∧
        v.queued q t o = v.queued o t o := by
    intro t q hr hu hb hc
    rcases eq_or_ne o q with rfl | hne
    · exact .inr ⟨t, hr, hu, hb, hc, rfl⟩
    · exact .inl (Function.update_of_ne hne _ _)
  cases h with
  | create | createFails | thrdCreate | launch | fails | yields | take | tryTake | trySteal
  | timedTake | sleep | exit | ret | timedLeave => exact .inl rfl
  | tick sp hr ht => exact .inl (congrFun ht.waiters o)
  | signal q hr hu hh hs => exact (hs.waiters o).imp_right .inr
  | rollback n timeout hr hi hu hs hv => exact (hv.waiters o).imp_right .inr
  | pause n hr hi hu hl | kill hr hi hu hl =>
      obtain ⟨l, f, rfl, -⟩ := hl.eq
      exact .inl rfl
  | @block t _ q hr hu hb hl =>
      obtain ⟨l, f, rfl, -⟩ := hl.eq
      rcases hjoin hr hu hb (.inl rfl) with hq | ⟨u, hru, hj⟩
      · exact .inl hq
      · cases hr.symm.trans hru
        exact .inr (.inl ⟨t, hru, hj⟩)
  | @timedZero t q n hn hr hu hb =>
      rcases hjoin hr hu hb (.inr ⟨n, rfl⟩) with hq | ⟨u, hru, hj⟩
      · exact .inl hq
      · cases hr.symm.trans hru
        exact .inr (.inl ⟨t, hru, hj⟩)
  | @timedBlock t _ q n hn hr hu hb hl =>
      obtain ⟨l, f, rfl, -⟩ := hl.eq
      rcases hjoin hr hu hb (.inr ⟨n, rfl⟩) with hq | ⟨u, hru, hj⟩
      · exact .inl hq
      · cases hr.symm.trans hru
        exact .inr (.inl ⟨t, hru, hj⟩)

/-! ## Holders -/

/-- How a step can change the holder of a mutex. -/
inductive HolderStep (v v' : View) (m : Nat) : Action → Option Event → Prop
  | same {a : Action} {e : Option Event} (h : v'.holder m = v.holder m) : HolderStep v v' m a e
  | lock {t : TaskId} (hr : v.run = some t) (hu : v.pc t = .user) (hn : v.holder m = none)
      (hh : v'.holder m = some t) :
      HolderStep v v' m (.call (.mtxLock m)) (some ⟨t, .mtxLock m, 0⟩)
  | timedlock {t : TaskId} (n : SizeT) (hr : v.run = some t) (hu : v.pc t = .user) (hn : v.holder m = none)
      (hh : v'.holder m = some t) (hpc : v'.pc t = .mtxTimedlock m n true) :
      HolderStep v v' m (.call (.mtxTimedlock m n)) none
  | steal {t : TaskId} (hr : v.run = some t) (hu : v.pc t = .user) (hn : v.holder m ≠ none)
      (hh : v'.holder m = some t) :
      HolderStep v v' m (.call (.mtxTrylock m)) (some ⟨t, .mtxTrylock m, 0⟩)
  | release {t : TaskId} (hr : v.run = some t) (hu : v.pc t = .user) (ht : v.holder m = some t)
      (hw : v.waiters (.mtx m) = []) (hh : v'.holder m = none) :
      HolderStep v v' m (.call (.mtxUnlock m)) (some ⟨t, .mtxUnlock m, 0⟩)
  | handOver {t u : TaskId} {l : List ThrdPtr} (hr : v.run = some t) (hu : v.pc t = .user) (ht : v.holder m = some t)
      (hw : v.waiters (.mtx m) = some u :: l) (hw' : v'.waiters (.mtx m) = l)
      (hh : v'.holder m = some u) :
      HolderStep v v' m (.call (.mtxUnlock m)) (some ⟨t, .mtxUnlock m, 0⟩)

theorem setHolder_apply (p : ThrdPtr) :
    v.setHolder o p m = if o = .mtx m then p else v.holder m := by
  cases o with
  | sem n => rfl
  | mtx n =>
      show Function.update v.holder n p m = _
      rw [Function.update_apply]
      simp [eq_comm]

theorem Leaves.holder (h : Leaves v t v') : v'.holder = v.holder := by
  cases h <;> rfl

theorem Step.holderStep (h : v.Step a e v') (m : Nat) : HolderStep v v' m a e := by
  cases h with
  | create | createFails | thrdCreate | launch | fails | yields | timedZero | sleep | exit | ret
  | timedLeave => exact .same rfl
  | block o hr hu hb hl | timedBlock o n hn hr hu hb hl | pause n hr hi hu hl | kill hr hi hu hl =>
      exact .same (congrFun hl.holder m)
  | tryTake n hr hu hb => exact .same rfl
  | tick sp hr ht => exact .same (congrFun ht.holder m)
  | @take t o hr hu hb =>
      have hh : (v.take o t).holder m = _ := setHolder_apply (some t)
      split at hh
      · rename_i ho
        subst ho
        exact .lock hr hu (not_not.1 hb) hh
      · exact .same hh
  | @timedTake t o n hr hu hb =>
      have hh : (v.take o t).holder m = _ := setHolder_apply (some t)
      split at hh
      · rename_i ho
        subst ho
        exact .timedlock n hr hu (not_not.1 hb) hh (Function.update_self _ _ _)
      · exact .same hh
  | @trySteal t n hr hu hb =>
      have hh : (v.take (.mtx n) t).holder m = _ := setHolder_apply (o := .mtx n) (some t)
      split at hh
      · rename_i ho
        cases ho
        exact .steal hr hu hb hh
      · exact .same hh
  | @signal t v₁ o hr hu hh hs =>
      cases hs with
      | free hv =>
          have hm : (v.free o t).holder m = _ := setHolder_apply none
          split at hm
          · rename_i ho
            subst ho
            exact .release hr hu (hh m rfl) hv hm
          · exact .same hm
      | @grant u l hv hw =>
          have hm : (v.grant o t u l).holder m = _ := setHolder_apply (some u)
          split at hm
          · rename_i ho
            subst ho
            exact .handOver hr hu (hh m rfl) hw (Function.update_self _ _ _) hm
          · exact .same hm
      | crash hv hw =>
          have hm : (v.crash o t).holder m = _ := setHolder_apply none
          split at hm
          · rename_i ho
            subst ho
            exact absurd hw hv
          · exact .same hm
  | @rollback t v₁ n timeout hr hi hu hs hv => cases hv <;> exact .same rfl

end View

end MsTos
