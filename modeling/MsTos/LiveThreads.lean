-- SUMMARY: Where live threads are kept: when each is linked or in a queue that can link it, and how the sixteenth sleeper is lost.
import MsTos.Handles

namespace MsTos

namespace View

variable {v v' : View} {o : Obj} {t u : TaskId} {a : Action} {e : Option Event}

/-! ## Entries that stay -/

/-- Between ticks, no entry leaves `sleep_queue` and `t_waitqueue`. -/
theorem Step.keeps_entries (hs : v.Step a e v') (ha : ∀ sp, a ≠ .tick sp) {p : ThrdPtr} :
    (p ∈ v.sleepers → p ∈ v'.sleepers) ∧ (p ∈ v.deadlines → p ∈ v'.deadlines) := by
  refine ⟨?_, ?_⟩
  · intro hp
    rcases hs.sleepers ha with hsame | ⟨t, n, -, -, hpush, -⟩
    · rwa [hsame]
    · rw [hpush]
      exact mem_pushed_of_mem hp
  · intro hp
    rcases hs.deadlines ha with hsame | ⟨t, o, n, -, hpush, -⟩
    · rwa [hsame]
    · rw [hpush]
      exact mem_pushed_of_mem hp

/-! ## The invariant -/

/-- Something can make the thread run again. -/
def Stored (v : View) (t : TaskId) : Prop :=
  v.linked t = true ∨ some t ∈ v.sleepers ∨ some t ∈ v.deadlines

/-- Every live thread that does not block on a semaphore or a mutex is stored, and one that is about
to pause is running, linked and among the sleepers. -/
structure Kept (v : View) : Prop where
  stored : ∀ t, v.pc t ≠ .none → blocksOn (v.pc t) = none → v.Stored t
  pausing : ∀ t n, v.pc t = .sleepPause n →
    v.run = some t ∧ v.linked t = true ∧ some t ∈ v.sleepers

/-- A thread that is about to be unlinked finds room in the queue that is to keep it. -/
def Room (v : View) (a : Action) : Prop :=
  match a with
  | .call (.thrdSleep n) => n ≠ 0 → v.sleepers.card + 1 < numThreads
  | .call (.semTimedwait m n) => n ≠ 0 → v.Busy (.sem m) → v.deadlines.card + 1 < numThreads
  | .call (.mtxTimedlock m n) => n ≠ 0 → v.Busy (.mtx m) → v.deadlines.card + 1 < numThreads
  | _ => True

instance (v : View) : DecidablePred v.Busy
  | .sem _ => inferInstanceAs (Decidable (_ < _))
  | .mtx _ => inferInstanceAs (Decidable (_ ≠ _))

instance (v : View) (a : Action) : Decidable (v.Room a) := by
  unfold Room
  split <;> infer_instance

/-- Between the two critical sections of `os_task_sleep`. -/
def pauses (pc : Pc) : Bool :=
  match pc with
  | .sleepPause _ => true
  | _ => false

/-- No tick comes between the two critical sections of `os_task_sleep`. -/
def Whole (v : View) (a : Action) : Prop :=
  match a with
  | .tick _ => ∀ t, v.run = some t → pauses (v.pc t) = false
  | _ => True

instance (v : View) : ∀ a, Decidable (v.Whole a)
  | .tick _ => inferInstanceAs (Decidable (∀ _, _))
  | .create _ _ | .launch | .call _ | .resume => inferInstanceAs (Decidable True)

/-- A thread that makes a call, or goes on with one, is linked. -/
theorem Kept.running_linked (h : v.Kept) (hk : v.HandlesOk) (hf : v.fault = false)
    (hs : v.Step a e v') (hd : v.Disarmed a) (ha : ∀ sp, a ≠ .tick sp) (hr : v.run = some t)
    (hp : v.pc t ≠ .none) : v.linked t = true := by
  cases hb : blocksOn (v.pc t) with
  | some o =>
      have hret : ∃ c r, v.pc t = .ret c r := by
        cases hpc : v.pc t with
        | ret c r => exact ⟨c, r, rfl⟩
        | _ =>
            rw [hpc] at hb
            cases hb
      obtain ⟨c, r, hpc⟩ := hret
      have hi := hs.of_ret ha hr hpc
      refine hk.waiting.granted t o hb fun hm => ?_
      exact hk.waiting.running_not_blocking hf hr hi ((hk.waiting.blocking t).2 ⟨o, hb, hm⟩)
  | none =>
      rcases h.stored t hp hb with hl | hsl | hdl
      · exact hl
      · rcases (hk.sleeping.asleep hf t hsl).place with ⟨n, hpc⟩ | ⟨⟨n, hpc⟩, -, hi⟩
        · exact (h.pausing t n hpc).2.1
        · have hi' := hs.of_ret ha hr hpc
          rw [hi hr] at hi'
          cases hi'
      · have htimed := hk.armed t hdl
        exact absurd hdl (hd (hs.of_timed ha hr htimed) t hr htimed)

/-- A thread that was not there is linked when it starts. -/
theorem Step.starts (hs : v.Step a e v') (hp : v.pc u = .none) (hp' : v'.pc u ≠ .none) :
    v'.linked u = true := by
  have hold : ∀ {t : TaskId} {p q : Pc} {f : TaskId → Pc}, f = v.pc → v.pc t = q → q ≠ .none →
      Function.update f t p u = .none := by
    rintro t p q f rfl ht hq
    rw [Function.update_of_ne, hp]
    rintro rfl
    exact hq (ht.symm.trans hp)
  have htimed : ∀ (o : Obj) (n : SizeT) (b : Bool), o.timedPc n b ≠ .none := by
    intro o n b
    cases o <;> simp [Obj.timedPc]
  cases hs with
  | @create r p i hr hi | @thrdCreate _ r p i hr hu hi =>
      rcases eq_or_ne u (.slot i) with rfl | hne
      · exact Function.update_self _ _ _
      · exact absurd ((Function.update_of_ne hne _ _).trans hp) hp'
  | createFails | launch | fails | take | tryTake | trySteal => exact absurd hp hp'
  | signal o hr hu hh hs => exact absurd ((congrFun hs.pc_eq u).trans hp) hp'
  | tick sp hr ht => exact absurd ((congrFun ht.pc u).trans hp) hp'
  | yields c hr hu hc => exact absurd (hold rfl hu (by simp)) hp'
  | sleep n hn hr hu => exact absurd (hold rfl hu (by simp)) hp'
  | exit r hr hu => exact absurd (hold rfl hu (by simp)) hp'
  | ret c r hr hi hu => exact absurd (hold rfl hu (by simp)) hp'
  | timedTake o n hr hu hb => exact absurd (hold rfl hu (by simp)) hp'
  | timedZero o n hn hr hu hb => exact absurd (hold rfl hu (by simp)) hp'
  | timedLeave o n b hr hi hu hst hm => exact absurd (hold rfl hu (htimed o n b)) hp'
  | block o hr hu hb hl | timedBlock o n hn hr hu hb hl | pause n hr hi hu hl | kill hr hi hu hl =>
      obtain ⟨l, f, rfl, -⟩ := hl.eq
      exact absurd (hold rfl hu (by simp)) hp'
  | rollback n timeout hr hi hu hst hv => exact absurd (hold hv.pc_eq hu (by simp)) hp'

/-- Only `thrd_sleep` brings a thread to its pause. -/
theorem Step.to_sleepPause (hs : v.Step a e v') {n : SizeT} (hp : v'.pc u = .sleepPause n) :
    v.pc u = .sleepPause n ∨ v.run = some u ∧ v.pc u = .user ∧ n ≠ 0 ∧ a = .call (.thrdSleep n) ∧
      v'.run = some u ∧ v'.linked = v.linked ∧ v'.sleepers = pushed u v.sleepers := by
  have htimed : ∀ (o : Obj) (m : SizeT) (b : Bool), o.timedPc m b ≠ .sleepPause n := by
    intro o m b
    cases o <;> simp [Obj.timedPc]
  cases hs with
  | createFails | launch | fails | take | tryTake | trySteal => exact .inl hp
  | signal o hr hu hh hs => exact .inl (hs.pc_eq ▸ hp)
  | tick sp hr ht => exact .inl (ht.pc ▸ hp)
  | create r p i hr hi | thrdCreate r p i hr hu hi => exact .inl (update_pc (by simp) hp)
  | yields | exit | ret | timedLeave => exact .inl (update_pc (by simp) hp)
  | timedTake o m hr hu hb => exact .inl (update_pc (htimed o m true) hp)
  | timedZero o m hm hr hu hb => exact .inl (update_pc (htimed o m false) hp)
  | timedBlock o m hm hr hu hb hl =>
      obtain ⟨l, f, rfl, -⟩ := hl.eq
      exact .inl (update_pc (htimed o m false) hp)
  | block o hr hu hb hl | pause m hr hi hu hl | kill hr hi hu hl =>
      obtain ⟨l, f, rfl, -⟩ := hl.eq
      exact .inl (update_pc (by simp) hp)
  | rollback m timeout hr hi hu hst hv =>
      have hp' := update_pc (by simp) hp
      rw [hv.pc_eq] at hp'
      exact .inl hp'
  | @sleep t m hm hr hu =>
      rcases update_pc_cases hp with ⟨rfl, hq⟩ | hq
      · cases hq
        exact .inr ⟨hr, hu, hm, rfl, hr, rfl, rfl⟩
      · exact .inl hq

theorem Kept.tick (h : v.Kept) {woken expired : Multiset ThrdPtr} (ht : v.Ticks v' woken expired)
    {sp : Addr} (hw : v.Whole (.tick sp)) : v'.Kept := by
  constructor
  case stored =>
      intro t hp hb
      rw [ht.pc] at hp hb
      rcases h.stored t hp hb with hl | hs | hd
      · exact .inl ((ht.linked t).2 (.inl hl))
      · rw [ht.sleepers] at hs
        rcases Multiset.mem_add.1 hs with hs | hs
        · exact .inl ((ht.linked t).2 (.inr (.inl hs)))
        · exact .inr (.inl hs)
      · rw [ht.deadlines] at hd
        rcases Multiset.mem_add.1 hd with hd | hd
        · exact .inl ((ht.linked t).2 (.inr (.inr hd)))
        · exact .inr (.inr hd)
  case pausing =>
      intro t n hp
      rw [ht.pc] at hp
      have hno := hw t (h.pausing t n hp).1
      rw [hp] at hno
      cases hno

theorem Kept.step (h : v.Kept) (hk : v.HandlesOk) (hf : v.fault = false) (hs : v.Step a e v')
    (hd : v.Disarmed a) (hroom : v.Room a) (hw : v.Whole a) : v'.Kept := by
  rcases Classical.em (∃ sp, a = .tick sp) with ⟨sp, rfl⟩ | hnt
  · cases hs with
    | tick sp hr ht => exact h.tick ht hw
  · have ha : ∀ sp, a ≠ .tick sp := fun sp he => hnt ⟨sp, he⟩
    constructor
    case stored =>
        intro u hp' hb'
        rcases Classical.em (v.pc u = .none) with hp | hp
        · exact .inl (hs.starts hp hp')
        · rcases Classical.em (v.run = some u) with hr | hr
          · have hl := h.running_linked hk hf hs hd ha hr hp
            rcases hs.keeps_linked hl with hl' | ⟨-, -, ⟨o, hw, -⟩ |
              ⟨o, n, hn, hbusy, rfl, hpush, -⟩ | ⟨-, n, hn⟩ | ⟨-, -, hn⟩⟩
            · exact .inl hl'
            · rw [hw, blocksOn_waitCall] at hb'
              cases hb'
            · refine .inr (.inr ?_)
              rw [hpush]
              apply mem_pushed_self
              cases o with
              | sem m => exact hroom hn hbusy
              | mtx m => exact hroom hn hbusy
            · exact .inr (.inl ((hs.keeps_entries ha).1 (h.pausing u n hn).2.2))
            · exact absurd hn hp'
          · have hpc : v'.pc u = v.pc u := by
              rcases hs.pc_eq with hpc | ⟨w, p, hpc, hw, -⟩
              · rw [hpc]
              · rw [hpc, Function.update_of_ne]
                rintro rfl
                rcases hw with ⟨hw, -⟩ | ⟨-, -, hw⟩
                · exact hr hw
                · exact hp hw
            rw [hpc] at hb'
            rcases h.stored u hp hb' with hl | hsl | hdl
            · rcases hs.keeps_linked hl with hl' | ⟨hr', -⟩
              · exact .inl hl'
              · exact absurd hr' hr
            · exact .inr (.inl ((hs.keeps_entries ha).1 hsl))
            · exact .inr (.inr ((hs.keeps_entries ha).2 hdl))
    case pausing =>
        intro u n hp'
        rcases hs.to_sleepPause hp' with hp | ⟨hr, hu, hn, rfl, hr', hl, hpush⟩
        · rw [(hs.of_sleepPause ha (h.pausing u n hp).1 hp).1] at hp'
          cases hp'
        · refine ⟨hr', ?_, ?_⟩
          · rw [hl]
            exact h.running_linked hk hf hs hd ha hr (by rw [hu]; simp)
          · rw [hpush]
            exact mem_pushed_self (hroom hn)

end View

/-! ## Runs -/

namespace Sys

variable {s : Sys} {t : TaskId} {a : Action} {vals : Nat → Nat} {h : List (Option Event)}

/-- The handles stay in order, the queues have room, and `os_task_sleep` is not interrupted. -/
def KeepGuard (s : Sys) (a : Action) : Prop := s.HandleGuard a ∧ s.view.Room a ∧ s.view.Whole a

instance (s : Sys) (a : Action) : Decidable (s.KeepGuard a) :=
  inferInstanceAs (Decidable (_ ∧ _ ∧ _))

theorem boot_kept : (boot vals).view.Kept where
  stored := by
    intro t ht
    cases t with
    | idle => exact absurd rfl ht
    | slot i => exact absurd rfl ht
  pausing := by
    intro t n hp
    cases t with
    | idle => cases hp
    | slot i => cases hp

theorem run_kept (hv : ValidVals vals) (hr : (system vals).Run KeepGuard h s) :
    s.Sound ∧ s.view.HandlesOk ∧ s.view.Kept := by
  refine run_view (P := fun _ v => v.HandlesOk ∧ v.Kept) hr (fun _ _ hg => hg.1.1)
    ⟨boot_handlesOk hv, boot_kept⟩ ?_
  rintro h s s' a e _ hf ⟨hk, hl⟩ ⟨hg, hroom, hw⟩ _ hs
  exact ⟨hk.step hf hs hg.2.1 hg.2.2, hl.step hk hf hs hg.2.2 hroom hw⟩

/-- Every live thread is linked, in `sleep_queue`, in `t_waitqueue`, or in the wait queue of the
object it has blocked on. -/
theorem live_threads_kept (hv : ValidVals vals) (hr : (system vals).Run KeepGuard h s)
    (ht : s.pc t ≠ .none) :
    s.k.runQueue.linked t = true ∨ some t ∈ s.k.sleepQueue.handles ∨
      some t ∈ s.k.tWaitqueue.handles ∨
      ∃ o, blocksOn (s.pc t) = some o ∧ some t ∈ (s.k.wq o).toList := by
  obtain ⟨-, hk, hl⟩ := run_kept hv hr
  cases hb : blocksOn (s.pc t) with
  | none =>
      rcases hl.stored t ht hb with hlinked | hsleeps | hwaits
      · exact .inl hlinked
      · exact .inr (.inl hsleeps)
      · exact .inr (.inr (.inl hwaits))
  | some o =>
      rcases Classical.em (some t ∈ (s.k.wq o).toList) with hm | hm
      · exact .inr (.inr (.inr ⟨o, rfl, hm⟩))
      · exact .inl (hk.waiting.granted t o hb hm)

/-- The first thread sleeps, the second has blocked on a semaphore. -/
theorem live_threads_kept_two_threads :
    ∃ h s, (system fun _ => 0).Run KeepGuard h s ∧
      (s.pc (.slot 15) ≠ .none ∧ s.k.runQueue.linked (.slot 15) = false ∧
        s.pc (.slot 14) ≠ .none ∧ s.k.runQueue.linked (.slot 14) = false) ∧
      ∀ t, s.pc t ≠ .none → s.k.runQueue.linked t = true ∨ some t ∈ s.k.sleepQueue.handles ∨
        some t ∈ s.k.tWaitqueue.handles ∨
        ∃ o, blocksOn (s.pc t) = some o ∧ some t ∈ (s.k.wq o).toList := by
  rcases exists_run (fun _ => 0) (G := KeepGuard)
    [.create 1 1, .create 1 1, .launch, .call (.thrdSleep 8), .resume, .tick 0, .call (.semWait 0)]
    (P := fun _ s => s.pc (.slot 15) ≠ .none ∧ s.k.runQueue.linked (.slot 15) = false ∧
      s.pc (.slot 14) ≠ .none ∧ s.k.runQueue.linked (.slot 14) = false)
    (by decide +kernel) with ⟨h, s, hr, hd⟩
  exact ⟨h, s, hr, hd, fun t ht => live_threads_kept (fun _ => Nat.zero_le _) hr ht⟩

/-- `sleep_queue` has room for fifteen entries: the last of sixteen threads that go to sleep is
unlinked, and in no queue. -/
theorem sixteenth_sleeper_lost :
    ∃ h s, (system fun _ => 0).Run (fun _ _ => True) h s ∧ s.k.sleepQueue.count = 15 ∧
      s.pc (.slot 0) = .ret (.thrdSleep 100) 0 ∧ s.k.runQueue.linked (.slot 0) = false ∧
      some (.slot 0) ∉ s.k.sleepQueue.handles ∧ some (.slot 0) ∉ s.k.tWaitqueue.handles ∧
      blocksOn (s.pc (.slot 0)) = none :=
  exists_run (fun _ => 0)
    (List.replicate 16 (.create 1 1) ++ .launch ::
      (List.replicate 16 [.call (.thrdSleep 100), .resume, .tick 0]).flatten)
    (by decide +kernel)

end Sys

end MsTos
