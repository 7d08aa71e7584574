-- SUMMARY: The handles in the queues: when each is that of a thread that still sleeps or waits, and how a deadline outlives its wait.
import MsTos.Blocking

namespace MsTos

/-! ## What a step leaves alone -/

namespace View

variable {v v' : View} {o : Obj} {t u : TaskId} {a : Action} {e : Option Event}

theorem Signals.frame (hs : v.Signals o t v') (hw : some u ∉ v.waiters o) :
    (v'.thrds u).state = (v.thrds u).state ∧ v'.linked u = v.linked u := by
  cases hs with
  | free | crash => exact ⟨restored_state, rfl⟩
  | @grant w l hv hq =>
      have hne : u ≠ w := by
        rintro rfl
        exact hw (hq ▸ List.mem_cons_self)
      refine ⟨?_, Function.update_of_ne hne _ _⟩
      show (v.handed o t w u).state = _
      rw [handed_state, if_neg hne]

/-- Between ticks, nothing changes for a thread that is not running and does not wait. -/
theorem Waiting.frame (h : v.Waiting) (hs : v.Step a e v') (ha : ∀ sp, a ≠ .tick sp)
    (hr : v.run ≠ some u) (hp : v.pc u ≠ .none) (hw : waitsOn (v.pc u) = none) :
    v'.pc u = v.pc u ∧ (v'.thrds u).state = (v.thrds u).state ∧ v'.linked u = v.linked u := by
  have hne : ∀ {t : TaskId}, v.run = some t → u ≠ t := by
    rintro t ht rfl
    exact hr ht
  have hslot : ∀ {i : Fin numThreads}, v.pc (.slot i) = .none → u ≠ .slot i := by
    rintro i hi rfl
    exact hp hi
  have hq := h.not_waiter hw
  cases hs with
  | create r p i hn hi | thrdCreate r p i hr' hu hi =>
      have hui := hslot hi
      refine ⟨Function.update_of_ne hui _ _, ?_, Function.update_of_ne hui _ _⟩
      show (v.setThrd (.slot i) _ u).state = _
      rw [setThrd_state, if_neg hui]
  | createFails | launch | fails | take | tryTake | trySteal => exact ⟨rfl, rfl, rfl⟩
  | yields c hr' hu hc => exact ⟨Function.update_of_ne (hne hr') _ _, rfl, rfl⟩
  | exit r hr' hu => exact ⟨Function.update_of_ne (hne hr') _ _, rfl, rfl⟩
  | ret c r hr' hi hu => exact ⟨Function.update_of_ne (hne hr') _ _, rfl, rfl⟩
  | timedTake o n hr' hu hb => exact ⟨Function.update_of_ne (hne hr') _ _, rfl, rfl⟩
  | timedLeave o n b hr' hi hu hst hm => exact ⟨Function.update_of_ne (hne hr') _ _, rfl, rfl⟩
  | timedZero o n hn hr' hu hb => exact ⟨Function.update_of_ne (hne hr') _ _, boosted_state, rfl⟩
  | @block t v₁ o hr' hu hb hl =>
      obtain ⟨l, f, rfl, hlu, -⟩ := hl.eq
      refine ⟨Function.update_of_ne (hne hr') _ _, ?_, hlu u (hne hr')⟩
      show ((v.enqueue o t).setThrd t _ u).state = _
      rw [setThrd_state, if_neg (hne hr')]
      exact boosted_state
  | @timedBlock t v₁ o n hn hr' hu hb hl =>
      obtain ⟨l, f, rfl, hlu, -⟩ := hl.eq
      refine ⟨Function.update_of_ne (hne hr') _ _, ?_, hlu u (hne hr')⟩
      show (View.setThrd _ t _ u).state = _
      rw [setThrd_state, if_neg (hne hr')]
      exact boosted_state
  | signal o hr' hu hh hs =>
      exact ⟨congrFun hs.pc_eq u, hs.frame (hq o)⟩
  | @sleep t n hn hr' hu =>
      refine ⟨Function.update_of_ne (hne hr') _ _, ?_, rfl⟩
      show (View.setThrd _ t _ u).state = _
      rw [setThrd_state, if_neg (hne hr')]
  | pause n hr' hi hu hl | kill hr' hi hu hl =>
      obtain ⟨l, f, rfl, hlu, -⟩ := hl.eq
      exact ⟨Function.update_of_ne (hne hr') _ _, rfl, hlu u (hne hr')⟩
  | @rollback t v₁ n timeout hr' hi hu hst hv =>
      have hfr := hv.frame (hq (.sem n))
      refine ⟨(Function.update_of_ne (hne hr') _ _).trans (congrFun hv.pc_eq u), ?_, hfr.2⟩
      refine hfr.1.trans ?_
      show (v.setThrd t _ u).state = _
      rw [setThrd_state, if_neg (hne hr')]
  | tick sp hr' ht => exact absurd rfl (ha sp)

/-! ## Sleepers -/

/-- `t` sleeps: it is about to leave the run queue, or has left it, and the next tick replaces it. -/
structure Asleep (v : View) (t : TaskId) : Prop where
  state : (v.thrds t).state = .SLEEPING
  place : (∃ n, v.pc t = .sleepPause n) ∨ (∃ n, v.pc t = .ret (.thrdSleep n) 0) ∧
    v.linked t = false ∧ (v.run = some t → v.ifg = true)

/-- The sleep of a thread at `pc` is not over. -/
def sleeps (pc : Pc) : Bool :=
  match pc with
  | .sleepPause _ | .ret (.thrdSleep _) _ => true
  | _ => false

theorem waitsOn_of_sleeps {p : Pc} (h : sleeps p = true) : p ≠ .none ∧ waitsOn p = none := by
  cases p with
  | sleepPause n => exact ⟨by simp, rfl⟩
  | ret c r =>
      cases c with
      | thrdSleep n => exact ⟨by simp, rfl⟩
      | _ => cases h
  | _ => cases h

/-- The entries of `sleep_queue` are those of threads that sleep, one for each. -/
structure Sleeping (v : View) : Prop where
  nodup : v.sleepers.Nodup
  pc : ∀ t, some t ∈ v.sleepers → sleeps (v.pc t) = true
  asleep : v.fault = false → ∀ t, some t ∈ v.sleepers → v.Asleep t

/-- What becomes of the running thread when it is about to pause. -/
theorem Step.of_sleepPause (hs : v.Step a e v') (ha : ∀ sp, a ≠ .tick sp) (hr : v.run = some t)
    {n : SizeT} (hp : v.pc t = .sleepPause n) : v'.pc t = .ret (.thrdSleep n) 0 ∧ v'.ifg = true ∧
      v'.thrds = v.thrds ∧ v'.run = v.run ∧ v'.sleepers = v.sleepers ∧
      (v'.fault = false → v'.linked t = false) ∧
      ∀ u, u ≠ t → v'.linked u = v.linked u := by
  have hno : ∀ {u : TaskId} {q : Pc}, v.run = some u → v.pc u = q → q = .sleepPause n := by
    intro u q hu hq
    cases hr.symm.trans hu
    exact hq.symm.trans hp
  cases hs with
  | @pause u v₁ n' hr' hi hu hl =>
      cases hno hr' hu
      cases hr.symm.trans hr'
      obtain ⟨l, f, rfl, hne, hf⟩ := hl.eq
      exact ⟨Function.update_self _ _ _, rfl, rfl, rfl, rfl, fun h => (hf h).2, hne⟩
  | create r p i hn | createFails r p hn | launch hn => cases hr.symm.trans hn
  | thrdCreate r p i hr' hu | fails c hr' hu | yields c hr' hu | take o hr' hu | tryTake m hr' hu
  | trySteal m hr' hu | block o hr' hu | timedTake o m hr' hu | timedZero o m hm hr' hu
  | timedBlock o m hm hr' hu | signal o hr' hu | sleep m hm hr' hu | exit r hr' hu =>
      cases hno hr' hu
  | ret c r hr' hi hu | rollback m timeout hr' hi hu | kill hr' hi hu => cases hno hr' hu
  | timedLeave o m b hr' hi hu => cases o <;> cases hno hr' hu
  | tick sp hr' ht => exact absurd rfl (ha sp)

/-- A thread that returns from a call finds no tick requested. -/
theorem Step.of_ret (hs : v.Step a e v') (ha : ∀ sp, a ≠ .tick sp) (hr : v.run = some t)
    {c : Call} {r : Int} (hp : v.pc t = .ret c r) : v.ifg = false := by
  have hno : ∀ {u : TaskId} {q : Pc}, v.run = some u → v.pc u = q → q = .ret c r := by
    intro u q hu hq
    cases hr.symm.trans hu
    exact hq.symm.trans hp
  cases hs with
  | create r p i hn | createFails r p hn | launch hn => cases hr.symm.trans hn
  | thrdCreate r p i hr' hu | fails c hr' hu | yields c hr' hu | take o hr' hu | tryTake m hr' hu
  | trySteal m hr' hu | block o hr' hu | timedTake o m hr' hu | timedZero o m hm hr' hu
  | timedBlock o m hm hr' hu | signal o hr' hu | sleep m hm hr' hu | exit r hr' hu =>
      cases hno hr' hu
  | ret c r hr' hi hu | rollback m timeout hr' hi hu | kill hr' hi hu | pause m hr' hi hu
  | timedLeave o m b hr' hi hu => exact hi
  | tick sp hr' ht => exact absurd rfl (ha sp)

/-- Only `thrd_sleep` and ticks change the sleepers. -/
theorem Step.sleepers (hs : v.Step a e v') (ha : ∀ sp, a ≠ .tick sp) : v'.sleepers = v.sleepers ∨
    ∃ t n, v.run = some t ∧ v.pc t = .user ∧ v'.sleepers = pushed t v.sleepers ∧
      v'.pc t = .sleepPause n ∧ (v'.thrds t).state = .SLEEPING := by
  cases hs with
  | block o hr hu hb hl | timedBlock o n hn hr hu hb hl | pause n hr hi hu hl | kill hr hi hu hl =>
      obtain ⟨l, f, rfl, -⟩ := hl.eq
      exact .inl rfl
  | signal o hr hu hh hs => cases hs <;> exact .inl rfl
  | rollback n timeout hr hi hu hst hv => cases hv <;> exact .inl rfl
  | @sleep t n hn hr hu =>
      refine .inr ⟨t, n, hr, hu, rfl, Function.update_self _ _ _, ?_⟩
      show (View.setThrd _ t _ t).state = _
      rw [setThrd_state, if_pos rfl]
  | tick sp hr ht => exact absurd rfl (ha sp)
  | _ => exact .inl rfl

/-- A sleeping thread goes on sleeping. -/
theorem Asleep.step (h : v.Asleep u) (hw : v.Waiting) (hs : v.Step a e v')
    (ha : ∀ sp, a ≠ .tick sp) (hl : a ≠ .launch) (hf : v'.fault = false) : v'.Asleep u := by
  have hrun : v'.run = v.run := by
    rcases hs.run_eq with hr | hr | ⟨sp, hr⟩
    · exact hr
    · exact absurd hr hl
    · exact absurd hr (ha sp)
  rcases Classical.em (v.run = some u) with hr | hr
  · rcases h.place with ⟨n, hp⟩ | ⟨⟨n, hp⟩, -, hi⟩
    · obtain ⟨hp', hi', ht, -, -, hlk, -⟩ := hs.of_sleepPause ha hr hp
      refine ⟨?_, .inr ⟨⟨n, hp'⟩, hlk hf, fun _ => hi'⟩⟩
      rw [ht]
      exact h.state
    · have hi' := hs.of_ret ha hr hp
      rw [hi hr] at hi'
      cases hi'
  · have hsl : sleeps (v.pc u) = true := by
      rcases h.place with ⟨n, hp⟩ | ⟨⟨n, hp⟩, -⟩
      · rw [hp]
        rfl
      · rw [hp]
        rfl
    have hwt := waitsOn_of_sleeps hsl
    obtain ⟨hp', hst, hlk⟩ := hw.frame hs ha hr hwt.1 hwt.2
    refine ⟨hst.trans h.state, ?_⟩
    rw [hp', hlk, hrun]
    exact h.place.imp_right fun hp => ⟨hp.1, hp.2.1, fun hru => absurd hru hr⟩

theorem Asleep.sleeps (h : v.Asleep u) : View.sleeps (v.pc u) = true := by
  rcases h.place with ⟨n, hp⟩ | ⟨⟨n, hp⟩, -⟩
  · rw [hp]
    rfl
  · rw [hp]
    rfl

/-- A tick wakes a sleeper once, and replaces it until then. -/
theorem Sleeping.tick (h : v.Sleeping) (hd : ∀ t, some t ∈ v.deadlines → timesOn (v.pc t) ≠ none)
    {woken expired : Multiset ThrdPtr} (ht : v.Ticks v' woken expired) (hi : v.pc .idle = .none) :
    v'.Sleeping := by
  have hnd := h.nodup
  rw [ht.sleepers] at hnd
  have hmem : ∀ {u : TaskId}, some u ∈ v'.sleepers → some u ∈ v.sleepers := fun hu => by
    rw [ht.sleepers]
    exact Multiset.mem_add.2 (.inr hu)
  constructor
  case nodup => exact (Multiset.nodup_add.1 hnd).2.1
  case pc =>
      intro u hu
      rw [ht.pc]
      exact h.pc u (hmem hu)
  case asleep =>
      intro hf u hu
      have has := h.asleep (ht.fault hf).1 u (hmem hu)
      have hw : some u ∉ woken := fun hw =>
        Multiset.disjoint_left.1 (Multiset.nodup_add.1 hnd).2.2 hw hu
      have hx : some u ∉ expired := by
        intro hx
        apply hd u
        · rw [ht.deadlines]
          exact Multiset.mem_add.2 (.inl hx)
        · have hwt := (waitsOn_of_sleeps has.sleeps).2
          exact (Option.or_eq_none_iff.1 hwt).2
      have hst : (v'.thrds u).state = .SLEEPING := by
        obtain ⟨w, he⟩ := ht.thrds u
        rw [he]
        exact (if_neg hw).trans has.state
      refine ⟨hst, ?_⟩
      rw [ht.pc]
      refine has.place.imp_right fun hp => ⟨hp.1, ?_, ?_⟩
      · rw [Bool.eq_false_iff, ne_eq, ht.linked u]
        simp [hp.2.1, hw, hx]
      · intro hr
        have hlk : v'.linked u = false := by
          rw [Bool.eq_false_iff, ne_eq, ht.linked u]
          simp [hp.2.1, hw, hx]
        rcases ht.run with hn | ⟨x, hrx, hlx⟩ | ⟨hid, -⟩ | ⟨hk, -, hact⟩
        · exact absurd hn (ht.fault hf).2
        · cases hr.symm.trans hrx
          exact absurd (hlk.symm.trans hlx) Bool.false_ne_true
        · cases hr.symm.trans hid
          obtain ⟨n, hp⟩ := hp.1
          rw [hi] at hp
          cases hp
        · exact absurd hst (hact u (hk.symm.trans hr)).2.1

/-- The sleep of a sleeping thread is not over after a step. -/
theorem Asleep.sleeps_step (h : v.Asleep u) (hw : v.Waiting) (hs : v.Step a e v')
    (ha : ∀ sp, a ≠ .tick sp) : View.sleeps (v'.pc u) = true := by
  rcases Classical.em (v.run = some u) with hr | hr
  · rcases h.place with ⟨n, hp⟩ | ⟨⟨n, hp⟩, -, hi⟩
    · rw [(hs.of_sleepPause ha hr hp).1]
      rfl
    · have hi' := hs.of_ret ha hr hp
      rw [hi hr] at hi'
      cases hi'
  · have hwt := waitsOn_of_sleeps h.sleeps
    rw [(hw.frame hs ha hr hwt.1 hwt.2).1]
    exact h.sleeps

theorem Sleeping.step (h : v.Sleeping) (hw : v.Waiting) (hf : v.fault = false)
    (hd : ∀ t, some t ∈ v.deadlines → timesOn (v.pc t) ≠ none) (hs : v.Step a e v') :
    v'.Sleeping := by
  rcases Classical.em (∃ sp, a = .tick sp) with ⟨sp, rfl⟩ | hnt
  · cases hs with
    | tick sp hr ht => exact h.tick hd ht hw.idle
  · have ha : ∀ sp, a ≠ .tick sp := fun sp he => hnt ⟨sp, he⟩
    rcases Classical.em (a = .launch) with rfl | hl
    · cases hs with
      | launch hr hp =>
          refine ⟨h.nodup, h.pc, ?_⟩
          intro hf' u hu
          have has := h.asleep hf u hu
          refine ⟨has.state, has.place.imp_right fun hpl => ⟨hpl.1, hpl.2.1, ?_⟩⟩
          intro hru
          rcases hp with ⟨rfl, -⟩ | ⟨rfl, -⟩ | ⟨⟨x, rfl, hx⟩, -⟩
          · cases hru
          · cases hru
            obtain ⟨n, hpc⟩ := hpl.1
            rw [hw.idle] at hpc
            cases hpc
          · cases hru
            exact absurd (hpl.2.1.symm.trans hx) Bool.false_ne_true
    · rcases hs.sleepers ha with hsame | ⟨t, n, hr, hu, hpush, hpc, hst⟩
      · constructor
        case nodup =>
            rw [hsame]
            exact h.nodup
        case pc =>
            intro u hu
            rw [hsame] at hu
            exact (h.asleep hf u hu).sleeps_step hw hs ha
        case asleep =>
            intro hf' u hu
            rw [hsame] at hu
            exact (h.asleep hf u hu).step hw hs ha hl hf'
      · have ht : some t ∉ v.sleepers := by
          intro hm
          have hsl := h.pc t hm
          rw [hu] at hsl
          cases hsl
        constructor
        case nodup =>
            rw [hpush]
            exact nodup_pushed h.nodup ht
        case pc =>
            intro u hu
            rw [hpush] at hu
            rcases mem_pushed_some hu with rfl | hu
            · rw [hpc]
              rfl
            · exact (h.asleep hf u hu).sleeps_step hw hs ha
        case asleep =>
            intro hf' u hu
            rw [hpush] at hu
            rcases mem_pushed_some hu with rfl | hu
            · exact ⟨hst, .inl ⟨n, hpc⟩⟩
            · exact (h.asleep hf u hu).step hw hs ha hl hf'

/-! ## Deadlines -/

/-- The entries of `t_waitqueue` are those of threads whose timed wait is not over. -/
def Armed (v : View) : Prop := ∀ t, some t ∈ v.deadlines → timesOn (v.pc t) ≠ none

/-- A timed wait ends only with no entry left in `t_waitqueue`. -/
def Disarmed (v : View) (a : Action) : Prop :=
  a = .resume → ∀ t, v.run = some t → timesOn (v.pc t) ≠ none → some t ∉ v.deadlines

instance (v : View) (a : Action) : Decidable (v.Disarmed a) :=
  inferInstanceAs (Decidable (_ → ∀ _, _))

/-- Only timed waits and ticks change the deadlines. -/
theorem Step.deadlines (hs : v.Step a e v') (ha : ∀ sp, a ≠ .tick sp) :
    v'.deadlines = v.deadlines ∨ ∃ (t : TaskId) (o : Obj) (n : SizeT), v.run = some t ∧
      v'.deadlines = pushed t v.deadlines ∧ v'.pc t = o.timedPc n false := by
  cases hs with
  | block o hr hu hb hl | pause n hr hi hu hl | kill hr hi hu hl =>
      obtain ⟨l, f, rfl, -⟩ := hl.eq
      exact .inl rfl
  | @timedBlock t v₁ o n hn hr hu hb hl =>
      obtain ⟨l, f, rfl, -⟩ := hl.eq
      exact .inr ⟨t, o, n, hr, rfl, Function.update_self _ _ _⟩
  | signal o hr hu hh hs => cases hs <;> exact .inl rfl
  | rollback n timeout hr hi hu hst hv => cases hv <;> exact .inl rfl
  | tick sp hr ht => exact absurd rfl (ha sp)
  | _ => exact .inl rfl

/-- A thread in a timed wait goes on with it. -/
theorem Step.of_timed (hs : v.Step a e v') (ha : ∀ sp, a ≠ .tick sp) (hr : v.run = some t)
    (hp : timesOn (v.pc t) ≠ none) : a = .resume := by
  have hno : ∀ {u : TaskId}, v.run = some u → v.pc u = .user → False := by
    intro u hu hq
    cases hr.symm.trans hu
    rw [hq] at hp
    exact hp rfl
  cases hs with
  | create r p i hn | createFails r p hn | launch hn => cases hr.symm.trans hn
  | thrdCreate r p i hr' hu | fails c hr' hu | yields c hr' hu | take o hr' hu | tryTake m hr' hu
  | trySteal m hr' hu | block o hr' hu | timedTake o m hr' hu | timedZero o m hm hr' hu
  | timedBlock o m hm hr' hu | signal o hr' hu | sleep m hm hr' hu | exit r hr' hu =>
      exact (hno hr' hu).elim
  | ret | rollback | kill | pause | timedLeave => rfl
  | tick sp hr' ht => exact absurd rfl (ha sp)

theorem Armed.step (h : v.Armed) (hs : v.Step a e v') (hd : v.Disarmed a) : v'.Armed := by
  rcases Classical.em (∃ sp, a = .tick sp) with ⟨sp, rfl⟩ | hnt
  · cases hs with
    | tick sp hr ht =>
        intro u hu
        rw [ht.pc]
        apply h u
        rw [ht.deadlines]
        exact Multiset.mem_add.2 (.inr hu)
  · have ha : ∀ sp, a ≠ .tick sp := fun sp he => hnt ⟨sp, he⟩
    have hkeep : ∀ u, some u ∈ v.deadlines → timesOn (v'.pc u) ≠ none := by
      intro u hu
      have hold := h u hu
      rcases hs.pc_eq with hpc | ⟨w, p, hpc, hw, -⟩
      · rwa [hpc]
      · rcases eq_or_ne u w with rfl | hne
        · rcases hw with ⟨hr, -⟩ | ⟨-, -, hn⟩
          · exact absurd hu (hd (hs.of_timed ha hr hold) u hr hold)
          · rw [hn] at hold
            exact absurd rfl hold
        · rwa [hpc, Function.update_of_ne hne]
    intro u hu
    rcases hs.deadlines ha with hsame | ⟨t, o, n, hr, hpush, hpc⟩
    · exact hkeep u (hsame ▸ hu)
    · rw [hpush] at hu
      rcases mem_pushed_some hu with rfl | hu
      · rw [hpc]
        simp
      · exact hkeep u hu

/-! ## All handles -/

/-- Every handle is in its queue because of what its thread does now. -/
structure HandlesOk (v : View) : Prop where
  waiting : v.Waiting
  sleeping : v.Sleeping
  armed : v.Armed

theorem timesOn_of_blocksOn {p : Pc} (h : blocksOn p = some o) : timesOn p = none := by
  cases p with
  | ret c r => rfl
  | _ => cases h

/-- No blocked thread has an entry among the sleepers or the deadlines. -/
theorem HandlesOk.spares (h : v.HandlesOk) (hf : v.fault = false) (a : Action) (v' : View) :
    v.Spares a v' := by
  intro sp _ t hb hm
  rcases mem_taken hm with hm | hm
  · rw [(h.sleeping.asleep hf t hm).state] at hb
    cases hb
  · obtain ⟨o, ho, -⟩ := (h.waiting.blocking t).1 hb
    exact h.armed t hm (timesOn_of_blocksOn ho)

theorem HandlesOk.step (h : v.HandlesOk) (hf : v.fault = false) (hs : v.Step a e v')
    (hq : v.Unqueued a) (hd : v.Disarmed a) : v'.HandlesOk where
  waiting := h.waiting.step hf hs hq (h.spares hf a v')
  sleeping := h.sleeping.step h.waiting hf h.armed hs
  armed := h.armed.step hs hd

/-- Only threads that are there are linked by a tick or a signal. -/
theorem HandlesOk.links_live (h : v.HandlesOk) (hs : v.Step a e v')
    (ha : (∃ sp, a = .tick sp) ∨ ∃ o : Obj, a = .call o.signalCall) (hl : v'.linked t = true) :
    v.linked t = true ∨ v.pc t ≠ .none := by
  have hpc : v'.pc = v.pc := by
    cases hs with
    | fails => rfl
    | signal o hr hu hh hs => exact hs.pc_eq
    | tick sp hr ht => exact ht.pc
    | yields c hr hu hc =>
        rcases ha with ⟨sp, he⟩ | ⟨o, he⟩
        · cases he
        · cases he
          cases o <;> simp [Obj.signalCall] at hc
    | take o' | block o' | timedTake o' | timedZero o' | timedBlock o' =>
        rcases ha with ⟨sp, he⟩ | ⟨o, he⟩
        · cases he
        · cases o' <;> cases o <;> cases he
    | _ =>
        rcases ha with ⟨sp, he⟩ | ⟨o, he⟩
        · cases he
        · cases o <;> cases he
  cases hl₀ : v.linked t with
  | true => exact .inl rfl
  | false =>
      right
      rcases hs.linked hl₀ hl with ⟨hn, hu⟩ | ⟨o, l, hw, -⟩ | ⟨sp, -, hm⟩
      · rw [hpc, hn] at hu
        cases hu
      · intro hn
        have hwt := h.waiting.waiter_some (o := o) (by rw [hw]; exact List.mem_cons_self)
        rw [hn] at hwt
        cases hwt
      · rcases mem_taken hm with hm | hm
        · exact (waitsOn_of_sleeps (h.sleeping.pc t hm)).1
        · intro hn
          apply h.armed t hm
          rw [hn]
          rfl

end View

/-! ## Runs -/

namespace Sys

variable {s s' : Sys} {t : TaskId} {a : Action} {e : Option Event} {vals : Nat → Nat}
  {h : List (Option Event)}

/-- The step is regular, and a timed wait that ends has left its wait queue and `t_waitqueue`. -/
def HandleGuard (s : Sys) (a : Action) : Prop :=
  s.Regular a ∧ s.view.Unqueued a ∧ s.view.Disarmed a

instance (s : Sys) (a : Action) : Decidable (s.HandleGuard a) :=
  inferInstanceAs (Decidable (_ ∧ _ ∧ _))

theorem boot_handlesOk (hv : ValidVals vals) : (boot vals).view.HandlesOk where
  waiting := boot_waiting hv
  sleeping := ⟨Multiset.nodup_zero, fun _ ht => absurd ht (Multiset.notMem_zero _),
    fun _ _ ht => absurd ht (Multiset.notMem_zero _)⟩
  armed := fun _ ht => absurd ht (Multiset.notMem_zero _)

/-- Along every run that meets the conditions, the handles in the queues are in order. -/
theorem run_handlesOk (hv : ValidVals vals) (hr : (system vals).Run HandleGuard h s) :
    s.Sound ∧ s.view.HandlesOk := by
  refine run_view (P := fun _ v => v.HandlesOk) hr (fun _ _ hg => hg.1) (boot_handlesOk hv) ?_
  intro h s s' a e _ hf hk hg _ hs
  exact hk.step hf hs hg.2.1 hg.2.2

/-- A tick and `sem_post` are regular steps. -/
theorem regular_tick (sp : Addr) : s.Regular (.tick sp) := ⟨nofun, fun _ _ => trivial⟩

theorem regular_semPost (n : Nat) : s.Regular (.call (.semPost n)) := ⟨nofun, fun _ _ => trivial⟩

/-- Every handle in `sleep_queue`, in `t_waitqueue` and in a wait queue is that of a live thread in the
sleep or the wait that put it there, and neither a tick nor `sem_post` links a slot that has been
freed. -/
theorem handles_current (hv : ValidVals vals) (hr : (system vals).Run HandleGuard h s) :
    (∀ p ∈ s.k.sleepQueue.handles, ∃ t, p = some t ∧ s.pc t ≠ .none ∧
      View.sleeps (s.pc t) = true) ∧
    (∀ p ∈ s.k.tWaitqueue.handles, ∃ t, p = some t ∧ s.pc t ≠ .none ∧
      ∃ o, timesOn (s.pc t) = some o) ∧
    (∀ o, ∀ p ∈ (s.k.wq o).toList, ∃ t, p = some t ∧ s.pc t ≠ .none ∧
      waitsOn (s.pc t) = some o) ∧
    ∀ a e s', s.step a = some (e, s') → ((∃ sp, a = .tick sp) ∨ ∃ n, a = .call (.semPost n)) →
      ∀ t, s'.k.runQueue.linked t = true → s.k.runQueue.linked t = true ∨ s.pc t ≠ .none := by
  obtain ⟨hsound, hk⟩ := run_handlesOk hv hr
  refine ⟨?_, ?_, ?_, ?_⟩
  · intro p hp
    cases p with
    | none => exact absurd hp hsound.good.sleepers
    | some t =>
        have hsl := hk.sleeping.pc t hp
        exact ⟨t, rfl, (View.waitsOn_of_sleeps hsl).1, hsl⟩
  · intro p hp
    cases p with
    | none => exact absurd hp hsound.good.deadlines
    | some t =>
        have hne := hk.armed t hp
        refine ⟨t, rfl, ?_, Option.ne_none_iff_exists'.1 hne⟩
        intro hn
        rw [show s.view.pc t = _ from hn] at hne
        exact hne rfl
  · intro o p hp
    obtain ⟨t, rfl, hw⟩ := hk.waiting.waiter o p hp
    refine ⟨t, rfl, ?_, hw⟩
    intro hn
    rw [show s.view.pc t = _ from hn] at hw
    cases hw
  · intro a e s' hs ha t hl
    rcases ha with ⟨sp, rfl⟩ | ⟨n, rfl⟩
    · exact hk.links_live (step_refines hsound (regular_tick sp) hs).2 (.inl ⟨sp, rfl⟩) hl
    · exact hk.links_live (step_refines hsound (regular_semPost n) hs).2 (.inr ⟨.sem n, rfl⟩) hl

/-- One thread sleeps, and one waits with a deadline, for the second time: its first wait has ended. -/
theorem handles_current_two_threads :
    ∃ h s, (system fun _ => 0).Run HandleGuard h s ∧
      s.k.sleepQueue.handles = {some (.slot 14)} ∧ s.k.tWaitqueue.handles = {some (.slot 15)} ∧
      (∀ p ∈ s.k.sleepQueue.handles, ∃ t, p = some t ∧ s.pc t ≠ .none ∧
        View.sleeps (s.pc t) = true) ∧
      (∀ p ∈ s.k.tWaitqueue.handles, ∃ t, p = some t ∧ s.pc t ≠ .none ∧
        ∃ o, timesOn (s.pc t) = some o) ∧
      (∀ o, ∀ p ∈ (s.k.wq o).toList, ∃ t, p = some t ∧ s.pc t ≠ .none ∧
        waitsOn (s.pc t) = some o) ∧
      ∀ a e s', s.step a = some (e, s') → ((∃ sp, a = .tick sp) ∨ ∃ n, a = .call (.semPost n)) →
        ∀ t, s'.k.runQueue.linked t = true → s.k.runQueue.linked t = true ∨ s.pc t ≠ .none := by
  rcases exists_run (fun _ => 0) (G := HandleGuard)
    [.create 1 1, .create 1 1, .launch, .call (.semTimedwait 0 2), .tick 0, .call (.thrdSleep 9),
      .resume, .tick 0, .resume, .call (.semTimedwait 0 5)]
    (P := fun _ s => s.k.sleepQueue.handles = {some (.slot 14)} ∧
      s.k.tWaitqueue.handles = {some (.slot 15)}) (by decide +kernel) with ⟨h, s, hr, hs, hd⟩
  exact ⟨h, s, hr, hs, hd, handles_current (fun _ => Nat.zero_le _) hr⟩

/-- `A` waits with a deadline, which is behind that of `B`, is signalled early and returns from its
routine: its deadline stays in `t_waitqueue`. A tick later it links the slot that `A` has freed. -/
theorem freed_slot_linked :
    ∃ h s s', (system fun _ => 0).Run (fun _ _ => True) h s ∧ s.pc (.slot 15) = .none ∧
      some (.slot 15) ∈ s.k.tWaitqueue.handles ∧ s.k.runQueue.linked (.slot 15) = false ∧
      s.step (.tick 0) = some (none, s') ∧ s'.k.runQueue.linked (.slot 15) = true := by
  rcases exists_step (fun _ => 0) (G := fun _ _ => True)
    [.create 1 1, .create 1 1, .create 1 1, .launch, .call (.semTimedwait 0 4), .tick 0,
      .call (.semTimedwait 1 2), .tick 0, .call (.semPost 0), .tick 0, .resume,
      .call (.thrdExit 0), .resume] (.tick 0)
    (P := fun s => s.pc (.slot 15) = .none ∧ some (.slot 15) ∈ s.k.tWaitqueue.handles ∧
      s.k.runQueue.linked (.slot 15) = false)
    (Q := fun e s' => e = none ∧ s'.k.runQueue.linked (.slot 15) = true)
    (by decide +kernel) with ⟨h, s, e, s', hr, ⟨hpc, hd, hl⟩, hs, rfl, hl'⟩
  exact ⟨h, s, s', hr, hpc, hd, hl, hs, hl'⟩

end Sys

end MsTos
