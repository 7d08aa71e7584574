-- SUMMARY: Applications on the kernel: threads that run code of their own between their calls.
import MsTos.Blocking
import MsTos.ViewFrame

namespace MsTos

/-- An application with states `σ`: which calls its threads make, and what they do between them. Of
the latter, an `ε` may be observed. -/
structure Client (σ ε : Type) where
  /-- The thread may make the call. -/
  calls : σ → TaskId → Call → Bool
  /-- What the thread does next without the kernel. -/
  code : σ → TaskId → Option (Option ε × σ)
  /-- The thread is in the call. -/
  enter : σ → TaskId → Call → σ
  /-- The call has returned. -/
  leave : σ → Event → σ

/-- The kernel with its threads, and the state of the application. -/
structure AppSys (σ : Type) where
  sys : Sys
  app : σ

inductive AppAction where
  /-- A step of the kernel, or a call. -/
  | kernel (a : Action)
  /-- The running thread goes on in its own code. -/
  | code
  deriving DecidableEq

namespace Client

variable {σ ε : Type} (C : Client σ ε)

/-- The state of the application when the action begins, if it allows the action. -/
def allowed (s : AppSys σ) (a : Action) : Option σ :=
  match a, s.sys.k.runPtr with
  | .call c, some t => if C.calls s.app t c then some (C.enter s.app t c) else none
  | _, _ => some s.app

/-- The state of the application when a call has returned. -/
def returned (app : σ) (e : Option Event) : σ :=
  match e with
  | none => app
  | some e => C.leave app e

def step (s : AppSys σ) (a : AppAction) : Option (Option ε × AppSys σ) :=
  match a with
  | .kernel a =>
      match C.allowed s a with
      | none => none
      | some app => (s.sys.step a).map fun r => (none, ⟨r.2, C.returned app r.1⟩)
  | .code =>
      match s.sys.k.runPtr with
      | none => none
      | some t =>
          if s.sys.k.fault = false ∧ s.sys.pc t = .user ∧ !s.sys.k.irq.pending then
            (C.code s.app t).map fun r => (r.1, ⟨s.sys, r.2⟩)
          else none

/-- The application on the kernel, from `os_init` on. -/
def system (vals : Nat → Nat) (app : σ) : TransitionSystem (AppSys σ) AppAction (Option ε) where
  init s := s = ⟨Sys.boot vals, app⟩
  step := C.step

end Client

namespace AppSys

variable {σ ε : Type} {C : Client σ ε} {s s' : AppSys σ} {e : Option ε} {vals : Nat → Nat} {app : σ}
  {h : List (Option ε)}

/-- A condition on the steps of the kernel. -/
def OnKernel (G : Sys → Action → Prop) (s : AppSys σ) : AppAction → Prop
  | .kernel a => G s.sys a
  | .code => True

instance (G : Sys → Action → Prop) [∀ s a, Decidable (G s a)] (s : AppSys σ) :
    ∀ a, Decidable (s.OnKernel G a)
  | .kernel a => inferInstanceAs (Decidable (G s.sys a))
  | .code => inferInstanceAs (Decidable True)

theorem step_kernel {a : Action} (hs : C.step s (.kernel a) = some (e, s')) :
    e = none ∧ ∃ app ev, C.allowed s a = some app ∧ s.sys.step a = some (ev, s'.sys) ∧
      s'.app = C.returned app ev := by
  unfold Client.step at hs
  dsimp only at hs
  split at hs
  · cases hs
  · rename_i app ha
    obtain ⟨⟨ev, sys⟩, hst, hr⟩ := Option.map_eq_some_iff.1 hs
    cases hr
    exact ⟨rfl, app, ev, ha, hst, rfl⟩

theorem step_code (hs : C.step s .code = some (e, s')) :
    s'.sys = s.sys ∧ ∃ t, s.sys.k.runPtr = some t ∧ s.sys.pc t = .user ∧
      C.code s.app t = some (e, s'.app) := by
  unfold Client.step at hs
  dsimp only at hs
  split at hs
  · cases hs
  · rename_i t hr
    obtain ⟨⟨-, hpc, -⟩, hs⟩ := Option.ite_none_right_eq_some.1 hs
    obtain ⟨⟨ev, app⟩, hc, he⟩ := Option.map_eq_some_iff.1 hs
    cases he
    exact ⟨rfl, t, hr, hpc, hc⟩

/-- What the kernel does in a run with an application, it does in a run of its own. -/
theorem run_sys {G : Sys → Action → Prop} (hr : (C.system vals app).Run (OnKernel G) h s) :
    ∃ h', (MsTos.system vals).Run G h' s.sys := by
  refine hr.invariant (P := fun _ s => ∃ h', (MsTos.system vals).Run G h' s.sys) ?_ ?_
  · rintro s rfl
    exact ⟨[], .init rfl⟩
  · rintro h s a e s' ⟨h', hk⟩ hg hs
    cases a with
    | kernel a =>
        obtain ⟨-, app, ev, -, hst, -⟩ := step_kernel hs
        exact ⟨_, hk.step hg hst⟩
    | code => exact ⟨h', by rw [(step_code hs).1]; exact hk⟩

end AppSys

/-- The call that a thread is in, by where it stands. -/
def inCall : Pc → Option Call
  | .ret c _ => some c
  | .sleepPause n => some (.thrdSleep n)
  | .semTimedwait m n _ => some (.semTimedwait m n)
  | .mtxTimedlock m n _ => some (.mtxTimedlock m n)
  | .join u => some (.thrdJoin u)
  | .none | .user | .kill | .panic => none

/-! ## Where threads stand -/

namespace View

variable {v v' : View} {a : Action} {e : Option Event} {o : Obj} {u : TaskId}

/-- A thread blocks on an object by a call that waits for it. -/
theorem Step.blocks_by (h : v.Step a e v') (hb : blocksOn (v'.pc u) = some o) :
    v'.pc u = v.pc u ∨ v.run = some u ∧ v.pc u = .user ∧ a = .call o.waitCall := by
  rcases h.pc_blocks hb with hpc | ⟨hr, hu, -⟩
  · exact .inl hpc
  · have hself : ∀ {t : TaskId} {p : Pc}, v.run = some t → v'.pc = Function.update v.pc t p →
        v'.pc u = p := by
      intro t p ht hpc
      cases hr.symm.trans ht
      rw [hpc, Function.update_self]
    cases h with
    | @block t v₁ o' hr' hu' hb' hl =>
        obtain ⟨l, f, rfl, -⟩ := hl.eq
        rw [hself hr' rfl, blocksOn_waitCall] at hb
        cases hb
        exact .inr ⟨hr, hu, rfl⟩
    | createFails | launch | fails | take | tryTake | trySteal => exact .inl rfl
    | signal o' hr' hu' hh hs => exact .inl (congrFun hs.pc_eq u)
    | tick sp hr' ht => exact .inl (congrFun ht.pc u)
    | create r p i hr' hi => cases hr.symm.trans hr'
    | thrdCreate r p i hr' hu' hi =>
        refine .inl (Function.update_of_ne ?_ _ _)
        rintro rfl
        cases hu.symm.trans hi
    | yields c hr' hu' hc =>
        rw [hself hr' rfl] at hb
        rcases hc with rfl | ⟨n, rfl⟩ <;> cases hb
    | timedTake o' n' hr' hu' hb' | timedZero o' n' hn hr' hu' hb' =>
        rw [hself hr' rfl, blocksOn_timedPc] at hb
        cases hb
    | timedBlock o' n' hn hr' hu' hb' hl =>
        obtain ⟨l, f, rfl, -⟩ := hl.eq
        rw [hself hr' rfl, blocksOn_timedPc] at hb
        cases hb
    | sleep n hn hr' hu' | exit r hr' hu' =>
        rw [hself hr' rfl] at hb
        cases hb
    | ret c r hr' hi hu' | pause n hr' hi hu' hl | rollback n timeout hr' hi hu' hs hv
    | kill hr' hi hu' hl =>
        cases hr.symm.trans hr'
        cases hu.symm.trans hu'
    | timedLeave o n b hr' hi hu' hs hm =>
        cases hr.symm.trans hr'
        rw [hu] at hu'
        cases o <;> cases hu'

/-- A thread that has blocked stays where it is until its call returns. -/
theorem Step.blocks_until (h : v.Step a e v') (hb : blocksOn (v.pc u) = some o) :
    v'.pc u = v.pc u ∨ v.run = some u ∧ v.ifg = false ∧ ∃ c r, e = some ⟨u, c, r⟩ := by
  have hmove : ∀ {t : TaskId} {p : Pc}, blocksOn (v.pc t) = none →
      Function.update v.pc t p u = v.pc u := by
    intro t p ht
    refine Function.update_of_ne ?_ _ _
    rintro rfl
    rw [ht] at hb
    cases hb
  have huser : ∀ {t : TaskId}, v.pc t = .user → blocksOn (v.pc t) = none := by
    intro t ht
    rw [ht]
    rfl
  cases h with
  | createFails | launch | fails | take | tryTake | trySteal => exact .inl rfl
  | create r p i hr hi => exact .inl (hmove (by rw [hi]; rfl))
  | thrdCreate r p i hr hu hi => exact .inl (hmove (by rw [hi]; rfl))
  | yields c hr hu | timedTake o n hr hu | timedZero o n hn hr hu | sleep n hn hr hu
  | exit r hr hu => exact .inl (hmove (huser hu))
  | block o hr hu hb' hl | timedBlock o n hn hr hu hb' hl =>
      obtain ⟨l, f, rfl, -⟩ := hl.eq
      exact .inl (hmove (huser hu))
  | signal o hr hu hh hs => exact .inl (congrFun hs.pc_eq u)
  | @ret t c r hr hi hu =>
      rcases eq_or_ne u t with rfl | hne
      · exact .inr ⟨hr, hi, c, r, rfl⟩
      · exact .inl (Function.update_of_ne hne _ _)
  | pause n hr hi hu hl | kill hr hi hu hl =>
      obtain ⟨l, f, rfl, -⟩ := hl.eq
      exact .inl (hmove (by rw [hu]; rfl))
  | timedLeave o n b hr hi hu hs hm =>
      exact .inl (hmove (by rw [hu]; exact blocksOn_timedPc o n b))
  | rollback n timeout hr hi hu hs hv =>
      rw [setPc, hv.pc_eq]
      exact .inl (hmove (by rw [hu]; rfl))
  | tick sp hr ht => exact .inl (congrFun ht.pc u)

/-- A call that has returned leaves its caller in its own code. -/
theorem Step.event_user {ev : Event} (h : v.Step a (some ev) v') : v'.pc ev.thrd = .user := by
  generalize he : some ev = e at h
  cases h with
  | @thrdCreate t r p i hr hu hi =>
      cases he
      show Function.update v.pc (.slot i) .user t = .user
      rw [Function.update_apply, hu, ite_self]
  | fails c hr hu | take o hr hu | tryTake n hr hu | trySteal m hr hu =>
      cases he
      exact hu
  | signal o hr hu hh hs =>
      cases he
      rw [hs.pc_eq]
      exact hu
  | ret | timedLeave | rollback =>
      cases he
      exact Function.update_self _ _ _
  | _ => cases he

/-- What a step can mean to a thread. -/
inductive Moves (v v' : View) (u : TaskId) : Action → Option Event → Prop
  | stays {a : Action} {e : Option Event} (ha : ∀ c, a = .call c → v.run ≠ some u)
      (he : ∀ ev, e = some ev → ev.thrd ≠ u) (h : v'.pc u = v.pc u) : Moves v v' u a e
  | starts {a : Action} {e : Option Event} (ha : ∀ c, a = .call c → v.run ≠ some u)
      (he : ∀ ev, e = some ev → ev.thrd ≠ u) (h : v.pc u = .none) (h' : v'.pc u = .user) :
      Moves v v' u a e
  | enters (c : Call) (hr : v.run = some u) (h : v.pc u = .user) (h' : inCall (v'.pc u) = some c) :
      Moves v v' u (.call c) none
  | returnsAtOnce (c : Call) (r : Int) (hr : v.run = some u) (h : v.pc u = .user)
      (h' : v'.pc u = .user) : Moves v v' u (.call c) (some ⟨u, c, r⟩)
  | exits (r : Int) (hr : v.run = some u) (h : v.pc u = .user) (h' : v'.pc u = .kill) :
      Moves v v' u (.call (.thrdExit r)) none
  | goesOn (c : Call) (hr : v.run = some u) (h : inCall (v.pc u) = some c)
      (h' : inCall (v'.pc u) = some c) : Moves v v' u .resume none
  | returns (c : Call) (r : Int) (hr : v.run = some u) (h : inCall (v.pc u) = some c)
      (h' : v'.pc u = .user) : Moves v v' u .resume (some ⟨u, c, r⟩)
  | dies (hr : v.run = some u) (h : v.pc u = .kill) (h' : v'.pc u = .none) :
      Moves v v' u .resume none

theorem inCall_timedPc (o : Obj) (n : SizeT) (b : Bool) :
    inCall (o.timedPc n b) = some (o.timedCall n) := by
  cases o <;> rfl

theorem Step.moves (h : v.Step a e v') (u : TaskId) : Moves v v' u a e := by
  -- the running thread moves, or none does
  have hstays : ∀ {t : TaskId} {a : Action} {e : Option Event}, u ≠ t → v.run = some t →
      (∀ ev, e = some ev → ev.thrd = t) → v'.pc u = v.pc u → Moves v v' u a e := by
    intro t a e hne hr he hpc
    refine .stays (fun _ _ => ?_) (fun ev hev => ?_) hpc
    · rw [hr]
      simpa using hne.symm
    · rw [he ev hev]
      exact hne.symm
  have hother : ∀ {t : TaskId} {p : Pc} {a : Action} {e : Option Event}, u ≠ t → v.run = some t →
      (∀ ev, e = some ev → ev.thrd = t) → v'.pc = Function.update v.pc t p → Moves v v' u a e :=
    fun hne hr he hpc => hstays hne hr he (by rw [hpc, Function.update_of_ne hne])
  have hself : ∀ {t : TaskId} {p : Pc}, v'.pc = Function.update v.pc t p → v'.pc t = p := by
    intro t p hpc
    rw [hpc, Function.update_self]
  cases h with
  | create r p i hr hi =>
      rcases eq_or_ne u (.slot i) with rfl | hne
      · exact .starts nofun nofun hi (Function.update_self _ _ _)
      · exact .stays nofun nofun (Function.update_of_ne hne _ _)
  | createFails | launch => exact .stays nofun nofun rfl
  | tick sp hr ht => exact .stays nofun nofun (congrFun ht.pc u)
  | @thrdCreate t r p i hr hu hi =>
      rcases eq_or_ne u t with rfl | hne
      · refine .returnsAtOnce _ _ hr hu ((Function.update_of_ne ?_ _ _).trans hu)
        rintro rfl
        cases hu.symm.trans hi
      · rcases eq_or_ne u (.slot i) with rfl | hni
        · refine .starts (fun _ _ => ?_) ?_ hi (Function.update_self _ _ _)
          · rw [hr]
            simpa using hne.symm
          · rintro _ ⟨⟩
            exact hne.symm
        · exact hstays hne hr (by rintro _ ⟨⟩; rfl) (Function.update_of_ne hni _ _)
  | @fails t r c hr hu | @take t o hr hu | @tryTake t n hr hu | @trySteal t m hr hu =>
      rcases eq_or_ne u t with rfl | hne
      · exact .returnsAtOnce _ _ hr hu hu
      · exact hstays hne hr (by rintro _ ⟨⟩; rfl) rfl
  | @signal t v₁ o hr hu hh hs =>
      rcases eq_or_ne u t with rfl | hne
      · exact .returnsAtOnce _ _ hr hu ((congrFun hs.pc_eq u).trans hu)
      · exact hstays hne hr (by rintro _ ⟨⟩; rfl) (congrFun hs.pc_eq u)
  | @yields t c hr hu hc =>
      rcases eq_or_ne u t with rfl | hne
      · exact .enters c hr hu (by rw [hself rfl]; rfl)
      · exact hother hne hr nofun rfl
  | @block t v₁ o hr hu hb hl =>
      obtain ⟨l, f, rfl, -⟩ := hl.eq
      rcases eq_or_ne u t with rfl | hne
      · exact .enters _ hr hu (by rw [hself rfl]; rfl)
      · exact hother hne hr nofun rfl
  | @timedTake t o n hr hu hb | @timedZero t o n hn hr hu hb =>
      rcases eq_or_ne u t with rfl | hne
      · exact .enters _ hr hu (by rw [hself rfl, inCall_timedPc])
      · exact hother hne hr nofun rfl
  | @timedBlock t v₁ o n hn hr hu hb hl =>
      obtain ⟨l, f, rfl, -⟩ := hl.eq
      rcases eq_or_ne u t with rfl | hne
      · exact .enters _ hr hu (by rw [hself rfl, inCall_timedPc])
      · exact hother hne hr nofun rfl
  | @sleep t n hn hr hu =>
      rcases eq_or_ne u t with rfl | hne
      · exact .enters _ hr hu (by rw [hself rfl]; rfl)
      · exact hother hne hr nofun rfl
  | @exit t r hr hu =>
      rcases eq_or_ne u t with rfl | hne
      · exact .exits r hr hu (hself rfl)
      · exact hother hne hr nofun rfl
  | @ret t c r hr hi hu =>
      rcases eq_or_ne u t with rfl | hne
      · exact .returns c r hr (by rw [hu]; rfl) (hself rfl)
      · exact hother hne hr (by rintro _ ⟨⟩; rfl) rfl
  | @pause t v₁ n hr hi hu hl =>
      obtain ⟨l, f, rfl, -⟩ := hl.eq
      rcases eq_or_ne u t with rfl | hne
      · exact .goesOn (.thrdSleep n) hr (by rw [hu]; rfl) (by rw [hself rfl]; rfl)
      · exact hother hne hr nofun rfl
  | @timedLeave t o n b hr hi hu hs hm =>
      rcases eq_or_ne u t with rfl | hne
      · exact .returns _ _ hr (by rw [hu, inCall_timedPc]) (hself rfl)
      · exact hother hne hr (by rintro _ ⟨⟩; rfl) rfl
  | @rollback t v₁ n timeout hr hi hu hs hv =>
      have hpc : (v₁.setPc t .user).pc = Function.update v.pc t .user := by
        rw [setPc, hv.pc_eq]
        rfl
      rcases eq_or_ne u t with rfl | hne
      · exact .returns _ _ hr (by rw [hu]; rfl) (hself hpc)
      · exact hother hne hr (by rintro _ ⟨⟩; rfl) hpc
  | @kill t v₁ hr hi hu hl =>
      obtain ⟨l, f, rfl, -⟩ := hl.eq
      rcases eq_or_ne u t with rfl | hne
      · exact .dies hr hu (hself rfl)
      · exact hother hne hr nofun rfl

end View

end MsTos
