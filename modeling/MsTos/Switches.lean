-- SUMMARY: Threads and context switches in any order: with which context a thread is resumed.
import MsTos.Lib.Transition
import MsTos.ContextSwitch

namespace MsTos

/-- The CPU with its memory, and the threads on it. No thread runs before `os_start`. -/
structure Board where
  m : Machine
  run : Option TaskId
  live : TaskId → Bool
  /-- Whether a thread has not returned from its routine yet. -/
  inRoutine : TaskId → Bool

namespace Board

/-! ## Steps -/

inductive Action where
  /-- The thread that runs, or `main` before `os_start`, computes, also within system calls. -/
  | exec (m : Machine)
  /-- `thrd_create` comes to `thrd_init`. -/
  | create (t : TaskId) (routine arg : Word)
  /-- The thread that runs returns from its routine. -/
  | ret
  /-- `os_task_kill` frees the thread that runs, which runs on until the next switch. -/
  | kill
  /-- `os_start`, where `os_first_task` chooses `next`. -/
  | start (osFirstTask : Machine → Machine) (next : TaskId)
  /-- A tick, where `os_schedule` chooses `next`. -/
  | tick (osUpdate osSchedule : Machine → Machine) (next : TaskId)

inductive Event where
  | executed
  | created (t : TaskId) (routine arg : Word)
  | returned (t : TaskId)
  | killed (t : TaskId)
  /-- The thread that is preempted, if there is one, with its context, and the next one. -/
  | switched (preempted : Option (TaskId × Context)) (next : TaskId)

def step (L : Layout) (s : Board) : Action → Option (Event × Board)
  | .exec m => some (.executed, { s with m })
  | .create t routine arg =>
      let (status, mem) := thrdInitContext L s.m.mem t routine arg
      if status < 0 then none
      else
        some (.created t routine arg,
          { s with
            m := { s.m with mem }
            live := Function.update s.live t true
            inRoutine := Function.update s.inRoutine t true })
  | .ret =>
      match s.run with
      | none => none
      | some t =>
          if s.inRoutine t ∧ s.m.sp.toNat = L.retAddr t then
            some (.returned t,
              { s with m := s.m.ret, inRoutine := Function.update s.inRoutine t false })
          else none
  | .kill =>
      match s.run with
      | none => none
      | some t => some (.killed t, { s with live := Function.update s.live t false })
  | .start osFirstTask next =>
      match s.run with
      | some _ => none
      | none =>
          some (.switched none next, { s with m := s.m.osStart L osFirstTask, run := some next })
  | .tick osUpdate osSchedule next =>
      match s.run with
      | none => none
      | some t =>
          -- an interrupt is taken when it is enabled
          if s.m.sr &&& gie ≠ 0 then
            some (.switched (some (t, s.m.context)) next,
              { s with m := s.m.osTick L osUpdate osSchedule, run := some next })
          else none

def system (L : Layout) : TransitionSystem Board Action Event where
  init s := s.run = none ∧ (∀ t, s.live t = false) ∧ ∀ t, s.inRoutine t = false
  step := step L

/-! ## Where the context of a thread comes from -/

inductive Origin where
  | created (routine arg : Word)
  | preempted (c : Context)

/-- The last event that gave `t` the context with which it has to go on. -/
def origin (t : TaskId) : List Event → Option Origin
  | [] => none
  | .created u routine arg :: h => if u = t then some (.created routine arg) else origin t h
  | .switched (some (u, c)) _ :: h => if u = t then some (.preempted c) else origin t h
  | _ :: h => origin t h

def Origin.context (L : Layout) (t : TaskId) : Origin → Context
  | .created routine arg => .initial L t routine arg
  | .preempted c => c

/-! ## What threads and kernel leave alone -/

variable {L : Layout} {s s' : Board} {h : List Event} {a : Action} {e : Event} {t u : TaskId}
  {mem mem' : Nat → Word}

/-- The contexts of the live threads other than the one that runs do not change. -/
def KeepsOthers (L : Layout) (s : Board) (mem mem' : Nat → Word) : Prop :=
  ∀ u, s.live u → s.run ≠ some u → ∀ x, L.InBlock u x → mem' x = mem x

/-- The stack of `t` has room for its context. While `t` is in its routine, the stack ends at
`ret_addr`. -/
structure OnStack (L : Layout) (s : Board) (t : TaskId) : Prop where
  lower : L.tcb t + 2 + 28 ≤ s.m.sp.toNat
  upper : s.m.sp.toNat ≤ L.tcb t + contextSize
  routine : s.inRoutine t → s.m.sp.toNat ≤ L.retAddr t

/-- What `os_update` and `os_schedule` do when `t` is interrupted: they keep `t` from its saved
stack pointer on. -/
structure KernelOnly (L : Layout) (s : Board) (t : TaskId) (mem mem' : Nat → Word) : Prop where
  others : KeepsOthers L s mem mem'
  sp : mem' (L.tcb t) = mem (L.tcb t)
  frame : ∀ x, s.m.sp.toNat - 28 ≤ x → L.InBlock t x → mem' x = mem x

def Guard (L : Layout) (s : Board) : Action → Prop
  | .exec m =>
      KeepsOthers L s s.m.mem m.mem ∧
        ∀ t, s.run = some t → m.mem L.runPtr = s.m.mem L.runPtr ∧
          (s.inRoutine t → m.mem (L.retAddr t) = s.m.mem (L.retAddr t))
  | .create _ _ _ | .ret | .kill => True
  | .start osFirstTask next =>
      let m := s.m.osPreinit L
      28 ≤ s.m.sp.toNat ∧
        (∀ u, s.live u → ∀ x, L.InBlock u x → x < s.m.sp.toNat - 28 ∨ s.m.sp.toNat ≤ x) ∧
        KeepsOthers L s m.mem (osFirstTask m).mem ∧
        (osFirstTask m).mem L.runPtr = BitVec.ofNat 16 (L.tcb next) ∧ s.live next
  | .tick osUpdate osSchedule next =>
      let m₁ := s.m.osTickEnter L
      let m₂ := osUpdate m₁
      let m₃ := osSchedule m₂
      ∀ t, s.run = some t →
        OnStack L s t ∧ KernelOnly L s t m₁.mem m₂.mem ∧ KernelOnly L s t m₂.mem m₃.mem ∧
          m₃.mem L.runPtr = BitVec.ofNat 16 (L.tcb next) ∧ (s.live next ∨ next = t)

/-! ## What a step does -/

theorem step_create {routine arg : Word} (hs : step L s (.create t routine arg) = some (e, s')) :
    routine ≠ 0 ∧ e = .created t routine arg ∧
      s' = { s with
        m := { s.m with mem := (thrdInitContext L s.m.mem t routine arg).2 }
        live := Function.update s.live t true
        inRoutine := Function.update s.inRoutine t true } := by
  simp only [step] at hs
  split at hs
  · cases hs
  · rename_i hstatus
    cases hs
    refine ⟨?_, rfl, rfl⟩
    rintro rfl
    apply hstatus
    simp [thrdInitContext, thrdStackInit, L.tcb_ne]

theorem step_ret (hs : step L s .ret = some (e, s')) :
    ∃ t, s.run = some t ∧ s.inRoutine t ∧ s.m.sp.toNat = L.retAddr t ∧ e = .returned t ∧
      s' = { s with m := s.m.ret, inRoutine := Function.update s.inRoutine t false } := by
  simp only [step] at hs
  split at hs
  · cases hs
  · rename_i t hrun
    split at hs
    · rename_i hat
      cases hs
      exact ⟨t, hrun, hat.1, hat.2, rfl, rfl⟩
    · cases hs

theorem step_kill (hs : step L s .kill = some (e, s')) :
    ∃ t, s.run = some t ∧ e = .killed t ∧
      s' = { s with live := Function.update s.live t false } := by
  simp only [step] at hs
  split at hs
  · cases hs
  · rename_i t hrun
    cases hs
    exact ⟨t, hrun, rfl, rfl⟩

theorem step_start {f : Machine → Machine} (hs : step L s (.start f u) = some (e, s')) :
    s.run = none ∧ e = .switched none u ∧ s' = { s with m := s.m.osStart L f, run := some u } := by
  simp only [step] at hs
  split at hs
  · cases hs
  · rename_i hrun
    cases hs
    exact ⟨hrun, rfl, rfl⟩

theorem step_tick {f g : Machine → Machine} (hs : step L s (.tick f g u) = some (e, s')) :
    ∃ t, s.run = some t ∧ s.m.sr &&& gie ≠ 0 ∧ e = .switched (some (t, s.m.context)) u ∧
      s' = { s with m := s.m.osTick L f g, run := some u } := by
  simp only [step] at hs
  split at hs
  · cases hs
  · rename_i t hrun
    split at hs
    · rename_i hgie
      cases hs
      exact ⟨t, hrun, hgie, rfl, rfl⟩
    · cases hs

/-! ## The invariant -/

/-- Every thread that does not run has its context on its stack. -/
structure Consistent (L : Layout) (h : List Event) (s : Board) : Prop where
  running : ∀ t, s.run = some t → s.m.mem L.runPtr = BitVec.ofNat 16 (L.tcb t)
  saved : ∀ t, s.live t → s.run ≠ some t →
    ∃ o, origin t h = some o ∧ Saved L s.m.mem t (o.context L t)
  exit : ∀ t, s.inRoutine t → s.live t ∨ s.run = some t → s.m.mem (L.retAddr t) = L.thrdExit
  fresh : s.run = none → ∀ t c, origin t h ≠ some (.preempted c)

theorem Consistent.exec {m : Machine} (hc : Consistent L h s) (hg : Guard L s (.exec m)) :
    Consistent L (.executed :: h) { s with m } := by
  obtain ⟨hothers, hown⟩ := hg
  refine ⟨?_, ?_, ?_, hc.fresh⟩
  · intro t ht
    rw [← hc.running t ht]
    exact (hown t ht).1
  · intro t hl ht
    obtain ⟨o, ho, hsv⟩ := hc.saved t hl ht
    exact ⟨o, ho, hsv.congr_block (hothers t hl ht)⟩
  · intro t hr hl
    rw [← hc.exit t hr hl]
    cases ht : decide (s.run = some t) with
    | true => exact (hown t (of_decide_eq_true ht)).2 hr
    | false =>
        have hne := of_decide_eq_false ht
        exact hothers t (hl.resolve_right hne) hne _ Layout.retAddr_inBlock

theorem Consistent.create {routine arg : Word} (hc : Consistent L h s)
    (hs : step L s (.create t routine arg) = some (e, s')) : Consistent L (e :: h) s' := by
  obtain ⟨hr, rfl, rfl⟩ := step_create hs
  obtain ⟨-, hsaved, hexit, hframe⟩ :=
    thrdInitContext_saved L s.m.mem t hr arg
  refine ⟨?_, ?_, ?_, ?_⟩
  · intro u hu
    rw [← hc.running u hu]
    exact hframe _ fun hb => Machine.runPtr_ne hb rfl
  · intro u hl hu
    by_cases hut : u = t
    · obtain rfl := hut
      exact ⟨_, if_pos rfl, hsaved⟩
    · dsimp only at hl
      rw [Function.update_of_ne hut] at hl
      obtain ⟨o, ho, hsv⟩ := hc.saved u hl hu
      exact ⟨o, (if_neg (Ne.symm hut)).trans ho,
        hsv.congr_block fun x hx => hframe x (hx.not_inBlock hut)⟩
  · intro u hi hl
    by_cases hut : u = t
    · obtain rfl := hut
      exact hexit
    · dsimp only at hi hl ⊢
      rw [Function.update_of_ne hut] at hi hl
      rw [← hc.exit u hi hl]
      exact hframe _ (Layout.retAddr_inBlock.not_inBlock hut)
  · intro hn u c
    show (if t = u then _ else _) ≠ _
    split
    · exact nofun
    · exact hc.fresh hn u c

/-- A property that is switched off for one thread held before. -/
theorem of_update_false {f : TaskId → Bool} (hf : Function.update f t false u) : f u := by
  by_cases hut : u = t
  · obtain rfl := hut
    rw [Function.update_self] at hf
    cases hf
  · rwa [Function.update_of_ne hut] at hf

theorem Consistent.ret (hc : Consistent L h s) (hs : step L s .ret = some (e, s')) :
    Consistent L (e :: h) s' ∧ s'.m.pc = L.thrdExit ∧ s'.m.reg = s.m.reg := by
  obtain ⟨t, hrun, hin, hsp, rfl, rfl⟩ := step_ret hs
  refine ⟨⟨hc.running, hc.saved, ?_, hc.fresh⟩, ?_, rfl⟩
  · exact fun u hi hl => hc.exit u (of_update_false hi) hl
  · show s.m.mem s.m.sp.toNat = _
    rw [hsp]
    exact hc.exit t hin (.inr hrun)

theorem Consistent.kill (hc : Consistent L h s) (hs : step L s .kill = some (e, s')) :
    Consistent L (e :: h) s' := by
  obtain ⟨t, -, rfl, rfl⟩ := step_kill hs
  refine ⟨hc.running, ?_, ?_, hc.fresh⟩
  · exact fun u hl hu => hc.saved u (of_update_false hl) hu
  · exact fun u hi hl => hc.exit u hi (hl.imp_left of_update_false)

/-! ## Switches -/

/-- Every thread is ready to be resumed. -/
structure Ready (L : Layout) (h : List Event) (s : Board) (mem : Nat → Word) : Prop where
  saved : ∀ t, s.live t ∨ s.run = some t → ∃ o, origin t h = some o ∧ Saved L mem t (o.context L t)
  exit : ∀ t, s.inRoutine t → s.live t ∨ s.run = some t → mem (L.retAddr t) = L.thrdExit

theorem Ready.switched {m : Machine} (hr : Ready L h s mem) (hu : s.live u ∨ s.run = some u)
    (hrun : m.mem L.runPtr = BitVec.ofNat 16 (L.tcb u))
    (hothers : ∀ t, t ≠ u → ∀ x, L.InBlock t x → m.mem x = mem x)
    (hexit : m.mem (L.retAddr u) = mem (L.retAddr u)) :
    Consistent L h { s with m, run := some u } := by
  refine ⟨?_, ?_, ?_, nofun⟩
  · intro t ht
    cases ht
    exact hrun
  · intro t hl ht
    have hne : t ≠ u := fun he => ht (congrArg some he.symm)
    obtain ⟨o, ho, hsv⟩ := hr.saved t (.inl hl)
    exact ⟨o, ho, hsv.congr_block (hothers t hne)⟩
  · intro t hi hl
    by_cases htu : t = u
    · obtain rfl := htu
      exact hexit.trans (hr.exit t hi hu)
    · have hl' : s.live t := hl.resolve_right fun he => htu (Option.some.inj he).symm
      exact (hothers t htu _ Layout.retAddr_inBlock).trans (hr.exit t hi (.inl hl'))

theorem Consistent.start {f : Machine → Machine} (hc : Consistent L h s)
    (hg : Guard L s (.start f u)) (hs : step L s (.start f u) = some (e, s')) :
    Consistent L (e :: h) s' ∧
      ∃ routine arg, origin u (e :: h) = some (.created routine arg) ∧
        s'.m.context = .initial L u routine arg := by
  obtain ⟨hnone, rfl, rfl⟩ := step_start hs
  obtain ⟨hsp, hstack, hkeep, hptr, hlive⟩ := hg
  have hall : ∀ t, s.run ≠ some t := fun t => by simp [hnone]
  have hmem : ∀ t, s.live t → ∀ x, L.InBlock t x → (f (s.m.osPreinit L)).mem x = s.m.mem x := by
    intro t hl x hx
    refine (hkeep t hl (hall t) x hx).trans ?_
    exact Machine.osPreinit_frame hsp (Machine.outside_ne (by simp) hx) (hstack t hl x hx)
  have hready : Ready L (.switched none u :: h) s (f (s.m.osPreinit L)).mem := by
    refine ⟨?_, ?_⟩
    · intro t hl
      have hl' := hl.resolve_right (hall t)
      obtain ⟨o, ho, hsv⟩ := hc.saved t hl' (hall t)
      exact ⟨o, ho, hsv.congr_block (hmem t hl')⟩
    · intro t hi hl
      have hl' := hl.resolve_right (hall t)
      exact (hmem t hl' _ Layout.retAddr_inBlock).trans (hc.exit t hi hl)
  obtain ⟨o, ho, hsv⟩ := hready.saved u (.inl hlive)
  obtain ⟨hin, hne⟩ := hsv.inBlock (n := 6) (by decide) (by decide)
  obtain ⟨hctx, hframe⟩ := Machine.osStartLeave_resumed hptr hsv
  refine ⟨hready.switched (.inl hlive) ?_ ?_ ?_, ?_⟩
  · refine (hframe _ ?_ ?_ ?_).trans hptr
    · exact (L.runPtr_ne _ (by simp)).symm
    · exact (L.runPtr_ne _ (by simp)).symm
    · exact (Machine.runPtr_ne hin).symm
  · intro t ht x hx
    apply hframe x (Machine.outside_ne (by simp) hx) (Machine.outside_ne (by simp) hx)
    rintro rfl
    exact hx.not_inBlock ht hin
  · have hx := Layout.retAddr_inBlock (L := L) (t := u)
    exact hframe _ (Machine.outside_ne (by simp) hx) (Machine.outside_ne (by simp) hx) hne
  · cases o with
    | created routine arg => exact ⟨routine, arg, ho, hctx⟩
    | preempted c => exact absurd ho (hc.fresh hnone u c)

theorem KernelOnly.keeps (hk : KernelOnly L s t mem mem') (hu : s.live u ∨ u = t)
    (hrun : s.run = some t) {x : Nat} (hx : L.InBlock u x)
    (hsp : u = t → s.m.sp.toNat - 28 ≤ x) : mem' x = mem x := by
  by_cases hut : u = t
  · obtain rfl := hut
    exact hk.frame x (hsp rfl) hx
  · refine hk.others u (hu.resolve_right hut) ?_ x hx
    rw [hrun]
    exact fun he => hut (Option.some.inj he).symm

/-- When `os_schedule` returns, the context of the interrupted thread is saved, and the other
contexts still are. -/
theorem Consistent.ready {f g : Machine → Machine} (hc : Consistent L h s) (hrun : s.run = some t)
    (hstack : OnStack L s t)
    (hf : KernelOnly L s t (s.m.osTickEnter L).mem (f (s.m.osTickEnter L)).mem)
    (hg : KernelOnly L s t (f (s.m.osTickEnter L)).mem (g (f (s.m.osTickEnter L))).mem) :
    Ready L (.switched (some (t, s.m.context)) u :: h) s (g (f (s.m.osTickEnter L))).mem := by
  have hlo := hstack.lower
  have hup := hstack.upper
  have hsize : contextSize = 2 + stackSize + 2 := rfl
  obtain ⟨hsaved, -, -, hmem⟩ := Machine.osTickEnter_saved (hc.running t hrun) hlo hup
  generalize s.m.osTickEnter L = m₁ at *
  have hkeep : ∀ v, s.live v ∨ v = t → ∀ x, L.InBlock v x → (v = t → s.m.sp.toNat - 28 ≤ x) →
      (g (f m₁)).mem x = m₁.mem x := by
    intro v hv x hx hsp
    exact (hg.keeps hv hrun hx hsp).trans (hf.keeps hv hrun hx hsp)
  have hother : ∀ v, v ≠ t → s.live v → ∀ x, L.InBlock v x → (g (f m₁)).mem x = s.m.mem x := by
    intro v hne hl x hx
    have hnot := hx.not_inBlock hne
    refine (hkeep v (.inl hl) x hx fun he => absurd he hne).trans ?_
    refine hmem x ?_ (Machine.ta0ctl_ne hx) ?_
    · rintro rfl
      exact hnot L.tcb_inBlock
    · unfold Layout.InBlock at hnot
      omega
  refine ⟨?_, ?_⟩
  · intro v hv
    by_cases hvt : v = t
    · obtain rfl := hvt
      refine ⟨_, if_pos rfl, hsaved.congr (hg.sp.trans hf.sp) ?_⟩
      intro x hx hlt
      have hlt' : x < s.m.sp.toNat := hlt
      have hx' : s.m.sp.toNat - 28 ≤ x := hx
      exact hkeep v (.inr rfl) x ⟨by omega, by omega⟩ fun _ => hx'
    · have hl := hv.resolve_right fun he => hvt (Option.some.inj (he.symm.trans hrun))
      obtain ⟨o, ho, hsv⟩ := hc.saved v hl fun he => hvt (Option.some.inj (he.symm.trans hrun))
      exact ⟨o, (if_neg (Ne.symm hvt)).trans ho, hsv.congr_block (hother v hvt hl)⟩
  · intro v hi hv
    rw [← hc.exit v hi hv]
    by_cases hvt : v = t
    · obtain rfl := hvt
      have hat := hstack.routine hi
      have hx := Layout.retAddr_inBlock (L := L) (t := v)
      have hne : L.retAddr v ≠ L.tcb v := by
        unfold Layout.retAddr
        omega
      refine (hkeep v (.inr rfl) _ hx fun _ => by omega).trans ?_
      exact hmem _ hne (Machine.ta0ctl_ne hx) (.inr hat)
    · have hl := hv.resolve_right fun he => hvt (Option.some.inj (he.symm.trans hrun))
      exact hother v hvt hl _ Layout.retAddr_inBlock

theorem Consistent.tick {f g : Machine → Machine} (hc : Consistent L h s)
    (hg : Guard L s (.tick f g u)) (hs : step L s (.tick f g u) = some (e, s')) :
    Consistent L (e :: h) s' ∧
      ∃ o, origin u (e :: h) = some o ∧ s'.m.context = (o.context L u).resumed := by
  obtain ⟨t, hrun, -, rfl, rfl⟩ := step_tick hs
  obtain ⟨hstack, hf, hg, hptr, hnext⟩ := hg t hrun
  have hready := hc.ready (u := u) hrun hstack hf hg
  have hu : s.live u ∨ s.run = some u := by
    apply hnext.imp_right
    rintro rfl
    exact hrun
  obtain ⟨o, ho, hsv⟩ := hready.saved u hu
  obtain ⟨hin, hne⟩ := hsv.inBlock (n := 4) (by decide) (by decide)
  obtain ⟨hctx, hframe⟩ := Machine.osTickLeave_resumed hptr hsv
  refine ⟨hready.switched hu ?_ ?_ ?_, o, ho, hctx⟩
  · refine (hframe _ ?_ ?_).trans hptr
    · exact (L.runPtr_ne _ (by simp)).symm
    · exact (Machine.runPtr_ne hin).symm
  · intro t ht x hx
    apply hframe x (Machine.ta0ctl_ne hx)
    rintro rfl
    exact hx.not_inBlock ht hin
  · exact hframe _ (Machine.ta0ctl_ne Layout.retAddr_inBlock) hne

/-! ## Transparency -/

theorem Consistent.step (hc : Consistent L h s) (hg : Guard L s a)
    (hs : (system L).step s a = some (e, s')) : Consistent L (e :: h) s' := by
  cases a with
  | exec m =>
      cases hs
      exact hc.exec hg
  | create t routine arg => exact hc.create hs
  | ret => exact (hc.ret hs).1
  | kill => exact hc.kill hs
  | start f u => exact (hc.start hg hs).1
  | tick f g u => exact (hc.tick hg hs).1

theorem consistent_of_run (hr : (system L).Run (Guard L) h s) : Consistent L h s := by
  apply hr.invariant
  · intro s ⟨hrun, hlive, _⟩
    refine ⟨?_, ?_, ?_, fun _ _ _ => nofun⟩
    · intro t ht
      rw [hrun] at ht
      cases ht
    · intro t hl
      rw [hlive t] at hl
      cases hl
    · intro t _ hl
      rw [hlive t, hrun] at hl
      exact absurd hl (by simp)
  · exact fun h s a e s' hc hg hs => hc.step hg hs

theorem resumed_created {m : Machine} {routine arg : Word}
    (h : m.context = .initial L u routine arg) :
    m.pc = routine ∧ m.reg .r12 = arg ∧ m.sr = gie ∧ m.sp.toNat = L.retAddr u := by
  refine ⟨congrArg Context.pc h, congrFun (congrArg Context.reg h) .r12, congrArg Context.sr h, ?_⟩
  rw [← L.retAddr_toNat u]
  exact congrArg (fun c => c.sp.toNat) h

/-- Whoever is resumed goes on with the context with which it was preempted, or starts its
routine. Whoever returns from its routine comes to `thrd_exit`. -/
theorem context_switches_transparent (hr : (system L).Run (Guard L) h s) (hg : Guard L s a)
    (hs : (system L).step s a = some (e, s')) :
    (∀ p u, e = .switched p u → s'.run = some u ∧
      ((∃ c, origin u (e :: h) = some (.preempted c) ∧
          s'.m.context = ⟨c.reg, c.sp, c.pc, c.sr &&& ~~~cpuOff⟩) ∨
        ∃ routine arg, origin u (e :: h) = some (.created routine arg) ∧
          s'.m.pc = routine ∧ s'.m.reg .r12 = arg ∧ s'.m.sr = gie ∧
            s'.m.sp.toNat = L.retAddr u)) ∧
      ∀ t, e = .returned t → s'.m.pc = L.thrdExit ∧ s'.m.reg .r12 = s.m.reg .r12 := by
  have hc := consistent_of_run hr
  cases a with
  | exec m =>
      cases hs
      exact ⟨nofun, nofun⟩
  | create t routine arg =>
      obtain ⟨-, rfl, -⟩ := step_create hs
      exact ⟨nofun, nofun⟩
  | kill =>
      obtain ⟨t, -, rfl, -⟩ := step_kill (L := L) hs
      exact ⟨nofun, nofun⟩
  | ret =>
      obtain ⟨-, hpc, hreg⟩ := hc.ret hs
      obtain ⟨t, -, -, -, rfl, -⟩ := step_ret hs
      exact ⟨nofun, fun _ _ => ⟨hpc, congrFun hreg .r12⟩⟩
  | start f u =>
      obtain ⟨-, routine, arg, ho, hctx⟩ := hc.start hg hs
      obtain ⟨-, rfl, hs'⟩ := step_start hs
      refine ⟨?_, nofun⟩
      intro p v he
      cases he
      refine ⟨by rw [hs'], .inr ⟨routine, arg, ho, resumed_created hctx⟩⟩
  | tick f g u =>
      obtain ⟨-, o, ho, hctx⟩ := hc.tick hg hs
      obtain ⟨t, -, -, rfl, hs'⟩ := step_tick hs
      refine ⟨?_, nofun⟩
      intro p v he
      cases he
      refine ⟨by rw [hs'], ?_⟩
      cases o with
      | preempted c => exact .inl ⟨c, ho, hctx⟩
      | created routine arg =>
          have hctx' := hctx.trans (Context.initial_resumed L u routine arg)
          exact .inr ⟨routine, arg, ho, resumed_created hctx'⟩

/-! ## The linked image -/

/-- The addresses in `ms-qos.out`. -/
def image : Layout where
  tcb
    | .idle => 0x31a2
    | .slot i => itemAddr i
  runPtr := 0x339c
  osSp := 0x339a
  ta0ctl := 0x0340
  wdtctl := 0x015c
  sfrie1 := 0x0100
  osTick := 0x5408
  thrdExit := 0x53ac
  osSyscallBack := 0x53e8
  osStartBack := 0x5404
  tcb_ne := by decide
  tcb_lt := by decide
  apart := by decide
  outside := by decide
  runPtr_ne := by decide

/-- The stack pointer of a new thread is the one of the kernel's model. -/
theorem image_initialSp (i : Fin numThreads) {routine : Word} (hr : routine ≠ 0) (arg : Word) :
    (thrdInitContext image mem (.slot i) routine arg).2 (itemAddr i) =
      BitVec.ofNat 16 (initialSp i) := by
  have hsub : ∀ n : Nat,
      BitVec.ofNat 16 (n + 2 + stackSize) - 28 = BitVec.ofNat 16 (n + 2 + stackSize - 28) := by
    intro n
    unfold stackSize
    bv_omega
  obtain ⟨-, hsv, -⟩ := thrdInitContext_saved image mem (.slot i) hr arg
  exact hsv.sp.trans (hsub (itemAddr i))

/-- A kernel that only sets `run_ptr`. -/
def choose (L : Layout) (u : TaskId) (m : Machine) : Machine :=
  m.store L.runPtr (BitVec.ofNat 16 (L.tcb u))

theorem choose_mem {m : Machine} {x : Nat} (hx : L.InBlock t x) : (choose L u m).mem x = m.mem x :=
  Function.update_of_ne (Machine.runPtr_ne hx) ..

theorem guard_start (hsp : 28 ≤ s.m.sp.toNat)
    (hstack : ∀ t x, L.InBlock t x → x < s.m.sp.toNat - 28 ∨ s.m.sp.toNat ≤ x) (hu : s.live u) :
    Guard L s (.start (choose L u) u) :=
  ⟨hsp, fun t _ => hstack t, fun _ _ _ _ => choose_mem, Function.update_self .., hu⟩

theorem guard_tick (hrun : s.run = some t) (hstack : OnStack L s t) (hu : s.live u) :
    Guard L s (.tick id (choose L u) u) := by
  intro v hv
  obtain rfl := Option.some.inj (hrun.symm.trans hv)
  refine ⟨hstack, ⟨fun _ _ _ _ _ => rfl, rfl, fun _ _ _ => rfl⟩, ⟨?_, ?_, ?_⟩, ?_, .inl hu⟩
  · exact fun _ _ _ _ => choose_mem
  · exact choose_mem L.tcb_inBlock
  · exact fun _ _ => choose_mem
  · exact Function.update_self ..

theorem tick_enabled {f g : Machine → Machine} (hrun : s.run = some t) (hgie : s.m.sr = gie) :
    (system L).step s (.tick f g u) =
      some (.switched (some (t, s.m.context)) u,
        { s with m := s.m.osTick L f g, run := some u }) := by
  show step L s (.tick f g u) = _
  unfold step
  rw [hrun]
  exact if_pos (by rw [hgie]; decide)

theorem start_enabled {f : Machine → Machine} (hrun : s.run = none) :
    (system L).step s (.start f u) =
      some (.switched none u, { s with m := s.m.osStart L f, run := some u }) := by
  show step L s (.start f u) = _
  unfold step
  rw [hrun]

theorem run_create (hr : (system L).Run (Guard L) h s) (t : TaskId) {routine : Word}
    (hne : routine ≠ 0) (arg : Word) :
    (system L).Run (Guard L) (.created t routine arg :: h)
      { s with
        m := { s.m with mem := (thrdInitContext L s.m.mem t routine arg).2 }
        live := Function.update s.live t true
        inRoutine := Function.update s.inRoutine t true } := by
  obtain ⟨hstatus, -⟩ := thrdInitContext_saved L s.m.mem t hne arg
  have hneg : ¬ (thrdInitContext L s.m.mem t routine arg).1 < 0 := by
    rw [hstatus]
    decide
  have hg : Guard L s (.create t routine arg) := trivial
  exact hr.step hg (if_neg hneg)

theorem onStack_of_retAddr (hsp : s.m.sp.toNat = L.retAddr t) : OnStack L s t := by
  unfold Layout.retAddr stackSize at hsp
  refine ⟨by omega, ?_, fun _ => Nat.le_of_eq hsp⟩
  unfold contextSize stackSize
  omega

theorem context_switches_transparent_two_threads :
    ∃ h s e s' c, (system image).Run (Guard image) h s ∧
      (system image).step s (.tick id (choose image (.slot 0)) (.slot 0)) = some (e, s') ∧
      origin (.slot 0) (e :: h) = some (.preempted c) ∧ c.pc = 0x4500 ∧
      s'.m.context = ⟨c.reg, c.sp, c.pc, c.sr &&& ~~~cpuOff⟩ := by
  -- `main` creates two threads on its own stack
  have h₂ : ∃ s, (system image).Run (Guard image)
      [.created (.slot 1) 0x4600 8, .created (.slot 0) 0x4500 7] s ∧ s.run = none ∧
        s.live (.slot 0) ∧ s.live (.slot 1) ∧ s.m.sp = 0x4400 := by
    have h₀ : (system image).Run (Guard image) []
        ⟨⟨fun _ => 0, 0x4400, 0, 0, fun _ => 0⟩, none, fun _ => false, fun _ => false⟩ :=
      .init ⟨rfl, fun _ => rfl, fun _ => rfl⟩
    have h₁ := run_create h₀ (.slot 0) (show (0x4500 : Word) ≠ 0 by decide) 7
    exact ⟨_, run_create h₁ (.slot 1) (show (0x4600 : Word) ≠ 0 by decide) 8, rfl, rfl, rfl, rfl⟩
  obtain ⟨s₂, h₂, hrun₂, hl₀, hl₁, hsp₂⟩ := h₂
  -- the first one starts
  have h₃ : ∃ s, (system image).Run (Guard image)
      [.switched none (.slot 0), .created (.slot 1) 0x4600 8, .created (.slot 0) 0x4500 7] s ∧
        s.run = some (.slot 0) ∧ s.live (.slot 0) ∧ s.live (.slot 1) ∧
        s.m.context = .initial image (.slot 0) 0x4500 7 := by
    have hspn : s₂.m.sp.toNat = 0x4400 := by
      rw [hsp₂]
      rfl
    have hend : ∀ t, image.tcb t + contextSize ≤ 0x4400 - 28 := by decide
    have hg : Guard image s₂ (.start (choose image (.slot 0)) (.slot 0)) := by
      apply guard_start (by omega) _ hl₀
      intro t x hx
      have hx' := hx.2
      have he := hend t
      omega
    have hs := start_enabled (L := image) (f := choose image (.slot 0)) (u := .slot 0) hrun₂
    obtain ⟨-, routine, arg, ho, hctx⟩ := (consistent_of_run h₂).start hg hs
    cases ho
    exact ⟨_, h₂.step hg hs, rfl, hl₀, hl₁, hctx⟩
  obtain ⟨s₃, h₃, hrun₃, hl₀, hl₁, hctx₃⟩ := h₃
  obtain ⟨hpc₃, -, hsr₃, hsp₃⟩ := resumed_created hctx₃
  -- a tick preempts it before it has done anything, and the second one starts
  have h₄ : ∃ s, (system image).Run (Guard image)
      [.switched (some (.slot 0, s₃.m.context)) (.slot 1), .switched none (.slot 0),
        .created (.slot 1) 0x4600 8, .created (.slot 0) 0x4500 7] s ∧
        s.run = some (.slot 1) ∧ s.live (.slot 0) ∧
        s.m.context = .initial image (.slot 1) 0x4600 8 := by
    have hg : Guard image s₃ (.tick id (choose image (.slot 1)) (.slot 1)) :=
      guard_tick hrun₃ (onStack_of_retAddr hsp₃) hl₁
    have hs := tick_enabled (L := image) (f := id) (g := choose image (.slot 1)) (u := .slot 1)
      hrun₃ hsr₃
    obtain ⟨-, o, ho, hctx⟩ := (consistent_of_run h₃).tick hg hs
    cases ho
    exact ⟨_, h₃.step hg hs, rfl, hl₀, hctx.trans (Context.initial_resumed ..)⟩
  obtain ⟨s₄, h₄, hrun₄, hl₀, hctx₄⟩ := h₄
  obtain ⟨-, -, hsr₄, hsp₄⟩ := resumed_created hctx₄
  -- the next tick resumes the first one
  have hg : Guard image s₄ (.tick id (choose image (.slot 0)) (.slot 0)) :=
    guard_tick hrun₄ (onStack_of_retAddr hsp₄) hl₀
  have hs := tick_enabled (L := image) (f := id) (g := choose image (.slot 0)) (u := .slot 0)
    hrun₄ hsr₄
  obtain ⟨-, ⟨c, ho, hctx⟩ | ⟨routine, arg, ho, -⟩⟩ :=
    (context_switches_transparent h₄ hg hs).1 _ _ rfl
  · cases ho
    exact ⟨_, _, _, _, _, h₄, hs, rfl, hpc₃, hctx⟩
  · cases ho

end Board

end MsTos
