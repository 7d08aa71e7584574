-- SUMMARY: Timed waits that fail: what is left of them in the semaphore, compared with the run without them.
import MsTos.Refinement
import MsTos.SemaphoreTrace
import MsTos.WaitQueues

namespace MsTos

/-! ## The semaphore -/

namespace Sem

/-- The operation finds room in the wait queue if it blocks, and for its permit if it posts. A timed
wait finds no old handle of its caller in the queue, and one that fails finds its own handle first. -/
def Admits (sem : Sem) (op : SemOp) : Prop :=
  match op.kind with
  | .wait => sem.val ≤ 0 → sem.wq.count < numThreads
  | .timedwait => sem.val ≤ 0 → sem.wq.count < numThreads ∧ some op.thrd ∉ sem.wq.toList
  | .trywait => True
  | .post => sem.val < 32767
  | .rollback => sem.wq.toList.head? = some (some op.thrd)

instance (sem : Sem) : ∀ op, Decidable (sem.Admits op)
  | ⟨_, .wait⟩ => inferInstanceAs (Decidable (_ → _))
  | ⟨_, .timedwait⟩ => inferInstanceAs (Decidable (_ → _ ∧ _))
  | ⟨_, .trywait⟩ => inferInstanceAs (Decidable True)
  | ⟨_, .post⟩ => inferInstanceAs (Decidable (_ < _))
  | ⟨_, .rollback⟩ => inferInstanceAs (Decidable (_ = _))

end Sem

/-- An operation that is admitted keeps the count. -/
theorem Sem.Counted.apply {g : Ledger} {op : SemOp} (h : g.sem.Counted) (ha : g.sem.Admits op) :
    (g.apply op).sem.Counted := by
  have hwait : ∀ u, (g.sem.val ≤ 0 → g.sem.wq.count < numThreads) → (g.sem.wait u).2.Counted := by
    intro u hroom
    rcases lt_or_ge 0 g.sem.val with hv | hv
    · rw [(h.wait_pass hv).1]
      exact (h.wait_pass (t := u) hv).2
    · rcases h.wait_block (t := u) hv (by
        rw [Queue.length_toList]
        exact hroom hv) with ⟨wq, hw, -, hc⟩
      rw [hw]
      exact hc
  obtain ⟨u, kind⟩ := op
  cases kind with
  | wait => exact hwait u ha
  | timedwait => exact hwait u fun hv => (ha hv).1
  | trywait =>
      simp only [Ledger.apply]
      split
      · rename_i hv
        have hc := (h.wait_pass (t := u) hv).2
        have hle := h.le
        rwa [toInt_of_mem (by omega) (by omega)]
      · exact h
  | post =>
      cases hl : g.sem.wq.toList with
      | nil =>
          simp only [Ledger.apply, (h.post_free hl ha).1]
          exact (h.post_free hl ha).2
      | cons p l =>
          obtain ⟨wq, hp, -, hc⟩ := h.post_pop hl
          simp only [Ledger.apply, hp]
          exact hc
  | rollback =>
      cases hl : g.sem.wq.toList with
      | nil =>
          rw [show g.sem.Admits ⟨u, .rollback⟩ ↔ g.sem.wq.toList.head? = some (some u) from Iff.rfl, hl] at ha
          cases ha
      | cons p l =>
          obtain ⟨wq, hp, -, hc⟩ := h.post_pop hl
          simp only [Ledger.apply, hp]
          exact hc

/-! ## A run without a call -/

namespace Ledger

variable {g g' : Ledger} {t : TaskId} {op : SemOp} {value : Nat}

/-- The value, the waiters with their order, and the grants are the same. -/
structure Agrees (g g' : Ledger) : Prop where
  val : g.sem.val = g'.sem.val
  waiters : g.sem.wq.toList = g'.sem.wq.toList
  granted : g.granted = g'.granted

/-- `g` differs from `g'` only in that `t` waits, too. -/
structure Without (t : TaskId) (g g' : Ledger) : Prop where
  counted : g.sem.Counted
  counted' : g'.sem.Counted
  split : ∃ l₁ l₂, g.sem.wq.toList = l₁ ++ some t :: l₂ ∧ some t ∉ l₁ ∧ some t ∉ l₂ ∧
    g'.sem.wq.toList = l₁ ++ l₂
  val : g'.sem.val = g.sem.val + 1
  granted : g'.granted = g.granted

theorem Without.neg (h : Without t g g') : g.sem.val < 0 := by
  obtain ⟨l₁, l₂, hl, -⟩ := h.split
  have hlen := h.counted.len
  rw [hl, List.length_append, List.length_cons] at hlen
  omega

theorem Without.mem (h : Without t g g') : some t ∈ g.sem.wq.toList := by
  obtain ⟨l₁, l₂, hl, -⟩ := h.split
  simp [hl]

/-- The wait of `t` begins. -/
theorem without_enter (h : g.sem.Counted) (hv : g.sem.val ≤ 0)
    (ha : g.sem.Admits ⟨t, .timedwait⟩) : Without t (g.apply ⟨t, .timedwait⟩) g := by
  obtain ⟨hroom, ht⟩ := ha hv
  obtain ⟨wq, hw, hl, hc⟩ := h.wait_block (t := t) hv (by rwa [Queue.length_toList])
  simp only [apply, hw, if_true]
  exact ⟨hc, h, ⟨g.sem.wq.toList, [], hl, ht, by simp, by simp⟩, by simp, rfl⟩

/-- A wait of another thread joins both wait queues. -/
theorem Without.block (h : Without t g g') {u : TaskId} (hu : u ≠ t)
    (hroom : g.sem.wq.count < numThreads) :
    Without t ⟨(g.sem.wait u).2, if (g.sem.wait u).1 then g.granted else u :: g.granted⟩
      ⟨(g'.sem.wait u).2, if (g'.sem.wait u).1 then g'.granted else u :: g'.granted⟩ := by
  have hneg := h.neg
  have hval := h.val
  obtain ⟨l₁, l₂, hl, h₁, h₂, hl'⟩ := h.split
  rw [← Queue.length_toList] at hroom
  have hroom' : g'.sem.wq.toList.length < numThreads := by
    rw [hl, List.length_append, List.length_cons] at hroom
    rw [hl', List.length_append]
    omega
  obtain ⟨wq, hw, hq, hc⟩ := h.counted.wait_block (t := u) (by omega) hroom
  obtain ⟨wq', hw', hq', hc'⟩ := h.counted'.wait_block (t := u) (by omega) hroom'
  rw [hw, hw']
  refine ⟨hc, hc', ⟨l₁, l₂ ++ [some u], ?_, h₁, ?_, ?_⟩, ?_, h.granted⟩
  · rw [hq, hl]
    simp
  · simpa [h₂] using hu.symm
  · rw [hq', hl']
    simp
  · show g'.sem.val - 1 = g.sem.val - 1 + 1
    omega

/-- A post that does not wake `t` wakes the same thread in both. -/
theorem Without.up (h : Without t g g') (hhead : g.sem.wq.toList.head? ≠ some (some t)) :
    g.sem.post.1 = g'.sem.post.1 ∧ g.sem.post.1 ≠ some t ∧
      Without t ⟨g.sem.post.2, g.granted⟩ ⟨g'.sem.post.2, g'.granted⟩ := by
  obtain ⟨l₁, l₂, hl, h₁, h₂, hl'⟩ := h.split
  cases l₁ with
  | nil => exact absurd (by simp [hl]) hhead
  | cons p l₁ =>
      obtain ⟨wq, hp, hq, hc⟩ := h.counted.post_pop hl
      obtain ⟨wq', hp', hq', hc'⟩ := h.counted'.post_pop hl'
      rw [hp, hp']
      refine ⟨rfl, ?_, hc, hc', ⟨l₁, l₂, hq, ?_, h₂, hq'⟩, ?_, h.granted⟩
      · rintro rfl
        exact h₁ List.mem_cons_self
      · exact fun hm => h₁ (List.mem_cons_of_mem _ hm)
      · show g'.sem.val + 1 = g.sem.val + 1 + 1
        rw [h.val]

/-- What the other threads do has the same effect in both. -/
theorem Without.apply (h : Without t g g') (hop : op.thrd ≠ t) (ha : g.sem.Admits op)
    (hpost : op.kind = .post → g.sem.wq.toList.head? ≠ some (some t)) :
    Without t (g.apply op) (g'.apply op) := by
  have hneg := h.neg
  have hval := h.val
  have hup : g.sem.wq.toList.head? ≠ some (some t) → ∀ f : List TaskId → ThrdPtr → List TaskId,
      Without t ⟨g.sem.post.2, f g.granted g.sem.post.1⟩ ⟨g'.sem.post.2, f g'.granted g'.sem.post.1⟩ := by
    intro hhead f
    obtain ⟨hp, -, hw⟩ := h.up hhead
    rw [hp, h.granted]
    exact ⟨hw.counted, hw.counted', hw.split, hw.val, rfl⟩
  obtain ⟨u, kind⟩ := op
  cases kind with
  | wait => exact h.block hop (ha (by omega))
  | timedwait => exact h.block hop (ha (by omega)).1
  | trywait =>
      simp only [Ledger.apply]
      rw [if_neg (by omega), if_neg (by omega)]
      exact h
  | post => exact hup (hpost rfl) grant
  | rollback =>
      have hhead : g.sem.wq.toList.head? ≠ some (some t) := by
        rw [show g.sem.wq.toList.head? = some (some u) from ha]
        simpa using hop
      exact hup hhead fun granted p => if p = some u then granted else grant granted p

/-- The wait of `t` fails without a trace exactly if its handle is the first in the wait queue. -/
theorem Without.rollback_iff (h : Without t g g') :
    (some t ∉ (g.apply ⟨t, .rollback⟩).sem.wq.toList ∧ Agrees (g.apply ⟨t, .rollback⟩) g') ↔
      g.sem.wq.toList.head? = some (some t) := by
  constructor
  · rintro ⟨hm, -⟩
    by_contra hhead
    exact hm (h.up hhead).2.2.mem
  · intro hhead
    obtain ⟨l₁, l₂, hl, h₁, h₂, hl'⟩ := h.split
    cases l₁ with
    | cons p l₁ =>
        rw [hl] at hhead
        cases hhead
        exact absurd List.mem_cons_self h₁
    | nil =>
        obtain ⟨wq, hp, hq, -⟩ := h.counted.post_pop hl
        simp only [Ledger.apply, hp, if_true]
        refine ⟨?_, ?_, ?_, h.granted.symm⟩
        · rw [hq]
          exact h₂
        · exact h.val.symm
        · rw [hq, hl']
          rfl

end Ledger

/-! ## Threads that sleep -/

namespace View

variable {v v' : View} {o : Obj} {t u : TaskId} {a : Action} {e : Option Event}

theorem Signals.sleeping (h : v.Signals o t v') (hs : (v'.thrds u).state = .SLEEPING) :
    (v.thrds u).state = .SLEEPING := by
  cases h with
  | free hv =>
      rw [← hs]
      exact restored_state.symm
  | crash hv hw =>
      rw [← hs]
      exact restored_state.symm
  | @grant w l hv hw =>
      have hst : (v.handed o t w u).state = .SLEEPING := hs
      rw [handed_state] at hst
      split at hst
      · cases hst
      · exact hst

/-- No step puts another thread than the running one to sleep. -/
theorem Step.sleeping (h : v.Step a e v') (hu : v.run = some u → ∃ sp, a = .tick sp)
    (hs : (v'.thrds u).state = .SLEEPING) : (v.thrds u).state = .SLEEPING := by
  have hne : ∀ {t}, v.run = some t → (∀ sp, a ≠ .tick sp) → u ≠ t := by
    rintro t hr ha rfl
    obtain ⟨sp, rfl⟩ := hu hr
    exact ha sp rfl
  cases h with
  | createFails | launch | fails | yields | take | tryTake | trySteal | timedTake | exit | ret
  | timedLeave => exact hs
  | create r p i hr hi | thrdCreate r p i hr hu' hi =>
      have hst : (v.setThrd (.slot i) _ u).state = .SLEEPING := hs
      rw [setThrd_state] at hst
      split at hst
      · cases hst
      · exact hst
  | block o hr hu' hb hl | timedBlock o n hn hr hu' hb hl =>
      obtain ⟨l, f, rfl, -⟩ := hl.eq
      have hst : (View.setThrd _ _ _ u).state = .SLEEPING := hs
      rw [setThrd_state, if_neg (hne hr nofun)] at hst
      exact boosted_state.symm.trans hst
  | timedZero o n hn hr hu' hb =>
      rw [← hs]
      exact boosted_state.symm
  | signal o hr hu' hh hs' => exact hs'.sleeping hs
  | sleep n hn hr hu' =>
      have hst : (View.setThrd _ _ _ u).state = .SLEEPING := hs
      rw [setThrd_state, if_neg (hne hr nofun)] at hst
      exact hst
  | pause n hr hi hu' hl | kill hr hi hu' hl =>
      obtain ⟨l, f, rfl, -⟩ := hl.eq
      exact hs
  | rollback n timeout hr hi hu' hst hv =>
      have hst' := hv.sleeping hs
      have hst'' : (View.setThrd _ _ _ u).state = .SLEEPING := hst'
      rw [setThrd_state, if_neg (hne hr nofun)] at hst''
      exact hst''
  | tick sp hr ht =>
      obtain ⟨w, hw⟩ := ht.thrds u
      rw [hw] at hs
      dsimp only at hs
      split at hs
      · cases hs
      · exact hs

/-- The calls that return after a tick. -/
theorem Step.pc_ret (h : v.Step a e v') {c : Call} {r : Int} (hp : v'.pc u = .ret c r) :
    v.pc u = .ret c r ∨ c = .thrdYield ∨ (∃ n, c = .thrdSleep n) ∨ ∃ o : Obj, c = o.waitCall := by
  cases h with
  | createFails | launch | fails | take | tryTake | trySteal => exact .inl hp
  | signal o hr hu hh hs => exact .inl (hs.pc_eq ▸ hp)
  | tick sp hr ht => exact .inl (ht.pc ▸ hp)
  | create r p i hr hi | thrdCreate r p i hr hu hi => exact .inl (update_pc (by simp) hp)
  | sleep | exit | ret | timedLeave => exact .inl (update_pc (by simp) hp)
  | @timedTake t o n hr hu hb => exact .inl (update_pc (by cases o <;> simp [Obj.timedPc]) hp)
  | @timedZero t o n hn hr hu hb => exact .inl (update_pc (by cases o <;> simp [Obj.timedPc]) hp)
  | @timedBlock t v₁ o n hn hr hu hb hl =>
      obtain ⟨l, f, rfl, -⟩ := hl.eq
      exact .inl (update_pc (by cases o <;> simp [Obj.timedPc]) hp)
  | @yields t c' hr hu hc =>
      rcases update_pc_cases hp with ⟨-, hq⟩ | hq
      · cases hq
        rcases hc with rfl | hc
        · exact .inr (.inl rfl)
        · exact .inr (.inr (.inl hc))
      · exact .inl hq
  | @block t v₁ o hr hu hb hl =>
      obtain ⟨l, f, rfl, -⟩ := hl.eq
      rcases update_pc_cases hp with ⟨-, hq⟩ | hq
      · cases hq
        exact .inr (.inr (.inr ⟨o, rfl⟩))
      · exact .inl hq
  | @pause t v₁ n hr hi hu hl =>
      obtain ⟨l, f, rfl, -⟩ := hl.eq
      rcases update_pc_cases hp with ⟨-, hq⟩ | hq
      · cases hq
        exact .inr (.inr (.inl ⟨n, rfl⟩))
      · exact .inl hq
  | kill hr hi hu hl =>
      obtain ⟨l, f, rfl, -⟩ := hl.eq
      exact .inl (update_pc (by simp) hp)
  | rollback n timeout hr hi hu hs hv =>
      have hp' := update_pc (by simp) hp
      rw [hv.pc_eq] at hp'
      exact .inl hp'

/-- A timed wait for a semaphore that fails rolls back. -/
theorem Step.of_failed {n : Nat} {timeout : SizeT} (h : v.Step a (some ⟨t, .semTimedwait n timeout, -1⟩) v')
    (ha : ∀ c, a ≠ .call c) (hret : ∀ r, v.pc t ≠ .ret (.semTimedwait n timeout) r) :
    a = .resume ∧ v.run = some t ∧ v.pc t = .semTimedwait n timeout false ∧
      (v.thrds t).state = .SLEEPING := by
  generalize he : some (Event.mk t (.semTimedwait n timeout) (-1)) = e at h
  cases h with
  | ret c r hr hi hu =>
      cases he
      exact absurd hu (hret _)
  | rollback n timeout hr hi hu hs hv =>
      cases he
      exact ⟨rfl, hr, hu, hs⟩
  | thrdCreate | fails | take | tryTake | trySteal | signal => exact absurd rfl (ha _)
  | timedLeave =>
      have hr : (-1 : Int) = 0 := congrArg Event.ret (Option.some.inj he)
      cases hr
  | _ => cases he

end View

/-! ## Runs -/

namespace Ledger

variable {value n : Nat} {h : List (Option SemOp)} {o : Option SemOp}

/-- What an operation does to the semaphore does not depend on the grants. -/
theorem apply_sem (g : Ledger) (op : SemOp) : (g.apply op).sem = (Ledger.apply ⟨g.sem, []⟩ op).sem := by
  obtain ⟨u, kind⟩ := op
  cases kind with
  | trywait =>
      simp only [apply]
      split <;> rfl
  | _ => rfl

end Ledger

namespace Sys

open Kernel Ledger

variable {s s' : Sys} {a : Action} {e : Option Event} {n value : Nat} {t : TaskId}
  {h : List (Option SemOp)}

/-- The system, with the operations on the semaphore `n` as its history. -/
def traced (n : Nat) (vals : Nat → Nat) : TransitionSystem Sys Action (Option SemOp) :=
  (system vals).observe (semOp n)

/-- The step is regular, and the semaphore admits its operation. -/
def TraceGuard (n : Nat) (s : Sys) (a : Action) : Prop :=
  s.Regular a ∧ ∀ op ∈ s.semOp n a, (s.k.sems (.app n)).Admits op

instance (n : Nat) (s : Sys) (a : Action) : Decidable (s.TraceGuard n a) :=
  inferInstanceAs (Decidable (_ ∧ ∀ _ ∈ _, _))

/-- The semaphore is what its operations have made of it, and each thread that has not been woken
from its timed wait is all that distinguishes it from the semaphore without this wait. -/
structure TraceOk (n value : Nat) (h : List (Option SemOp)) (s : Sys) : Prop where
  ret : ∀ t m timeout r, s.pc t ≠ .ret (.semTimedwait m timeout) r
  sem : (replay value h).sem = s.k.sems (.app n)
  counted : (s.k.sems (.app n)).Counted
  pending : ∀ t timeout, s.pc t = .semTimedwait n timeout false →
    (s.k.thrds t).state = .SLEEPING → ∃ mid pre, h = mid ++ some ⟨t, .timedwait⟩ :: pre ∧
      (∀ op, some op ∈ mid → op.thrd ≠ t) ∧
      Without t (replay value h) (replay value (mid ++ pre))

/-- Operations are those of the thread that runs, and only `sem_post` posts. -/
theorem semOp_thrd {op : SemOp} (hop : s.semOp n a = some op) :
    s.k.runPtr = some op.thrd ∧ (∀ sp, a ≠ .tick sp) ∧
      (op.kind = .post → a = .call (.semPost n)) := by
  unfold semOp at hop
  split at hop
  · split at hop <;> cases hop
    exact ⟨by assumption, nofun, nofun⟩
  · split at hop <;> cases hop
    exact ⟨by assumption, nofun, nofun⟩
  · split at hop <;> cases hop
    exact ⟨by assumption, nofun, nofun⟩
  · split at hop
    · rename_i hm
      cases hop
      exact ⟨by assumption, nofun, fun _ => by rw [hm]⟩
    · cases hop
  · split at hop
    · split at hop <;> cases hop
      exact ⟨by assumption, nofun, nofun⟩
    · cases hop
  · cases hop

/-- A thread that stays in its timed wait runs at a tick only. -/
theorem tick_of_timed {timeout : SizeT} (hs : s.step a = some (e, s'))
    (hpc : s.pc t = .semTimedwait n timeout false) (hpc' : s'.pc t = .semTimedwait n timeout false)
    (hr : s.k.runPtr = some t) : ∃ sp, a = .tick sp := by
  cases (steps_of_step hs).2 with
  | create r p hn | launch hn =>
      rw [hr] at hn
      cases hn
  | call c hr' hu hp =>
      cases hr.symm.trans hr'
      rw [hpc] at hu
      cases hu
  | tick sp hr' hg => exact ⟨sp, rfl⟩
  | resume hr' hp hs =>
      cases hr.symm.trans hr'
      unfold stepResume at hs
      rw [hpc] at hs
      rw [← congrArg (·.2.pc t) (Option.some.inj hs)] at hpc'
      dsimp only at hpc'
      unfold complete at hpc'
      split at hpc'
      · simp [setPc] at hpc'
      · simp [setPc] at hpc'

/-- A post that wakes a thread makes it active. -/
theorem post_active (hs : s.step a = some (e, s')) {u : TaskId} (hop : s.semOp n a = some ⟨u, .post⟩)
    (hc : (s.k.sems (.app n)).Counted) (hst : (s'.k.thrds t).state = .SLEEPING) :
    (s.k.sems (.app n)).wq.toList.head? ≠ some (some t) := by
  intro hhead
  have ha : a = .call (.semPost n) := (semOp_thrd hop).2.2 rfl
  subst ha
  have hk : s'.k = s.k.semPost (.app n) := by
    cases (steps_of_step hs).2 with
    | call c hr hu hp => simp [stepCall]
  cases hl : (s.k.sems (.app n)).wq.toList with
  | nil =>
      rw [hl] at hhead
      cases hhead
  | cons p l =>
      rw [hl] at hhead
      cases hhead
      obtain ⟨wq, hp, -⟩ := hc.post_pop hl
      rw [hk, semPost_state, hp, if_pos rfl] at hst
      cases hst

theorem TraceOk.step (h' : TraceOk n value h s) (hsound : s.Sound) (hg : s.TraceGuard n a)
    (hs : s.step a = some (e, s')) : TraceOk n value (s.semOp n a :: h) s' := by
  have hst := (step_refines hsound hg.1 hs).2
  have hsem := step_sem (n := n) hs
  refine ⟨?_, ?_, ?_, ?_⟩
  · intro t m timeout r hpc
    rcases hst.pc_ret hpc with hpc | hc | ⟨_, hc⟩ | ⟨o, hc⟩
    · exact h'.ret t m timeout r hpc
    · cases hc
    · cases hc
    · cases o <;> cases hc
  · rw [hsem, semAfter]
    cases hop : s.semOp n a with
    | none => exact h'.sem
    | some op =>
        show ((replay value h).apply op).sem = _
        rw [apply_sem, h'.sem]
  · rw [hsem, semAfter]
    cases hop : s.semOp n a with
    | none => exact h'.counted
    | some op => exact Sem.Counted.apply (g := ⟨s.k.sems (.app n), []⟩) h'.counted (hg.2 op hop)
  · intro t timeout hpc' hst'
    rcases hst.pc_timed (o := .sem n) hpc' with hpc | ⟨hr, hu, rfl, ⟨hb, -⟩ | ⟨-, hb, -⟩⟩
    · have hsl := hst.sleeping (tick_of_timed hs hpc hpc') hst'
      obtain ⟨mid, pre, hh, hmid, hw⟩ := h'.pending t timeout hpc hsl
      refine ⟨s.semOp n a :: mid, pre, by rw [hh]; rfl, ?_, ?_⟩
      · intro op hm
        rcases List.mem_cons.1 hm with hm | hm
        · rintro rfl
          obtain ⟨hr, ha, -⟩ := semOp_thrd hm.symm
          obtain ⟨sp, rfl⟩ := tick_of_timed hs hpc hpc' hr
          exact ha sp rfl
        · exact hmid op hm
      · cases hop : s.semOp n a with
        | none => exact hw
        | some op =>
            refine hw.apply ?_ ?_ ?_
            · rintro rfl
              obtain ⟨hr, ha, -⟩ := semOp_thrd hop
              obtain ⟨sp, rfl⟩ := tick_of_timed hs hpc hpc' hr
              exact ha sp rfl
            · rw [h'.sem]
              exact hg.2 op hop
            · intro hk
              rw [h'.sem]
              obtain ⟨u, kind⟩ := op
              cases hk
              exact post_active hs hop h'.counted hst'
    · cases hb
    · have hop : s.semOp n (.call (Obj.timedCall timeout (.sem n))) = some ⟨t, .timedwait⟩ := by
        unfold semOp
        rw [show s.k.runPtr = some t from hr]
        exact if_pos rfl
      have hadmits := hg.2 _ hop
      rw [hop]
      refine ⟨[], h, rfl, by simp, ?_⟩
      refine without_enter ?_ ?_ ?_
      · rw [h'.sem]
        exact h'.counted
      · rw [h'.sem]
        have hle := h'.counted.le
        have hlen := h'.counted.length_le
        rw [h'.counted.len] at hlen
        have hneg : toInt ((s.k.sems (.app n)).val - 1) < 0 := hb
        by_contra hv
        rw [toInt_of_mem (by omega) (by omega)] at hneg
        omega
      · rw [h'.sem]
        exact hadmits

theorem complete_event {c : Call} {r : Int} {ev : Event} (h : (s.complete t c r).1 = some ev) :
    ev.call = c := by
  unfold complete at h
  split at h
  · cases h
  · rw [← Option.some.inj h]

/-- A timed wait never returns from its first critical section. -/
theorem call_not_timed {c : Call} {ev : Event} (hs : s.step (.call c) = some (e, s'))
    (he : e = some ev) (timeout : SizeT) : ev.call ≠ .semTimedwait n timeout := by
  intro hev
  cases (steps_of_step hs).2 with
  | @call u c hr hu hp =>
      cases c with
      | semTimedwait m ticks => cases he
      | thrdExit | thrdJoin | mtxTimedlock => cases he
      | thrdCreate | thrdYield | semWait | semTrywait | semPost | mtxLock | mtxTrylock =>
          rw [complete_event he] at hev
          cases hev
      | thrdSleep ticks =>
          unfold stepCall at he
          dsimp only at he
          split at he
          · rw [complete_event he] at hev
            cases hev
          · cases he
      | mtxUnlock m =>
          unfold stepCall at he
          dsimp only at he
          split at he
          · cases he
          · rw [complete_event he] at hev
            cases hev

/-- The end of a failed wait for a semaphore is regular. -/
theorem regular_of_failed {timeout : SizeT}
    (hs : s.step a = some (some ⟨t, .semTimedwait n timeout, -1⟩, s')) :
    (∀ c, a ≠ .call c) ∧ s.Regular a := by
  generalize he : some (Event.mk t (.semTimedwait n timeout) (-1)) = e at hs
  cases (steps_of_step hs).2 with
  | create | launch | tick => cases he
  | call c hr hu hp => exact absurd rfl (call_not_timed hs he.symm timeout)
  | @resume u _ _ hr hp hs' =>
      refine ⟨nofun, nofun, ?_⟩
      intro w hw m hm
      cases hr.symm.trans hw
      cases hpc : s.pc u with
      | mtxTimedlock m' ticks locked =>
          unfold stepResume at hs'
          rw [hpc] at hs'
          dsimp only at hs'
          split at hs'
          · cases hs'
            cases he
          · have hev := congrArg (·.1) (Option.some.inj hs')
            rw [← he] at hev
            cases complete_event hev
      | _ =>
          rw [hpc] at hm
          cases hm

variable {vals : Nat → Nat}

theorem run_trace (hv : ValidVals vals) (hr : (traced n vals).Run (TraceGuard n) h s) :
    s.Sound ∧ TraceOk n (vals n) h s := by
  refine hr.invariant (P := fun h s => s.Sound ∧ TraceOk n (vals n) h s) ?_ ?_
  · rintro s rfl
    refine ⟨boot_sound vals, by simp [boot], rfl, Sem.Counted.init (hv n), ?_⟩
    intro t timeout hpc
    cases hpc
  · rintro h s a op s' ⟨hsound, hok⟩ hg hs
    obtain ⟨rfl, e, hs⟩ := TransitionSystem.observe_step hs
    exact ⟨(step_refines hsound hg.1 hs).1, hok.step hsound hg hs⟩

/-- A timed wait that fails: its caller's handle is gone, and the semaphore and its grants are those
of the run without the call, exactly if the handle is the first in the wait queue at the end. -/
theorem failed_timedwait (hv : ValidVals vals) (hr : (traced n vals).Run (TraceGuard n) h s)
    {timeout : SizeT} (hs : s.step a = some (some ⟨t, .semTimedwait n timeout, -1⟩, s')) :
    ∃ mid pre, h = mid ++ some ⟨t, .timedwait⟩ :: pre ∧ (∀ op, some op ∈ mid → op.thrd ≠ t) ∧
      s.semOp n a = some ⟨t, .rollback⟩ ∧
      (replay (vals n) (some ⟨t, .rollback⟩ :: h)).sem = s'.k.sems (.app n) ∧
      (some t ∉ (s'.k.sems (.app n)).wq.toList ∧
          Agrees (replay (vals n) (some ⟨t, .rollback⟩ :: h)) (replay (vals n) (mid ++ pre)) ↔
        (s.k.sems (.app n)).wq.toList.head? = some (some t)) := by
  obtain ⟨hsound, hok⟩ := run_trace hv hr
  obtain ⟨hcall, hg⟩ := regular_of_failed hs
  have hst := (step_refines hsound hg hs).2
  obtain ⟨rfl, hrun, hpc, hsl⟩ := hst.of_failed hcall (hok.ret t n timeout)
  obtain ⟨mid, pre, hh, hmid, hw⟩ := hok.pending t timeout hpc hsl
  have hop : s.semOp n .resume = some ⟨t, .rollback⟩ := by
    unfold semOp
    rw [show s.k.runPtr = some t from hrun]
    dsimp only
    rw [show s.pc t = .semTimedwait n timeout false from hpc]
    exact if_pos ⟨rfl, hsl⟩
  have hsem : (replay (vals n) (some ⟨t, .rollback⟩ :: h)).sem = s'.k.sems (.app n) := by
    rw [step_sem hs, semAfter, hop]
    show ((replay (vals n) h).apply _).sem = _
    rw [apply_sem, hok.sem]
  refine ⟨mid, pre, hh, hmid, hop, hsem, ?_⟩
  rw [← hsem, ← hok.sem]
  exact hw.rollback_iff

/-- A thread fails after two ticks. Another one, which waits behind it, goes on waiting. -/
theorem failed_timedwait_two_threads : ∃ h s s', (traced 0 fun _ => 0).Run (TraceGuard 0) h s ∧
    s.step .resume = some (some ⟨.slot 15, .semTimedwait 0 2, -1⟩, s') ∧
    (s.k.sems (.app 0)).wq.toList = [some (.slot 15), some (.slot 14)] ∧
    (s'.k.sems (.app 0)).wq.toList = [some (.slot 14)] ∧
    ∃ mid pre, h = mid ++ some ⟨.slot 15, .timedwait⟩ :: pre ∧
      (∀ op, some op ∈ mid → op.thrd ≠ .slot 15) ∧
      s.semOp 0 .resume = some ⟨.slot 15, .rollback⟩ ∧
      (replay 0 (some ⟨.slot 15, .rollback⟩ :: h)).sem = s'.k.sems (.app 0) ∧
      (some (.slot 15) ∉ (s'.k.sems (.app 0)).wq.toList ∧
          Agrees (replay 0 (some ⟨.slot 15, .rollback⟩ :: h)) (replay 0 (mid ++ pre)) ↔
        (s.k.sems (.app 0)).wq.toList.head? = some (some (.slot 15))) := by
  rcases TransitionSystem.exists_step_of_exec (M := traced 0 fun _ => 0) (G := TraceGuard 0) rfl
    [.create 1 1, .create 1 1, .launch, .call (.semTimedwait 0 2), .tick 0, .call (.semWait 0), .tick 0]
    .resume
    (P := fun _ s => (s.step .resume).map (·.1) = some (some ⟨.slot 15, .semTimedwait 0 2, -1⟩) ∧
      (s.k.sems (.app 0)).wq.toList = [some (.slot 15), some (.slot 14)])
    (Q := fun _ s' => (s'.k.sems (.app 0)).wq.toList = [some (.slot 14)])
    (by decide +kernel) with ⟨h, s, op, s', hr, ⟨he, hq⟩, hs, hq'⟩
  obtain ⟨-, e, hs⟩ := TransitionSystem.observe_step hs
  have hs₁ : s.step .resume = some (e, s') := hs
  rw [hs₁] at he
  cases he
  have hv : ValidVals fun _ => 0 := fun _ => Nat.zero_le _
  obtain ⟨mid, pre, hh, hmid, hop, hsem, hiff⟩ := failed_timedwait hv hr hs₁
  exact ⟨h, s, s', hr, hs₁, hq, hq', mid, pre, hh, hmid, hop, hsem, hiff⟩

/-- `A` waits. `B` waits behind it, with a deadline, and its failure wakes `A`: the handle of `B`
stays in the wait queue, and `A` gets a permit that nobody has posted. -/
theorem failed_timedwait_wakes_other : ∃ h s s' mid pre, (traced 0 fun _ => 0).Run (fun _ _ => True) h s ∧
    s.step .resume = some (some ⟨.slot 14, .semTimedwait 0 1, -1⟩, s') ∧
    h = mid ++ some ⟨.slot 14, .timedwait⟩ :: pre ∧
    some (.slot 14) ∈ (s'.k.sems (.app 0)).wq.toList ∧
    s.k.runQueue.linked (.slot 15) = false ∧ s'.k.runQueue.linked (.slot 15) = true ∧
    (replay 0 (some ⟨.slot 14, .rollback⟩ :: h)).granted = [.slot 15] ∧
    (replay 0 (mid ++ pre)).granted = [] := by
  rcases TransitionSystem.exists_step_of_exec (M := traced 0 fun _ => 0) (G := fun _ _ => True) rfl
    [.create 1 1, .create 1 1, .launch, .call (.semWait 0), .tick 0, .call (.semTimedwait 0 1), .tick 0]
    .resume
    (P := fun h s => (s.step .resume).map (·.1) = some (some ⟨.slot 14, .semTimedwait 0 1, -1⟩) ∧
      h = [none] ++ some ⟨.slot 14, .timedwait⟩ :: [none, some ⟨.slot 15, .wait⟩, none, none, none] ∧
      s.k.runQueue.linked (.slot 15) = false)
    (Q := fun _ s' => some (.slot 14) ∈ (s'.k.sems (.app 0)).wq.toList ∧
      s'.k.runQueue.linked (.slot 15) = true)
    (by decide +kernel) with ⟨h, s, op, s', hr, ⟨he, hh, hl⟩, hs, hm, hl'⟩
  obtain ⟨-, e, hs⟩ := TransitionSystem.observe_step hs
  have hs₁ : s.step .resume = some (e, s') := hs
  rw [hs₁] at he
  cases he
  refine ⟨h, s, s', _, _, hr, hs₁, hh, hm, hl, hl', ?_, by decide⟩
  rw [hh]
  decide

end Sys

end MsTos
