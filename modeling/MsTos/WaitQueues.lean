-- SUMMARY: The invariant of the wait queues: who is in them, where they stand, and what their number says.
import Mathlib.Data.Fintype.Card
import Mathlib.Data.List.Nodup
import Mathlib.Data.Fintype.Option
import MsTos.ViewFrame

namespace MsTos

namespace View

variable {v v' : View} {o : Obj} {t u w : TaskId} {p : Pc} {a : Action} {e : Option Event}

/-! ## States -/

@[simp] theorem boosted_state : (v.boosted o t u).state = (v.thrds u).state := by
  unfold boosted
  cases o with
  | sem n => rfl
  | mtx m =>
      dsimp only
      cases v.holder m with
      | none => rfl
      | some h =>
          dsimp only
          split
          · simp only [setThrd, Function.update_apply]
            split
            · rename_i h
              rw [h]
            · rfl
          · rfl

@[simp] theorem restored_state : (v.restored o t u).state = (v.thrds u).state := by
  unfold restored
  cases o with
  | sem n => rfl
  | mtx m =>
      simp only [setThrd, Function.update_apply]
      split
      · rename_i h
        rw [h]
      · rfl

theorem handed_state :
    (v.handed o t u w).state = if w = u then .ACTIVE else (v.thrds w).state := by
  unfold handed
  rw [Function.update_apply]
  split
  · cases o <;> rfl
  · exact restored_state

/-! ## The invariant -/

/-- The handles in the wait queues are those of the threads that wait. -/
structure Waiting (v : View) : Prop where
  idle : v.pc .idle = .none
  ret : ∀ t c r, v.pc t = .ret c r →
    c = .thrdYield ∨ (∃ n, c = .thrdSleep n) ∨ ∃ o : Obj, c = o.waitCall
  waiter : ∀ o p, p ∈ v.waiters o → ∃ t, p = some t ∧ waitsOn (v.pc t) = some o
  nodup : ∀ o, (v.waiters o).Nodup
  /-- A negative value counts the waiters. -/
  val : v.fault = false → ∀ n,
    v.val n ≤ 32767 ∧ (v.waiters (.sem n)).length = (-v.val n).toNat
  blocking : ∀ t, (v.thrds t).state = .BLOCKING ↔
    ∃ o, blocksOn (v.pc t) = some o ∧ some t ∈ v.waiters o
  granted : ∀ t o, blocksOn (v.pc t) = some o → some t ∉ v.waiters o → v.linked t = true
  unlinked : v.fault = false → ∀ t, (v.thrds t).state = .BLOCKING →
    v.linked t = false ∧ (v.run = some t → v.ifg = true)

theorem waitsOn_of_blocksOn (h : blocksOn p = some o) : waitsOn p = some o := by
  rw [waitsOn, h]
  rfl

theorem blocksOn_of_waitsOn_none (h : waitsOn p = none) : blocksOn p = none :=
  (Option.or_eq_none_iff.1 h).1

namespace Waiting

theorem waiter_some (h : v.Waiting) (ht : some t ∈ v.waiters o) : waitsOn (v.pc t) = some o := by
  obtain ⟨u, hu, hw⟩ := h.waiter o _ ht
  cases hu
  exact hw

/-- A thread that is not at a wait is in no wait queue. -/
theorem not_waiter (h : v.Waiting) (ht : waitsOn (v.pc t) = none) (o : Obj) :
    some t ∉ v.waiters o := by
  intro hm
  rw [h.waiter_some hm] at ht
  cases ht

theorem not_blocking (h : v.Waiting) (ht : blocksOn (v.pc t) = none) :
    (v.thrds t).state ≠ .BLOCKING := by
  intro hb
  obtain ⟨o, ho, -⟩ := (h.blocking t).1 hb
  rw [ho] at ht
  cases ht

/-- A thread that can go on with its call no longer blocks. -/
theorem running_not_blocking (h : v.Waiting) (hf : v.fault = false) (hr : v.run = some t)
    (hi : v.ifg = false) : (v.thrds t).state ≠ .BLOCKING := by
  intro hb
  have := (h.unlinked hf t hb).2 hr
  rw [hi] at this
  cases this

theorem ne_idle (h : v.Waiting) (ht : v.pc t ≠ .none) : t ≠ .idle := by
  rintro rfl
  exact ht h.idle

/-- Beside a thread that does not wait, there is room for all others. -/
theorem room (h : v.Waiting) (ht : v.pc t ≠ .none) (hw : waitsOn (v.pc t) = none) (o : Obj) :
    (v.waiters o).length + 1 ≤ numThreads := by
  have hn : (none :: some .idle :: some t :: v.waiters o).Nodup := by
    have hidle : some .idle ∉ v.waiters o := h.not_waiter (by rw [h.idle]; rfl) o
    have hnone : none ∉ v.waiters o := by
      intro hm
      obtain ⟨u, hu, -⟩ := h.waiter o _ hm
      cases hu
    have ht' := h.not_waiter hw o
    have hti := h.ne_idle ht
    simp [hidle, hnone, ht', h.nodup o, hti.symm]
  have hle := hn.length_le_card
  have hc : Fintype.card (Option TaskId) = numThreads + 2 := rfl
  rw [hc] at hle
  simp only [List.length_cons] at hle
  omega

theorem length_le (h : v.Waiting) (o : Obj) : (v.waiters o).length ≤ 18 :=
  (h.nodup o).length_le_card

/-- The value of a semaphore with waiters. -/
theorem val_eq (h : v.Waiting) (hf : v.fault = false) {n : Nat}
    (hw : v.waiters (.sem n) ≠ []) : v.val n = -((v.waiters (.sem n)).length : Int) := by
  have hl := List.length_pos_iff.2 hw
  have hv := (h.val hf n).2
  omega

end Waiting

/-! ## Conditions -/

/-- The handle of `t` is no longer in the wait queue of `o` when its timed wait ends. -/
def Dequeued (v : View) (t : TaskId) : Obj → Prop
  | .sem n =>
      if (v.thrds t).state = .SLEEPING then (v.waiters (.sem n)).head? = some (some t)
      else some t ∉ v.waiters (.sem n)
  | .mtx m => some t ∉ v.waiters (.mtx m)

instance (v : View) (t : TaskId) : DecidablePred (v.Dequeued t)
  | .sem _ => inferInstanceAs (Decidable (ite _ _ _))
  | .mtx _ => inferInstanceAs (Decidable (¬ _))

/-- A timed wait ends only with its handle taken out of the wait queue. -/
def Unqueued (v : View) (a : Action) : Prop :=
  a = .resume → ∀ t, v.run = some t → ∀ o ∈ timesOn (v.pc t), v.Dequeued t o

instance (v : View) (a : Action) : Decidable (v.Unqueued a) :=
  inferInstanceAs (Decidable (_ → _))

/-- A tick takes no entry of a blocked thread out of the sleepers or the deadlines. -/
def Spares (v : View) (a : Action) (v' : View) : Prop :=
  ∀ sp, a = .tick sp → ∀ t, (v.thrds t).state = .BLOCKING → some t ∉ v.taken v'

/-! ## Steps -/

/-- A step of the running thread `t` alone, which goes to `p`: no wait queue and nothing of another
thread changes. -/
structure Local (v : View) (t : TaskId) (p : Pc) (v' : View) : Prop where
  run : v'.run = some t
  pc : v'.pc = Function.update v.pc t p
  waiters : v'.waiters = v.waiters
  linked : ∀ u, u ≠ t → v'.linked u = v.linked u
  state : ∀ u, u ≠ t → (v'.thrds u).state = (v.thrds u).state

namespace Waiting

theorem local_step (h : v.Waiting) (hl : Local v t p v') (ht : v.pc t ≠ .none)
    (hq : ∀ o, some t ∉ v.waiters o) (hs : (v'.thrds t).state ≠ .BLOCKING) (hp : waitsOn p = none)
    (hret : ∀ c r, p = .ret c r → c = .thrdYield ∨ ∃ n, c = .thrdSleep n)
    (hval : v'.fault = false → v.fault = false ∧
      ∀ n, v'.val n ≤ 32767 ∧ (v.waiters (.sem n)).length = (-v'.val n).toNat) : v'.Waiting := by
  have hself : v'.pc t = p := by rw [hl.pc, Function.update_self]
  have hother : ∀ u, u ≠ t → v'.pc u = v.pc u := by
    intro u hu
    rw [hl.pc, Function.update_of_ne hu]
  have hbp := blocksOn_of_waitsOn_none hp
  constructor
  case idle => rw [hother _ (h.ne_idle ht).symm, h.idle]
  case ret =>
      intro u c r hu
      rcases eq_or_ne u t with rfl | hne
      · rw [hself] at hu
        rcases hret c r hu with hc | hc
        · exact .inl hc
        · exact .inr (.inl hc)
      · rw [hother u hne] at hu
        exact h.ret u c r hu
  case waiter =>
      intro o q hm
      rw [hl.waiters] at hm
      obtain ⟨u, rfl, hu⟩ := h.waiter o q hm
      have hne : u ≠ t := by
        rintro rfl
        exact hq o hm
      exact ⟨u, rfl, by rw [hother u hne, hu]⟩
  case nodup =>
      rw [hl.waiters]
      exact h.nodup
  case val =>
      intro hf
      rw [hl.waiters]
      exact (hval hf).2
  case blocking =>
      intro u
      rcases eq_or_ne u t with rfl | hne
      · simp [hs, hself, hbp]
      · rw [hl.state u hne, hother u hne, hl.waiters]
        exact h.blocking u
  case granted =>
      intro u o hu hm
      rw [hl.waiters] at hm
      rcases eq_or_ne u t with rfl | hne
      · rw [hself, hbp] at hu
        cases hu
      · rw [hother u hne] at hu
        rw [hl.linked u hne]
        exact h.granted u o hu hm
  case unlinked =>
      intro hf u hb
      have hne : u ≠ t := by
        rintro rfl
        exact hs hb
      rw [hl.state u hne] at hb
      refine ⟨by rw [hl.linked u hne]; exact (h.unlinked (hval hf).1 u hb).1, ?_⟩
      intro hr
      rw [hl.run] at hr
      cases hr
      exact absurd rfl hne

end Waiting

/-- A step in which the running thread `t` joins the wait queue of `o` and goes to `p`. -/
structure Joins (v : View) (o : Obj) (t : TaskId) (p : Pc) (v' : View) : Prop where
  run : v'.run = some t
  pc : v'.pc = Function.update v.pc t p
  waiters : v'.waiters = (v.enqueue o t).waiters
  val : v'.val = v.downVal o
  linked : ∀ u, u ≠ t → v'.linked u = v.linked u
  state : ∀ u, u ≠ t → (v'.thrds u).state = (v.thrds u).state

/-- The wait queues after `t` has joined one of them. -/
theorem Waiting.enqueue_waiters (h : v.Waiting) (hu : v.pc t = .user) :
    (v.enqueue o t).waiters = Function.update v.waiters o (v.waiters o ++ [some t]) := by
  have hroom := h.room (by rw [hu]; simp) (by rw [hu]; rfl) o
  unfold enqueue queued
  dsimp only
  rw [if_pos (Nat.lt_of_succ_le hroom)]

theorem Waiting.mem_enqueue (h : v.Waiting) (hu : v.pc t = .user) {q : Obj} {r : ThrdPtr} :
    r ∈ (v.enqueue o t).waiters q ↔ r ∈ v.waiters q ∨ q = o ∧ r = some t := by
  rw [h.enqueue_waiters hu, Function.update_apply]
  split
  · rename_i hq
    subst hq
    simp
  · rename_i hq
    simp [hq]

theorem Waiting.joins (h : v.Waiting) (hl : Joins v o t p v') (hu : v.pc t = .user)
    (hb : v.Busy o) (hp : waitsOn p = some o)
    (hret : ∀ c r, p = .ret c r → c = o.waitCall)
    (hs : (v'.thrds t).state = .BLOCKING ↔ blocksOn p = some o)
    (hun : v'.fault = false → v.fault = false ∧
      (blocksOn p = some o → v'.linked t = false ∧ v'.ifg = true)) : v'.Waiting := by
  have hself : v'.pc t = p := by rw [hl.pc, Function.update_self]
  have hother : ∀ u, u ≠ t → v'.pc u = v.pc u := by
    intro u hu
    rw [hl.pc, Function.update_of_ne hu]
  have hmem : ∀ q r, r ∈ v'.waiters q ↔ r ∈ v.waiters q ∨ q = o ∧ r = some t := by
    intro q r
    rw [hl.waiters, h.mem_enqueue hu]
  have ht : v.pc t ≠ .none := by
    rw [hu]
    simp
  have hw : waitsOn (v.pc t) = none := by
    rw [hu]
    rfl
  have hbp : ∀ q, blocksOn p = some q → q = o := by
    intro q hq
    have := waitsOn_of_blocksOn hq
    rw [hp] at this
    exact (Option.some.inj this).symm
  constructor
  case idle => rw [hother _ (h.ne_idle ht).symm, h.idle]
  case ret =>
      intro u c r hc
      rcases eq_or_ne u t with rfl | hne
      · rw [hself] at hc
        exact .inr (.inr ⟨o, hret c r hc⟩)
      · rw [hother u hne] at hc
        exact h.ret u c r hc
  case waiter =>
      intro q r hm
      cases (hmem q r).1 hm with
      | inl hm =>
          obtain ⟨u, rfl, hq⟩ := h.waiter q r hm
          have hne : u ≠ t := by
            rintro rfl
            exact h.not_waiter hw q hm
          exact ⟨u, rfl, by rw [hother u hne, hq]⟩
      | inr hm =>
          obtain ⟨rfl, rfl⟩ := hm
          exact ⟨t, rfl, by rw [hself, hp]⟩
  case nodup =>
      intro q
      rw [hl.waiters, h.enqueue_waiters hu, Function.update_apply]
      split
      · rw [← List.concat_eq_append]
        exact (h.nodup o).concat (h.not_waiter hw o)
      · exact h.nodup q
  case val =>
      intro hf n
      have hv := h.val (hun hf).1
      rw [hl.val, hl.waiters, h.enqueue_waiters hu]
      cases o with
      | mtx m => simpa [downVal] using hv n
      | sem s =>
          rcases eq_or_ne n s with rfl | hne
          · have hroom := h.room ht hw (.sem n)
            have hv := hv n
            have hb : toInt (v.val n - 1) < 0 := hb
            simp only [downVal, Function.update_self, List.length_append, List.length_singleton]
            simp only [numThreads] at hroom
            unfold toInt at *
            omega
          · simpa [downVal, hne] using hv n
  case blocking =>
      intro u
      rcases eq_or_ne u t with rfl | hne
      · rw [hs, hself]
        constructor
        · intro hb
          exact ⟨o, hb, (hmem o _).2 (.inr ⟨rfl, rfl⟩)⟩
        · rintro ⟨q, hq, -⟩
          rwa [← hbp q hq]
      · rw [hl.state u hne, hother u hne, h.blocking u]
        simp [hmem, hne]
  case granted =>
      intro u q hq hm
      rw [hmem] at hm
      rcases eq_or_ne u t with rfl | hne
      · rw [hself] at hq
        exact absurd (.inr ⟨hbp q hq, rfl⟩) hm
      · rw [hother u hne] at hq
        rw [hl.linked u hne]
        exact h.granted u q hq fun hm' => hm (.inl hm')
  case unlinked =>
      intro hf u hb
      rcases eq_or_ne u t with rfl | hne
      · have hb' := (hun hf).2 (hs.1 hb)
        exact ⟨hb'.1, fun _ => hb'.2⟩
      · rw [hl.state u hne] at hb
        refine ⟨by rw [hl.linked u hne]; exact (h.unlinked (hun hf).1 u hb).1, ?_⟩
        intro hr
        rw [hl.run] at hr
        cases hr
        exact absurd rfl hne

namespace Waiting

/-- A semaphore with a negative value does not run out of waiters. -/
theorem up_of_waiters (h : v.Waiting) (hf : v.fault = false) {n : Nat} (hw : v.waiters (.sem n) ≠ []) :
    ¬ v.Vacant (.sem n) ∧ toInt (v.val n + 1) = v.val n + 1 := by
  have hv := h.val_eq hf hw
  have hl := List.length_pos_iff.2 hw
  have hle := h.length_le (.sem n)
  simp only [Vacant]
  unfold toInt
  omega

/-- Where nobody is woken, the value of a semaphore goes up to at most the largest one. -/
theorem free_val (h : v.Waiting) (hf : v.fault = false) (hv : v.Vacant o) (n : Nat) :
    v.upVal o n ≤ 32767 ∧ (v.waiters (.sem n)).length = (-v.upVal o n).toNat := by
  have hn := h.val hf n
  cases o with
  | mtx m => exact hn
  | sem s =>
      rcases eq_or_ne n s with rfl | hne
      · have hv : 0 < toInt (v.val n + 1) := hv
        have hle := h.length_le (.sem n)
        simp only [upVal, Function.update_self]
        unfold toInt at *
        omega
      · simpa [upVal, hne] using hn

theorem take_val (h : v.Waiting) (hf : v.fault = false) (hb : ∀ n, o = .sem n → 0 < v.val n)
    (n : Nat) : v.downVal o n ≤ 32767 ∧
      (v.waiters (.sem n)).length = (-v.downVal o n).toNat := by
  have hn := h.val hf n
  cases o with
  | mtx m => exact hn
  | sem s =>
      rcases eq_or_ne n s with rfl | hne
      · have hv := hb n rfl
        simp only [downVal, Function.update_self]
        unfold toInt
        omega
      · simpa [downVal, hne] using hn

/-- A permit is there if a semaphore is not busy. -/
theorem pos_of_not_busy (h : v.Waiting) (hf : v.fault = false) (hb : ¬ v.Busy o) (n : Nat)
    (ho : o = .sem n) : 0 < v.val n := by
  subst ho
  have hn := h.val hf n
  have hle := h.length_le (.sem n)
  have hb : ¬ toInt (v.val n - 1) < 0 := hb
  unfold toInt at hb
  omega

/-- The first waiter gets what it waits for. -/
theorem grant (h : v.Waiting) (hf : v.fault = false) {l : List ThrdPtr}
    (hw : v.waiters o = some u :: l) : (v.grant o t u l).Waiting := by
  have hu : waitsOn (v.pc u) = some o := by
    apply h.waiter_some
    rw [hw]
    exact List.mem_cons_self
  have hnd : some u ∉ l ∧ l.Nodup := by
    have := h.nodup o
    rw [hw] at this
    exact List.nodup_cons.1 this
  have hmem : ∀ q r, r ∈ (v.grant o t u l).waiters q ↔ r ∈ v.waiters q ∧ ¬ (q = o ∧ r = some u) := by
    intro q r
    show r ∈ Function.update v.waiters o l q ↔ _
    rw [Function.update_apply]
    split
    · rename_i hq
      subst hq
      rw [hw, List.mem_cons]
      constructor
      · intro hr
        refine ⟨.inr hr, ?_⟩
        rintro ⟨-, rfl⟩
        exact hnd.1 hr
      · rintro ⟨hr | hr, hne⟩
        · exact absurd ⟨rfl, hr⟩ hne
        · exact hr
    · rename_i hq
      simp [hq]
  have hstate : ∀ x, ((v.grant o t u l).thrds x).state =
      if x = u then .ACTIVE else (v.thrds x).state := fun x => handed_state
  have hlinked : ∀ x, (v.grant o t u l).linked x = if x = u then true else v.linked x := fun x =>
    Function.update_apply _ _ _ _
  constructor
  case idle => exact h.idle
  case ret => exact h.ret
  case waiter =>
      intro q r hm
      exact h.waiter q r ((hmem q r).1 hm).1
  case nodup =>
      intro q
      show (Function.update v.waiters o l q).Nodup
      rw [Function.update_apply]
      split
      · exact hnd.2
      · exact h.nodup q
  case val =>
      intro _ n
      have hn := h.val hf n
      show v.upVal o n ≤ 32767 ∧
        (Function.update v.waiters o l (.sem n)).length = (-v.upVal o n).toNat
      cases o with
      | mtx m => simpa [upVal] using hn
      | sem s =>
          rcases eq_or_ne n s with rfl | hne
          · have hv := (h.up_of_waiters hf (n := n) (by simp [hw])).2
            rw [hw, List.length_cons] at hn
            simp only [upVal, Function.update_self, hv]
            omega
          · simpa [upVal, hne] using hn
  case blocking =>
      intro x
      rw [hstate]
      split
      · rename_i hx
        subst hx
        simp only [reduceCtorEq, false_iff]
        rintro ⟨q, hq, hm⟩
        have hq' : q = o := by
          have := waitsOn_of_blocksOn hq
          rw [show (v.grant o t x l).pc = v.pc from rfl, hu] at this
          exact (Option.some.inj this).symm
        exact ((hmem q _).1 hm).2 ⟨hq', rfl⟩
      · rename_i hx
        rw [h.blocking x]
        simp [hmem, hx, show (v.grant o t u l).pc = v.pc from rfl]
  case granted =>
      intro x q hq hm
      rw [hlinked]
      split
      · rfl
      · rename_i hx
        apply h.granted x q hq
        intro hm'
        exact hm ((hmem q _).2 ⟨hm', by simp [hx]⟩)
  case unlinked =>
      intro hf' x hb
      rw [hstate] at hb
      split at hb
      · cases hb
      · rename_i hx
        rw [hlinked, if_neg hx]
        exact h.unlinked hf x hb

/-- Nobody moves, joins a wait queue or leaves one. -/
theorem mono (h : v.Waiting) (hpc : v'.pc = v.pc) (hw : v'.waiters = v.waiters)
    (hval : v'.fault = false → v.fault = false ∧
      ∀ n, v'.val n ≤ 32767 ∧ (v.waiters (.sem n)).length = (-v'.val n).toNat)
    (hs : ∀ u, (v'.thrds u).state = .BLOCKING ↔ (v.thrds u).state = .BLOCKING)
    (hl : ∀ u, v.linked u = true → v'.linked u = true)
    (hb : v'.fault = false → ∀ u, (v.thrds u).state = .BLOCKING → v.linked u = false →
      v'.linked u = false ∧ (v'.run = some u → v'.ifg = true)) : v'.Waiting := by
  constructor
  case idle => rw [hpc, h.idle]
  case ret => rw [hpc]; exact h.ret
  case waiter => rw [hpc, hw]; exact h.waiter
  case nodup => rw [hw]; exact h.nodup
  case val =>
      intro hf
      rw [hw]
      exact (hval hf).2
  case blocking =>
      intro u
      rw [hs, hpc, hw]
      exact h.blocking u
  case granted =>
      intro u o hu hm
      rw [hpc] at hu
      rw [hw] at hm
      exact hl u (h.granted u o hu hm)
  case unlinked =>
      intro hf u hu
      have hu := (hs u).1 hu
      exact hb hf u hu (h.unlinked (hval hf).1 u hu).1

theorem awake (h : v.Waiting) (ht : (v.thrds t).state ≠ .BLOCKING) (hf : v.fault = false) :
    (v.awake t).Waiting := by
  refine h.mono rfl rfl (fun hf => ⟨hf, h.val hf⟩) ?_ (fun _ => id) ?_
  · intro u
    show (v.setThrd t _ u).state = _ ↔ _
    rw [setThrd_state]
    split
    · rename_i hu
      subst hu
      simp [ht]
    · rfl
  · intro _ u hu hl
    exact ⟨hl, (h.unlinked hf u hu).2⟩

theorem tick (h : v.Waiting) {woken expired : Multiset ThrdPtr} (ht : v.Ticks v' woken expired)
    {sp : Addr} (hc : v.Spares (.tick sp) v') : v'.Waiting := by
  have hwoken : ∀ u, (v.thrds u).state = .BLOCKING → some u ∉ woken ∧ some u ∉ expired := by
    intro u hu
    have hnot := hc sp rfl u hu
    rw [ht.taken_eq, Multiset.mem_add, not_or] at hnot
    exact hnot
  have hstate : ∀ u, (v'.thrds u).state =
      if some u ∈ woken then .ACTIVE else (v.thrds u).state := by
    intro u
    obtain ⟨w, hw⟩ := ht.thrds u
    rw [hw]
  have hs : ∀ u, (v'.thrds u).state = .BLOCKING ↔ (v.thrds u).state = .BLOCKING := by
    intro u
    rw [hstate]
    split
    · rename_i hu
      constructor
      · intro hb
        cases hb
      · intro hb
        exact absurd hu (hwoken u hb).1
    · rfl
  refine h.mono ht.pc ht.waiters ?_ hs ?_ ?_
  · intro hf
    rw [ht.val]
    exact ⟨(ht.fault hf).1, h.val (ht.fault hf).1⟩
  · intro u hu
    exact (ht.linked u).2 (.inl hu)
  · intro hf u hu hl
    have hl' : v'.linked u = false := by
      rw [Bool.eq_false_iff, ne_eq, ht.linked u]
      simp [hl, (hwoken u hu).1, (hwoken u hu).2]
    refine ⟨hl', ?_⟩
    intro hr
    rcases ht.run with hn | ⟨x, hx, hlx⟩ | ⟨hi, -⟩ | ⟨hk, -, hk'⟩
    · exact absurd hn (ht.fault hf).2
    · rw [hr] at hx
      cases hx
      rw [hl'] at hlx
      cases hlx
    · rw [hr] at hi
      cases hi
      exact absurd hu (h.not_blocking (by rw [h.idle]; rfl))
    · rw [hk] at hr
      exact absurd ((hs u).2 hu) (hk' u hr).1

theorem start (h : v.Waiting) {i : Fin numThreads} (hi : v.pc (.slot i) = .none) (p : Nat) :
    (v.start i p).Waiting := by
  have hw : waitsOn (v.pc (.slot i)) = none := by
    rw [hi]
    rfl
  have hpc : ∀ u, (v.start i p).pc u = if u = .slot i then .user else v.pc u := fun u =>
    Function.update_apply _ _ _ _
  have hlinked : ∀ u, (v.start i p).linked u = if u = .slot i then true else v.linked u := fun u =>
    Function.update_apply _ _ _ _
  have hstate : ∀ u, ((v.start i p).thrds u).state =
      if u = .slot i then .ACTIVE else (v.thrds u).state := fun u => setThrd_state
  constructor
  case idle =>
      rw [hpc, if_neg (by simp)]
      exact h.idle
  case ret =>
      intro u c r hu
      rw [hpc] at hu
      split at hu
      · cases hu
      · exact h.ret u c r hu
  case waiter =>
      intro o q hm
      obtain ⟨u, rfl, hu⟩ := h.waiter o q hm
      refine ⟨u, rfl, ?_⟩
      rw [hpc, if_neg, hu]
      rintro rfl
      exact h.not_waiter hw o hm
  case nodup => exact h.nodup
  case val => exact h.val
  case blocking =>
      intro u
      rw [hstate, hpc]
      split
      · simp [blocksOn]
      · exact h.blocking u
  case granted =>
      intro u o hu hm
      rw [hpc] at hu
      rw [hlinked]
      split
      · rfl
      · rename_i hne
        rw [if_neg hne] at hu
        exact h.granted u o hu hm
  case unlinked =>
      intro hf u hu
      rw [hstate] at hu
      split at hu
      · cases hu
      · rename_i hne
        rw [hlinked, if_neg hne]
        exact h.unlinked hf u hu

end Waiting

/-- A step that changes nothing but the request and where the running thread stands. -/
theorem Local.setPc (hr : v.run = some t) (b : Bool) (p : Pc) :
    Local v t p ({ v with ifg := b }.setPc t p) where
  run := hr
  pc := rfl
  waiters := rfl
  linked := fun _ _ => rfl
  state := fun _ _ => rfl

namespace Waiting

/-- A thread in its own code is in no wait queue and does not block. -/
theorem user (h : v.Waiting) (hu : v.pc t = .user) : v.pc t ≠ .none ∧ (∀ o, some t ∉ v.waiters o) ∧
    (v.thrds t).state ≠ .BLOCKING := by
  refine ⟨?_, ?_, ?_⟩
  · rw [hu]
    simp
  · exact h.not_waiter (by rw [hu]; rfl)
  · exact h.not_blocking (by rw [hu]; rfl)

/-- A thread that can go on with a call that blocked it is in no wait queue. -/
theorem not_mem_of_ret (h : v.Waiting) (hf : v.fault = false) (hr : v.run = some t)
    (hi : v.ifg = false) {c : Call} {r : Int} (hu : v.pc t = .ret c r) (o : Obj) :
    some t ∉ v.waiters o := by
  intro hm
  have hw := h.waiter_some hm
  have hb : blocksOn (v.pc t) = some o := by
    rw [hu] at hw ⊢
    simpa [waitsOn, timesOn] using hw
  exact h.running_not_blocking hf hr hi ((h.blocking t).2 ⟨o, hb, hm⟩)

theorem take (h : v.Waiting) (hf : v.fault = false) (hb : ∀ n, o = .sem n → 0 < v.val n) :
    (v.take o t).Waiting :=
  h.mono rfl rfl (fun hf => ⟨hf, h.take_val hf hb⟩) (fun _ => Iff.rfl) (fun _ => id)
    fun _ u hu hl => ⟨hl, (h.unlinked hf u hu).2⟩

/-- Giving an object back keeps the invariant. -/
theorem signals (h : v.Waiting) (hf : v.fault = false) (hs : v.Signals o t v') : v'.Waiting := by
  have hst : ∀ u, ((v.free o t).thrds u).state = .BLOCKING ↔ (v.thrds u).state = .BLOCKING := by
    intro u
    show (v.restored o t u).state = _ ↔ _
    rw [restored_state]
  cases hs with
  | free hv =>
      refine h.mono rfl rfl (fun hf => ⟨hf, h.free_val hf hv⟩) hst (fun _ => id) ?_
      intro _ u hu hl
      exact ⟨hl, (h.unlinked hf u hu).2⟩
  | grant hv hw => exact h.grant hf hw
  | crash hv hw =>
      refine h.mono rfl rfl ?_ hst (fun _ => id) ?_
      all_goals
        intro hf
        cases hf

/-- The rolled back wait of the first waiter: it leaves the wait queue. -/
theorem rollback (h : v.Waiting) (hf : v.fault = false) (hr : v.run = some t) {n : Nat}
    (ht : v.pc t ≠ .none) (hw : (v.waiters (.sem n)).head? = some (some t))
    (hs : (v.thrds t).state ≠ .BLOCKING) (hv : (v.awake t).Signals (.sem n) t v') :
    (v'.setPc t .user).Waiting := by
  have ha := h.awake hs hf
  have hne : (v.awake t).waiters (.sem n) ≠ [] := by
    intro h0
    rw [show v.waiters (.sem n) = [] from h0] at hw
    cases hw
  cases hv with
  | free hv => exact absurd hv (ha.up_of_waiters hf hne).1
  | crash hv hw => exact absurd hw hne
  | @grant u l hv hl =>
      have hu : u = t := by
        rw [show v.waiters (.sem n) = some u :: l from hl] at hw
        simpa using hw
      subst hu
      have hg : ((v.awake u).grant (.sem n) u u l).Waiting := ha.grant hf hl
      have hwait : waitsOn (v.pc u) = some (.sem n) := by
        apply h.waiter_some
        rw [show v.waiters (.sem n) = some u :: l from hl]
        exact List.mem_cons_self
      refine hg.local_step (t := u) (p := .user) ⟨hr, rfl, rfl, fun _ _ => rfl, fun _ _ => rfl⟩ ht ?_ ?_
        rfl (by simp) (fun hf => ⟨hf, hg.val hf⟩)
      · intro o hm
        have ho : some (Obj.sem n) = some o := hwait.symm.trans (hg.waiter_some hm)
        cases ho
        have hnd := ha.nodup (.sem n)
        rw [hl] at hnd
        apply (List.nodup_cons.1 hnd).1
        have : some u ∈ Function.update (v.awake u).waiters (.sem n) l (.sem n) := hm
        rwa [Function.update_self] at this
      · show ((v.awake u).handed (.sem n) u u u).state ≠ _
        rw [handed_state, if_pos rfl]
        simp

/-- Every step of the abstract kernel keeps the invariant, under the conditions. -/
theorem step (h : v.Waiting) (hf : v.fault = false) (hs : v.Step a e v') (hq : v.Unqueued a)
    (hc : v.Spares a v') : v'.Waiting := by
  cases hs with
  | create r p i hr hi | thrdCreate r p i hr hu hi => exact h.start hi p
  | createFails | fails => exact h
  | @launch p f hr hp =>
      refine h.mono rfl rfl ?_ (fun _ => Iff.rfl) (fun _ => id) ?_
      · intro hf'
        exact ⟨hf, h.val hf⟩
      · intro hf' u hu hl
        refine ⟨hl, ?_⟩
        intro hru
        rcases hp with ⟨rfl, -⟩ | ⟨rfl, -⟩ | ⟨⟨x, rfl, hx⟩, -⟩
        · cases hru
        · cases hru
          exact absurd hu (h.not_blocking (by rw [h.idle]; rfl))
        · cases hru
          rw [hl] at hx
          cases hx
  | @yields t c hr hu hy =>
      obtain ⟨ht, hw, hb⟩ := h.user hu
      refine h.local_step (.setPc hr true _) ht hw hb ?_ ?_ fun hf => ⟨hf, h.val hf⟩
      · rcases hy with rfl | ⟨n, rfl⟩ <;> rfl
      · intro c' r hc'
        cases hc'
        exact hy
  | take o hr hu hb => exact h.take hf (h.pos_of_not_busy hf hb)
  | tryTake n hr hu hb =>
      refine h.take hf ?_
      intro m hm
      cases hm
      exact hb
  | trySteal m hr hu hb => exact h.take hf (by simp)
  | @block t v₁ o hr hu hb hl =>
      obtain ⟨l, f, rfl, hlink, hfault⟩ := hl.eq
      refine h.joins (p := .ret o.waitCall 0) ⟨hr, rfl, rfl, rfl, hlink, ?_⟩ hu hb (by simp) ?_ ?_ ?_
      · intro u hut
        show ((v.enqueue o t).setThrd t _ u).state = _
        rw [setThrd_state, if_neg hut]
        exact boosted_state
      · intro c r hc
        cases hc
        rfl
      · show ((v.enqueue o t).setThrd t _ t).state = _ ↔ _
        rw [setThrd_state, if_pos rfl]
        simp
      · intro hf'
        exact ⟨hf, fun _ => ⟨(hfault hf').2, rfl⟩⟩
  | @timedTake t o n hr hu hb =>
      obtain ⟨ht, hw, hbl⟩ := h.user hu
      exact h.local_step (p := o.timedPc n true) ⟨hr, rfl, rfl, fun _ _ => rfl, fun _ _ => rfl⟩ ht hw hbl
        (by simp) (by cases o <;> simp [Obj.timedPc])
        fun hf => ⟨hf, h.take_val hf (h.pos_of_not_busy hf hb)⟩
  | @timedZero t o n hn hr hu hb =>
      refine h.joins (p := o.timedPc n false) ⟨hr, rfl, rfl, rfl, fun _ _ => rfl, ?_⟩ hu hb (by simp)
        (by cases o <;> simp [Obj.timedPc]) ?_ ?_
      · intro u hut
        exact boosted_state
      · show (v.boosted o t t).state = _ ↔ _
        rw [boosted_state, blocksOn_timedPc]
        simp [(h.user hu).2.2]
      · intro hf'
        exact ⟨hf, by simp⟩
  | @timedBlock t v₁ o n hn hr hu hb hl =>
      obtain ⟨l, f, rfl, hlink, hfault⟩ := hl.eq
      refine h.joins (p := o.timedPc n false) ⟨hr, rfl, rfl, rfl, hlink, ?_⟩ hu hb (by simp)
        (by cases o <;> simp [Obj.timedPc]) ?_ ?_
      · intro u hut
        show (View.setThrd _ t _ u).state = _
        rw [setThrd_state, if_neg hut]
        exact boosted_state
      · show (View.setThrd _ t _ t).state = _ ↔ _
        rw [setThrd_state, if_pos rfl]
        simp
      · intro hf'
        exact ⟨hf, by simp⟩
  | signal o hr hu hh hs => exact h.signals hf hs
  | @sleep t n hn hr hu =>
      obtain ⟨ht, hw, -⟩ := h.user hu
      refine h.local_step (p := .sleepPause n) ⟨hr, rfl, rfl, fun _ _ => rfl, ?_⟩ ht hw ?_ rfl (by simp)
        fun hf => ⟨hf, h.val hf⟩
      · intro u hut
        show (View.setThrd _ t _ u).state = _
        rw [setThrd_state, if_neg hut]
      · show (View.setThrd _ t _ t).state ≠ _
        rw [setThrd_state, if_pos rfl]
        simp
  | @exit t r hr hu =>
      obtain ⟨ht, hw, hb⟩ := h.user hu
      exact h.local_step (.setPc hr v.ifg .kill) ht hw hb rfl (by simp) fun hf => ⟨hf, h.val hf⟩
  | @ret t c r hr hi hu =>
      exact h.local_step (.setPc hr v.ifg .user) (by rw [hu]; simp) (h.not_mem_of_ret hf hr hi hu)
        (h.running_not_blocking hf hr hi) rfl (by simp) fun hf => ⟨hf, h.val hf⟩
  | @pause t v₁ n hr hi hu hl =>
      obtain ⟨l, f, rfl, hlink, hfault⟩ := hl.eq
      refine h.local_step (p := .ret (.thrdSleep n) 0) ⟨hr, rfl, rfl, hlink, fun _ _ => rfl⟩ (by rw [hu]; simp)
        (h.not_waiter (by rw [hu]; rfl)) (h.not_blocking (by rw [hu]; rfl)) rfl ?_
        fun hf' => ⟨hf, h.val hf⟩
      intro c r hc
      cases hc
      exact .inr ⟨n, rfl⟩
  | @timedLeave t o n b hr hi hu hs hm =>
      refine h.local_step (.setPc hr v.ifg .user) (by rw [hu]; cases o <;> simp [Obj.timedPc]) ?_
        (h.not_blocking (by rw [hu]; simp)) rfl (by simp) fun hf => ⟨hf, h.val hf⟩
      cases b with
      | true => exact h.not_waiter (by rw [hu]; simp)
      | false =>
          intro o' hm'
          have ho : o' = o := by
            have := h.waiter_some hm'
            rw [hu, waitsOn_timedPc] at this
            exact (Option.some.inj this).symm
          subst ho
          have hd := hq rfl t hr o' (by rw [hu]; simp)
          cases o' with
          | sem s =>
              rw [Dequeued, if_neg (hs s rfl rfl)] at hd
              exact hd hm'
          | mtx m => exact hd hm'
  | @rollback t v₁ n timeout hr hi hu hst hv =>
      have hd := hq rfl t hr (.sem n) (by rw [hu]; rfl)
      rw [Dequeued, if_pos hst] at hd
      exact h.rollback hf hr (by rw [hu]; simp) hd (by rw [hst]; simp) hv
  | @kill t v₁ hr hi hu hl =>
      obtain ⟨l, f, rfl, hlink, hfault⟩ := hl.eq
      exact h.local_step (p := .none) ⟨hr, rfl, rfl, hlink, fun _ _ => rfl⟩ (by rw [hu]; simp)
        (h.not_waiter (by rw [hu]; rfl)) (h.not_blocking (by rw [hu]; rfl)) rfl (by simp)
        fun hf' => ⟨hf, h.val hf⟩
  | tick sp hr ht => exact h.tick ht hc

end Waiting

end View

end MsTos
