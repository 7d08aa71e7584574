-- SUMMARY: The permits of semaphores: when none is handed out that nobody posted, and how a timeout of zero hands one out.
import MsTos.Blocking
import MsTos.Lib.Tally

namespace MsTos

/-! ## Counting calls -/

/-- The calls that take a permit of a semaphore. -/
def takesPermit (n : Nat) : Call → Bool
  | .semWait m | .semTimedwait m _ | .semTrywait m => m = n
  | _ => false

/-- A call that takes a permit has returned 0. -/
def acquired (n : Nat) : Option Event → Bool
  | none => false
  | some e => takesPermit n e.call && e.ret == 0

/-- A `sem_post` of the application has returned. -/
def posted (n : Nat) : Option Event → Bool
  | none => false
  | some e => e.call == .semPost n

section

variable (n : Nat) (t : TaskId) (o : Obj)

theorem acquired_waitCall (r : Int) (hr : acquired n (some ⟨t, o.waitCall, r⟩) = true) : o = .sem n := by
  cases o with
  | sem m =>
      have hm : m = n := by
        simp only [acquired, takesPermit, Obj.waitCall, Bool.and_eq_true, decide_eq_true_eq] at hr
        exact hr.1
      rw [hm]
  | mtx m => cases hr

theorem acquired_timedCall (r : Int) (ticks : SizeT)
    (hr : acquired n (some ⟨t, o.timedCall ticks, r⟩) = true) : o = .sem n := by
  cases o with
  | sem m =>
      have hm : m = n := by
        simp only [acquired, takesPermit, Obj.timedCall, Bool.and_eq_true, decide_eq_true_eq] at hr
        exact hr.1
      rw [hm]
  | mtx m => cases hr

@[simp] theorem acquired_signalCall (r : Int) : acquired n (some ⟨t, o.signalCall, r⟩) = false := by
  cases o <;> rfl

@[simp] theorem posted_signalCall (r : Int) : posted n (some ⟨t, (Obj.sem n).signalCall, r⟩) = true := by
  simp [posted, Obj.signalCall]

theorem acquired_of_ne {c : Call} {r : Int} (hr : r ≠ 0) : acquired n (some ⟨t, c, r⟩) = false := by
  simp [acquired, hr]

end

namespace View

/-! ## Permits -/

/-- A thread at `pc` has got a permit of the semaphore, and has not returned with it; `queued` says
whether its handle is in the wait queue. -/
def hasPermit (n : Nat) (pc : Pc) (queued : Bool) : Bool :=
  match pc with
  | .semTimedwait m _ locked => m = n ∧ (locked = true ∨ queued = false)
  | .ret (.semWait m) _ => m = n ∧ queued = false
  | _ => false

def permit (n : Nat) (p : Pc × Bool) : ℤ := if hasPermit n p.1 p.2 then 1 else 0

variable {v v' : View} {o : Obj} {t u : TaskId} {p : Pc} {a : Action} {e : Option Event} {n : Nat}

/-- Where a thread stands, and whether it is in the wait queue. -/
def place (v : View) (n : Nat) (t : TaskId) : Pc × Bool := (v.pc t, some t ∈ v.waiters (.sem n))

/-- The number of permits that threads have got and not returned with. -/
def promised (v : View) (n : Nat) : ℤ := tally Finset.univ (permit n) (v.place n)

/-- The number of permits that are left. -/
def spare (v : View) (n : Nat) : ℤ := if v.fault then 0 else max (v.val n) 0

theorem permit_nonneg (p : Pc × Bool) : 0 ≤ permit n p := by
  unfold permit
  split <;> decide

theorem permit_le (p : Pc × Bool) : permit n p ≤ 1 := by
  unfold permit
  split <;> decide

theorem promised_nonneg : 0 ≤ v.promised n := tally_nonneg permit_nonneg

theorem spare_nonneg : 0 ≤ v.spare n := by
  unfold spare
  split
  · exact Int.le_refl 0
  · exact le_max_right _ _

/-- At most one thread moves, joins the wait queue or leaves it. -/
theorem promised_of_moves (hpc : v'.pc = Function.update v.pc t p)
    (hw : ∀ u, u ≠ t → (some u ∈ v'.waiters (.sem n) ↔ some u ∈ v.waiters (.sem n))) :
    v'.promised n = v.promised n - permit n (v.place n t) +
      permit n (p, some t ∈ v'.waiters (.sem n)) := by
  have hplace : v'.place n =
      Function.update (v.place n) t (p, decide (some t ∈ v'.waiters (.sem n))) := by
    funext u
    rcases eq_or_ne u t with rfl | hne
    · rw [Function.update_self, place, hpc, Function.update_self]
    · rw [Function.update_of_ne hne, place, place, hpc, Function.update_of_ne hne]
      simp only [hw u hne]
  unfold promised
  rw [hplace, tally_update (Finset.mem_univ t)]

theorem promised_of_setPc : (v.setPc t p).promised n =
    v.promised n - permit n (v.place n t) + permit n (p, some t ∈ v.waiters (.sem n)) :=
  promised_of_moves rfl fun _ _ => Iff.rfl

/-- Nobody gets a permit and nobody returns with one. -/
theorem promised_of_same (hpc : v'.pc = v.pc) (hw : v'.waiters (.sem n) = v.waiters (.sem n)) :
    v'.promised n = v.promised n := by
  have hplace : v'.place n = v.place n := by
    funext u
    rw [place, place, hpc, hw]
  rw [promised, hplace, promised]

/-- A thread moves between places that have nothing to do with permits. -/
theorem promised_of_quiet {q : Pc} (hpc : v'.pc = Function.update v.pc t p)
    (hw : v'.waiters (.sem n) = v.waiters (.sem n)) (hq : v.pc t = q)
    (h : ∀ b, permit n (q, b) = 0) (h' : ∀ b, permit n (p, b) = 0) : v'.promised n = v.promised n := by
  rw [promised_of_moves hpc fun u _ => by rw [hw], h', place, hq, h]
  omega

theorem spare_le (hf : v.fault = false) (hv : v'.val n = v.val n) : v'.spare n ≤ v.spare n := by
  unfold spare
  rw [hf, hv]
  split
  · exact le_max_right _ _
  · exact le_refl _

/-! ## Operations -/

/-- A permit that is taken is no longer there. -/
theorem Waiting.spare_take (h : v.Waiting) (hf : v.fault = false)
    (hb : ∀ m, o = .sem m → 0 < v.val m) (hf' : v'.fault = false) (hv : v'.val = v.downVal o) :
    v'.spare n + (if o = .sem n then 1 else 0) ≤ v.spare n := by
  unfold spare
  rw [hf, hf', hv]
  cases o with
  | mtx m => simp [downVal]
  | sem m =>
      rcases eq_or_ne n m with rfl | hne
      · have hpos := hb n rfl
        have hmax := (h.val hf n).1
        have ht : toInt (v.val n - 1) = v.val n - 1 := by
          apply toInt_of_mem <;> omega
        simp only [downVal, Function.update_self, ht]
        simp
        omega
      · simp [downVal, hne, hne.symm]

/-- A thread that finds no permit takes none. -/
theorem spare_enqueue (hf : v.fault = false) (hb : v.Busy o) (hv : v'.val = v.downVal o) :
    v'.spare n ≤ v.spare n := by
  cases o with
  | mtx m => exact spare_le hf (congrFun hv n)
  | sem m =>
      rcases eq_or_ne n m with rfl | hne
      · have hval : v'.val n = toInt (v.val n - 1) := by
          rw [hv]
          exact Function.update_self _ _ _
        have hb : toInt (v.val n - 1) < 0 := hb
        have hle : v'.spare n ≤ 0 := by
          unfold spare
          rw [hval]
          split <;> omega
        exact hle.trans spare_nonneg
      · refine spare_le hf ?_
        rw [hv]
        exact Function.update_of_ne hne _ _

theorem upVal_of_ne (ho : o ≠ .sem n) : v.upVal o n = v.val n := by
  cases o with
  | mtx m => rfl
  | sem m =>
      apply Function.update_of_ne
      rintro rfl
      exact ho rfl

/-- Another object is given back. -/
theorem Signals.of_ne (hs : v.Signals o t v') (ho : o ≠ .sem n) :
    v'.waiters (.sem n) = v.waiters (.sem n) ∧ v'.val n = v.val n := by
  cases hs with
  | free | crash => exact ⟨rfl, upVal_of_ne ho⟩
  | grant hv hw => exact ⟨Function.update_of_ne ho.symm _ _, upVal_of_ne ho⟩

/-- A permit that is posted goes to the first waiter, or is there for the next thread that asks. -/
theorem Waiting.signals_permits (h : v.Waiting) (hf : v.fault = false) (hs : v.Signals o t v') :
    v'.promised n + v'.spare n ≤ v.promised n + v.spare n + (if o = .sem n then 1 else 0) := by
  split
  · rename_i ho
    subst ho
    cases hs with
    | free hv =>
        have hp : (v.free (.sem n) t).promised n = v.promised n := promised_of_same rfl rfl
        have hval : (v.free (.sem n) t).val n = toInt (v.val n + 1) := Function.update_self _ _ _
        have hv : 0 < toInt (v.val n + 1) := hv
        have hbounds := h.val hf n
        have hle := h.length_le (.sem n)
        have hs : (v.free (.sem n) t).spare n ≤ v.spare n + 1 := by
          unfold spare
          rw [hval, hf, show (v.free (.sem n) t).fault = false from hf]
          simp only [Bool.false_eq_true, if_false]
          unfold toInt at *
          omega
        omega
    | @grant u l hv hw =>
        have hpc : (v.grant (.sem n) t u l).pc = Function.update v.pc u (v.pc u) :=
          (Function.update_eq_self u v.pc).symm
        have hwait : (v.grant (.sem n) t u l).waiters (.sem n) = l := Function.update_self _ _ _
        have hp := promised_of_moves (n := n) hpc (by
          intro w hne
          rw [hwait, hw]
          simp [hne])
        have hold := permit_nonneg (n := n) (v.place n u)
        have hnew := permit_le (n := n) (v.pc u, decide (some u ∈ (v.grant (.sem n) t u l).waiters (.sem n)))
        have hs : (v.grant (.sem n) t u l).spare n ≤ 0 := by
          have hval : (v.grant (.sem n) t u l).val n = toInt (v.val n + 1) := Function.update_self _ _ _
          have hv : ¬ 0 < toInt (v.val n + 1) := hv
          unfold spare
          rw [hval]
          split <;> omega
        have hspare := spare_nonneg (v := v) (n := n)
        omega
    | crash hv hw =>
        have hp : (v.crash (.sem n) t).promised n = v.promised n := promised_of_same rfl rfl
        have hs : (v.crash (.sem n) t).spare n = 0 := rfl
        have hspare := spare_nonneg (v := v) (n := n)
        omega
  · rename_i ho
    obtain ⟨hw, hv⟩ := hs.of_ne ho
    have hp := promised_of_same (n := n) hs.pc_eq hw
    have hspare := spare_le hf hv
    omega

/-! ## Steps -/

/-- The step from `v` to `v'`, of which `e` is observed, hands out no permit that nobody posted. -/
def Accounts (n : Nat) (e : Option Event) (v v' : View) : Prop :=
  (if acquired n e then 1 else 0) + v'.promised n + v'.spare n ≤
    v.promised n + v.spare n + if posted n e then 1 else 0

theorem Accounts.of_quiet (he : acquired n e = false) (hp : v'.promised n = v.promised n)
    (hs : v'.spare n ≤ v.spare n) : Accounts n e v v' := by
  unfold Accounts
  rw [he, hp]
  have hpos : (0 : ℤ) ≤ if posted n e then 1 else 0 := by
    split <;> decide
  simp only [Bool.false_eq_true, if_false]
  omega

theorem permit_timedPc {ticks : SizeT} {b q : Bool} :
    permit n (o.timedPc ticks b, q) = if o = .sem n ∧ (b = true ∨ q = false) then 1 else 0 := by
  cases o <;> simp [permit, hasPermit, Obj.timedPc]

theorem permit_waitCall {r : Int} {q : Bool} :
    permit n (.ret o.waitCall r, q) = if o = .sem n ∧ q = false then 1 else 0 := by
  cases o <;> simp [permit, hasPermit, Obj.waitCall]

/-- A thread that joins a wait queue has no permit. -/
theorem Waiting.promised_joins (h : v.Waiting) (hu : v.pc t = .user)
    (hpc : v'.pc = Function.update v.pc t p) (hw : v'.waiters = (v.enqueue o t).waiters)
    (hp : permit n (p, true) = 0) (hne : o ≠ .sem n → permit n (p, false) = 0) :
    v'.promised n = v.promised n := by
  have hmem : ∀ u, some u ∈ v'.waiters (.sem n) ↔
      some u ∈ v.waiters (.sem n) ∨ .sem n = o ∧ u = t := by
    intro u
    rw [hw, h.mem_enqueue hu, Option.some_inj]
  have hold : permit n (v.place n t) = 0 := by
    rw [place, hu]
    rfl
  have hnew : permit n (p, some t ∈ v'.waiters (.sem n)) = 0 := by
    rcases eq_or_ne o (.sem n) with rfl | ho
    · simpa [hmem] using hp
    · cases decide (some t ∈ v'.waiters (.sem n)) with
      | true => exact hp
      | false => exact hne ho
  rw [promised_of_moves hpc fun u hut => by simp [hmem, hut], hold, hnew]
  omega

/-- A thread takes a permit that is left, and returns with it. -/
theorem Waiting.accounts_take (h : v.Waiting) (hf : v.fault = false)
    (hb : ∀ m, o = .sem m → 0 < v.val m) (he : acquired n e = true → o = .sem n) :
    Accounts n e v (v.take o t) := by
  have hs : (v.take o t).spare n + (if o = .sem n then 1 else 0) ≤ v.spare n :=
    h.spare_take hf hb hf rfl
  have hp : (v.take o t).promised n = v.promised n := promised_of_same rfl rfl
  have hpos : (0 : ℤ) ≤ if posted n e then 1 else 0 := by
    split <;> decide
  unfold Accounts
  split
  · rename_i hae
    rw [if_pos (he hae)] at hs
    omega
  · split at hs <;> omega

/-- A thread returns with a permit that it has got. -/
theorem accounts_return {c : Call} {r : Int} (hf : v.fault = false)
    (hp : acquired n (some ⟨t, c, r⟩) = true → permit n (v.place n t) = 1) :
    Accounts n (some ⟨t, c, r⟩) v (v.setPc t .user) := by
  have hm := promised_of_setPc (v := v) (t := t) (p := .user) (n := n)
  have hnew : permit n (.user, decide (some t ∈ v.waiters (.sem n))) = 0 := rfl
  have hold := permit_nonneg (n := n) (v.place n t)
  have hs : (v.setPc t .user).spare n ≤ v.spare n := spare_le hf rfl
  have hpos : (0 : ℤ) ≤ if posted n (some ⟨t, c, r⟩) then 1 else 0 := by
    split <;> decide
  unfold Accounts
  split
  · rename_i he
    have hone := hp he
    omega
  · omega

/-- The rolled back wait of the first waiter hands out no permit. -/
theorem Waiting.accounts_rollback (h : v.Waiting) (hf : v.fault = false) {m : Nat} {ticks : SizeT}
    (hu : v.pc t = .semTimedwait m ticks false) (hst : (v.thrds t).state = .SLEEPING)
    (hw : (v.waiters (.sem m)).head? = some (some t)) (hv : (v.awake t).Signals (.sem m) t v') :
    Accounts n (some ⟨t, .semTimedwait m ticks, -1⟩) v (v'.setPc t .user) := by
  have ha : (v.awake t).Waiting := h.awake (by rw [hst]; simp) hf
  have hsig := ha.signals_permits (n := n) hf hv
  have hm := promised_of_setPc (v := v') (t := t) (p := .user) (n := n)
  have hnew : permit n (.user, decide (some t ∈ v'.waiters (.sem n))) = 0 := rfl
  have hold := permit_nonneg (n := n) (v'.place n t)
  have hs : (v'.setPc t .user).spare n = v'.spare n := rfl
  have hpa : (v.awake t).promised n = v.promised n := rfl
  have hsa : (v.awake t).spare n = v.spare n := rfl
  have hone : m = n → permit n (v'.place n t) = 1 := by
    rintro rfl
    have hne : (v.awake t).waiters (.sem m) ≠ [] := by
      intro h0
      rw [show v.waiters (.sem m) = [] from h0] at hw
      cases hw
    cases hv with
    | free hv => exact absurd hv (ha.up_of_waiters hf hne).1
    | crash hv hl => exact absurd hl hne
    | @grant u l hv hl =>
        rw [show v.waiters (.sem m) = some u :: l from hl] at hw
        obtain rfl : u = t := by simpa using hw
        have hnd := ha.nodup (.sem m)
        rw [hl] at hnd
        have hwait : ((v.awake u).grant (.sem m) u u l).waiters (.sem m) = l :=
          Function.update_self _ _ _
        have hpc : ((v.awake u).grant (.sem m) u u l).pc u = .semTimedwait m ticks false := hu
        rw [place, hpc, hwait]
        simp [permit, hasPermit, (List.nodup_cons.1 hnd).1]
  unfold Accounts
  rw [acquired_of_ne n t (by decide)]
  split at hsig
  · rename_i ho
    cases ho
    have hone := hone rfl
    simp
    omega
  · simp
    omega

/-- Every step of the abstract kernel hands out only permits that were posted. -/
theorem Waiting.step_accounts (h : v.Waiting) (hf : v.fault = false) (hs : v.Step a e v')
    (hq : v.Unqueued a) : Accounts n e v v' := by
  have huser : ∀ b, permit n (.user, b) = 0 := fun _ => rfl
  have hsame : ∀ {v' : View}, v'.val = v.val → v'.spare n ≤ v.spare n := fun hv =>
    spare_le hf (congrFun hv n)
  cases hs with
  | create r p i hr hi | thrdCreate r p i hr hu hi =>
      exact .of_quiet rfl (promised_of_quiet rfl rfl hi (fun _ => rfl) huser) (hsame rfl)
  | createFails | launch => exact .of_quiet rfl (promised_of_same rfl rfl) (hsame rfl)
  | fails c hr hu hz => exact .of_quiet (acquired_of_ne n _ hz) rfl (hsame rfl)
  | yields c hr hu hc =>
      refine .of_quiet rfl (promised_of_quiet rfl rfl hu huser ?_) (hsame rfl)
      rcases hc with rfl | ⟨ticks, rfl⟩
      · exact fun _ => rfl
      · exact fun _ => rfl
  | @take t o hr hu hb =>
      exact h.accounts_take hf (h.pos_of_not_busy hf hb) (acquired_waitCall n t o 0)
  | @tryTake t m hr hu hb =>
      refine h.accounts_take hf ?_ ?_
      · intro m' hm
        cases hm
        exact hb
      · intro he
        simp only [acquired, takesPermit, Bool.and_eq_true, decide_eq_true_eq] at he
        rw [he.1]
  | trySteal m hr hu hb => exact .of_quiet rfl (promised_of_same rfl rfl) (hsame rfl)
  | @block t v₁ o hr hu hb hl =>
      obtain ⟨l, f, rfl, -⟩ := hl.eq
      refine .of_quiet rfl (h.promised_joins hu rfl rfl ?_ ?_) (spare_enqueue hf hb rfl)
      · simp [permit_waitCall]
      · intro ho
        simp [permit_waitCall, ho]
  | @timedTake t o ticks hr hu hb =>
      have hs : (v.take o t).spare n + (if o = .sem n then 1 else 0) ≤ v.spare n :=
        h.spare_take hf (h.pos_of_not_busy hf hb) hf rfl
      have hm := promised_of_setPc (v := v.take o t) (t := t) (p := o.timedPc ticks true) (n := n)
      have hp : (v.take o t).promised n = v.promised n := promised_of_same rfl rfl
      have hspare : ((v.take o t).setPc t (o.timedPc ticks true)).spare n = (v.take o t).spare n := rfl
      have hold := permit_nonneg (n := n) ((v.take o t).place n t)
      rw [permit_timedPc] at hm
      simp only [true_or, and_true] at hm
      simp only [Accounts, acquired, posted, Bool.false_eq_true, if_false]
      omega
  | @timedZero t o ticks hn hr hu hb =>
      refine .of_quiet rfl (h.promised_joins hu rfl rfl ?_ ?_) (spare_enqueue hf hb rfl)
      · simp [permit_timedPc]
      · intro ho
        simp [permit_timedPc, ho]
  | @timedBlock t v₁ o ticks hn hr hu hb hl =>
      obtain ⟨l, f, rfl, -⟩ := hl.eq
      refine .of_quiet rfl (h.promised_joins hu rfl rfl ?_ ?_) (spare_enqueue hf hb rfl)
      · simp [permit_timedPc]
      · intro ho
        simp [permit_timedPc, ho]
  | @signal t v₁ o hr hu hh hs =>
      have hsig := h.signals_permits (n := n) hf hs
      unfold Accounts
      rw [acquired_signalCall]
      simp only [Bool.false_eq_true, if_false]
      split at hsig
      · rename_i ho
        subst ho
        simp only [posted_signalCall, if_true]
        omega
      · split <;> omega
  | sleep n' hn hr hu =>
      exact .of_quiet rfl (promised_of_quiet rfl rfl hu huser fun _ => rfl) (hsame rfl)
  | exit r hr hu =>
      exact .of_quiet rfl (promised_of_quiet rfl rfl hu huser fun _ => rfl) (hsame rfl)
  | @ret t c r hr hi hu =>
      refine accounts_return hf ?_
      intro he
      rcases h.ret t c r hu with rfl | ⟨ticks, rfl⟩ | ⟨o, rfl⟩
      · cases he
      · cases he
      · have ho := acquired_waitCall n t o r he
        subst ho
        have hm := h.not_mem_of_ret hf hr hi hu (.sem n)
        simp [place, hu, permit_waitCall, hm]
  | pause m hr hi hu hl | kill hr hi hu hl =>
      obtain ⟨l, f, rfl, -⟩ := hl.eq
      exact .of_quiet rfl (promised_of_quiet rfl rfl hu (fun _ => rfl) fun _ => rfl) (hsame rfl)
  | @timedLeave t o ticks b hr hi hu hs hm =>
      refine accounts_return hf ?_
      intro he
      have ho := acquired_timedCall n t o 0 ticks he
      subst ho
      rw [place, hu, permit_timedPc]
      cases b with
      | true => simp
      | false =>
          have hd := hq rfl t hr (.sem n) (by rw [hu]; rfl)
          rw [Dequeued, if_neg (hs n rfl rfl)] at hd
          simp [hd]
  | rollback m ticks hr hi hu hst hv =>
      have hd := hq rfl _ hr (.sem m) (by rw [hu]; rfl)
      rw [Dequeued, if_pos hst] at hd
      exact h.accounts_rollback hf hu hst hd hv
  | tick sp hr ht =>
      exact .of_quiet rfl (promised_of_same ht.pc (congrFun ht.waiters _)) (hsame ht.val)

end View

/-! ## Runs -/

namespace Sys

variable {s : Sys} {vals : Nat → Nat} {h : List (Option Event)}

/-- Along every run that meets the conditions, the calls on a semaphore that have returned 0, the
permits that threads have got and not returned with, and those that are left are no more than its
initial value and the calls of `sem_post` that have returned. -/
theorem run_permits (hv : ValidVals vals) (hr : (system vals).Run Clean h s) (n : Nat) :
    (h.countP (acquired n) : ℤ) + s.view.promised n + s.view.spare n ≤
      vals n + h.countP (posted n) := by
  have hrun := run_view (P := fun h v => v.Waiting ∧
    (h.countP (acquired n) : ℤ) + v.promised n + v.spare n ≤ vals n + h.countP (posted n)) hr
    (fun _ _ hg => hg.1) ⟨boot_waiting hv, ?_⟩ ?_
  · exact hrun.2.2
  · have hp : (boot vals).view.promised n = 0 := tally_eq_zero fun _ _ => rfl
    have hs : (boot vals).view.spare n = max (vals n : ℤ) 0 := by
      rw [View.spare, boot_val hv]
      rfl
    rw [hp, hs]
    simp
  · rintro h s s' a e hk hf ⟨hw, hle⟩ hg hst hs
    refine ⟨hg.waiting hk hst hw, ?_⟩
    have hacc := hw.step_accounts (n := n) hf hs hg.2.1
    unfold View.Accounts at hacc
    have hcast : ∀ b : Bool,
        ((if b = true then 1 else 0 : Nat) : ℤ) = if b = true then 1 else 0 := by
      intro b
      cases b <;> rfl
    rw [List.countP_cons, List.countP_cons]
    push_cast [hcast]
    omega

/-- The calls on a semaphore that have returned 0 are no more than its initial value and the calls of
`sem_post` that have returned. -/
theorem permits_conserved (hv : ValidVals vals) (hr : (system vals).Run Clean h s) (n : Nat) :
    h.countP (acquired n) ≤ vals n + h.countP (posted n) := by
  have hrun := run_permits hv hr n
  have hp : 0 ≤ s.view.promised n := View.promised_nonneg
  have hs : 0 ≤ s.view.spare n := View.spare_nonneg
  omega

/-- A thread waits with a deadline, and gets the permit that another one posts. -/
theorem permits_conserved_two_threads :
    ∃ h s, (system fun _ => 0).Run Clean h s ∧ h.countP (acquired 0) = 1 ∧
      h.countP (acquired 0) ≤ 0 + h.countP (posted 0) := by
  rcases exists_run (fun _ => 0) (G := Clean)
    [.create 1 1, .create 1 1, .launch, .call (.semTimedwait 0 4), .tick 0, .call (.semPost 0),
      .tick 0, .resume]
    (P := fun h _ => h.countP (acquired 0) = 1) (by decide +kernel) with ⟨h, s, hr, hh⟩
  exact ⟨h, s, hr, hh, permits_conserved (fun _ => Nat.zero_le _) hr 0⟩

/-- `sem_timedwait` with a timeout of zero returns 0 from a semaphore that has no permit. -/
theorem permit_from_nowhere :
    ∃ h s, (system fun _ => 0).Run (fun _ _ => True) h s ∧
      h = [some ⟨.slot 15, .semTimedwait 0 0, 0⟩, none, none, none, none] ∧
      ¬ h.countP (acquired 0) ≤ 0 + h.countP (posted 0) :=
  exists_run (fun _ => 0) [.create 1 1, .launch, .call (.semTimedwait 0 0), .tick 0, .resume]
    (by decide +kernel)

end Sys

end MsTos
