-- SUMMARY: Priority inheritance: when no thread waits for a mutex whose holder has a lower priority, and how unlocking and boosting break it.
import MsTos.CallOrder
import MsTos.MutualExclusion

namespace MsTos

/-! ## The abstract kernel -/

namespace View

variable {v v' : View} {o : Obj} {t u w : TaskId} {a : Action} {e : Option Event} {m : Nat}
  {l : List ThrdPtr}

/-- No thread waits for a mutex whose holder has a lower priority. -/
def Inherited (v : View) : Prop :=
  ∀ m h w, v.holder m = some h → some w ∈ v.waiters (.mtx m) →
    (v.thrds w).fixedPrio ≤ (v.thrds h).fixedPrio

/-- `t` holds the mutex. -/
def HeldBy (v : View) (t : TaskId) : Obj → Prop
  | .sem _ => False
  | .mtx m => v.holder m = some t

instance (v : View) (t : TaskId) : DecidablePred (v.HeldBy t)
  | .sem _ => inferInstanceAs (Decidable False)
  | .mtx _ => inferInstanceAs (Decidable (_ = _))

/-- `mtx_lock` boosts no holder above the holder of a mutex that it waits for itself, and
`mtx_unlock` takes no priority away that a waiter for another mutex of the caller has lent. -/
def Inherits (v : View) : Action → Prop
  | .call (.mtxLock m) => ∀ t h g, v.run = some t → v.holder m = some h → g ≠ h →
      ∀ o ∈ blocksOn (v.pc h), v.HeldBy g o → (v.thrds t).fixedPrio ≤ (v.thrds g).fixedPrio
  | .call (.mtxUnlock m) => ∀ t w, v.run = some t → ∀ o ∈ blocksOn (v.pc w), o ≠ .mtx m →
      v.HeldBy t o → (v.thrds w).fixedPrio ≤ (v.thrds t).basePrio
  | _ => True

instance (v : View) : DecidablePred v.Inherits
  | .call (.mtxLock _) => inferInstanceAs (Decidable (∀ _, _))
  | .call (.mtxUnlock _) => inferInstanceAs (Decidable (∀ _, _))
  | .call (.thrdCreate _ _) | .call .thrdYield | .call (.thrdSleep _) | .call (.thrdExit _)
  | .call (.thrdJoin _) | .call (.semWait _) | .call (.semTimedwait _ _) | .call (.semTrywait _)
  | .call (.semPost _) | .call (.mtxTimedlock _ _) | .call (.mtxTrylock _)
  | .create _ _ | .launch | .resume | .tick _ => inferInstanceAs (Decidable True)

/-- The holder of a mutex is a thread. -/
def HoldersLive (v : View) : Prop := ∀ m h, v.holder m = some h → v.pc h ≠ .none

/-! ### Priorities after a step -/

theorem boosted_fixedPrio {h : TaskId} (hh : v.holder m = some h) :
    (v.boosted (.mtx m) t u).fixedPrio =
      if u = h then max (v.thrds h).fixedPrio (v.thrds t).fixedPrio else (v.thrds u).fixedPrio := by
  simp only [boosted, hh]
  split
  · rename_i hlt
    simp only [setThrd, Function.update_apply]
    split
    · exact (max_eq_right hlt.le).symm
    · rfl
  · rename_i hle
    split
    · rename_i hu
      rw [hu, max_eq_left (not_lt.1 hle)]
    · rfl

theorem restored_fixedPrio : (v.restored (.mtx m) t u).fixedPrio =
    if u = t then (v.thrds t).basePrio else (v.thrds u).fixedPrio := by
  simp only [restored, setThrd, Function.update_apply]
  split <;> rfl

theorem handed_fixedPrio : (v.handed (.mtx m) t u w).fixedPrio =
    if w = u then (v.thrds t).fixedPrio else (v.restored (.mtx m) t w).fixedPrio := by
  simp only [handed, Function.update_apply]
  split <;> rfl

/-- What changes neither holders nor wait queues nor priorities. -/
theorem Inherited.congr (h : v.Inherited) (hh : v'.holder = v.holder)
    (hw : ∀ m, v'.waiters (.mtx m) = v.waiters (.mtx m))
    (hp : ∀ u, (v'.thrds u).fixedPrio = (v.thrds u).fixedPrio) : v'.Inherited := by
  intro m g w hm hq
  rw [hh] at hm
  rw [hw] at hq
  rw [hp, hp]
  exact h m g w hm hq

/-- The threads that stand at a mutex of another thread wait for it. -/
theorem Holding.mem_waiters (hk : v.Holding) (hb : blocksOn (v.pc w) = some (.mtx m))
    (hh : v.holder m = some t) (hne : t ≠ w) : some w ∈ v.waiters (.mtx m) := by
  by_contra hm
  have := hk.granted w m hb hm
  rw [hh] at this
  exact hne (Option.some.inj this)

/-- Blocking on a mutex of `h`. -/
theorem inherited_block (v' : View) {h : TaskId} (hi : v.Inherited) (hk : v.Holding)
    (hpc : ∀ w o, some w ∈ v.waiters o → blocksOn (v.pc w) = some o)
    (hm : v.holder m = some h) (hh : v'.holder = v.holder)
    (hw : ∀ q r, r ∈ v'.waiters q ↔ r ∈ v.waiters q ∨ q = .mtx m ∧ r = some t)
    (hp : ∀ u, (v'.thrds u).fixedPrio = (v.boosted (.mtx m) t u).fixedPrio) :
    v'.Inherited ↔ ∀ g, g ≠ h → ∀ o ∈ blocksOn (v.pc h), v.HeldBy g o →
      (v.thrds t).fixedPrio ≤ (v.thrds g).fixedPrio := by
  have hp' : ∀ u, (v'.thrds u).fixedPrio =
      if u = h then max (v.thrds h).fixedPrio (v.thrds t).fixedPrio
      else (v.thrds u).fixedPrio := fun u => (hp u).trans (boosted_fixedPrio hm)
  have hle : ∀ u, (v.thrds u).fixedPrio ≤ (v'.thrds u).fixedPrio := by
    intro u
    rw [hp']
    split
    · rename_i hu
      rw [hu]
      exact le_max_left _ _
    · exact le_rfl
  constructor
  · intro hi' g hg o ho hheld
    cases o with
    | sem n => cases hheld
    | mtx m' =>
        have hwait := hk.mem_waiters ho hheld hg
        have := hi' m' g h (hh ▸ hheld) ((hw _ _).2 (.inl hwait))
        rw [hp', hp', if_pos rfl, if_neg hg] at this
        exact (le_max_right _ _).trans this
  · intro hc m' g w hg hwait
    rw [hh] at hg
    -- the new waiter, or one that has waited before
    rcases (hw _ _).1 hwait with hwait | ⟨hmm, hwt⟩
    · have hold := hi m' g w hg hwait
      rcases eq_or_ne w h with rfl | hne
      · rw [hp' w, if_pos rfl]
        refine max_le (hold.trans (hle g)) ?_
        rcases eq_or_ne g w with rfl | hgw
        · rw [hp', if_pos rfl]
          exact le_max_right _ _
        · exact (hc g hgw _ (hpc w _ hwait) hg).trans (hle g)
      · rw [hp' w, if_neg hne]
        exact hold.trans (hle g)
    · cases hmm
      cases hwt
      obtain rfl : g = h := Option.some.inj (hg.symm.trans hm)
      rw [hp' t, hp' g, if_pos rfl]
      split
      · exact le_rfl
      · exact le_max_right _ _

/-- Giving back a mutex. -/
theorem inherited_signal (hi : v.Inherited) (hk : v.Holding)
    (hpc : ∀ w o, some w ∈ v.waiters o → blocksOn (v.pc w) = some o) (hu : v.pc t = .user)
    (hh : ∀ m', m' ≠ m → v'.holder m' = v.holder m')
    (hw : ∀ m', m' ≠ m → v'.waiters (.mtx m') = v.waiters (.mtx m'))
    (hm : ∀ g w, v'.holder m = some g → some w ∈ v'.waiters (.mtx m) →
      (v'.thrds w).fixedPrio ≤ (v'.thrds g).fixedPrio)
    (ht : (v'.thrds t).fixedPrio = (v.thrds t).basePrio)
    (hle : ∀ u, u ≠ t → (v.thrds u).fixedPrio ≤ (v'.thrds u).fixedPrio)
    (heq : ∀ u, u ≠ t → some u ∉ v.waiters (.mtx m) →
      (v'.thrds u).fixedPrio = (v.thrds u).fixedPrio) :
    v'.Inherited ↔ ∀ w, ∀ o ∈ blocksOn (v.pc w), o ≠ .mtx m → v.HeldBy t o →
      (v.thrds w).fixedPrio ≤ (v.thrds t).basePrio := by
  have hnt : ∀ w o, blocksOn (v.pc w) = some o → w ≠ t := by
    rintro w o hb rfl
    rw [hu] at hb
    cases hb
  -- a thread that waits for another mutex has the priority that it had
  have hsame : ∀ w m', m' ≠ m → blocksOn (v.pc w) = some (.mtx m') →
      (v'.thrds w).fixedPrio = (v.thrds w).fixedPrio := by
    intro w m' hne hb
    refine heq w (hnt w _ hb) ?_
    intro hwm
    have := hpc w _ hwm
    rw [hb] at this
    exact hne (Obj.mtx.inj (Option.some.inj this))
  constructor
  · intro hi' w o ho hne hheld
    cases o with
    | sem n => cases hheld
    | mtx m' =>
        have hne : m' ≠ m := fun he => hne (congrArg Obj.mtx he)
        have hwait := hk.mem_waiters ho hheld (hnt w _ ho).symm
        have := hi' m' t w ((hh m' hne).trans hheld) (by rw [hw m' hne]; exact hwait)
        rwa [hsame w m' hne ho, ht] at this
  · intro hc m' g w hg hwait
    rcases eq_or_ne m' m with rfl | hne
    · exact hm g w hg hwait
    · rw [hh m' hne] at hg
      rw [hw m' hne] at hwait
      have hb := hpc w _ hwait
      rw [hsame w m' hne hb]
      rcases eq_or_ne g t with rfl | hgt
      · rw [ht]
        exact hc w _ hb (fun he => hne (Obj.mtx.inj he)) hg
      · exact (hi m' g w hg hwait).trans (hle g hgt)

/-- The invariant that inheritance rests on, apart from the priorities themselves. -/
structure Lending (v : View) : Prop where
  quiet : v.Quiet
  waiting : v.Waiting
  holding : v.Holding
  noneWaits : v.NoneWaits
  live : v.HoldersLive

/-- In a quiet system, a waiter has blocked. -/
theorem Lending.blocksOn (h : v.Lending) (hw : some w ∈ v.waiters o) :
    blocksOn (v.pc w) = some o :=
  h.quiet.blocksOn (h.waiting.waiter_some hw)

theorem HoldersLive.step (h : v.HoldersLive) (hs : v.Step a e v')
    (hpc : ∀ u, v.pc u ≠ .none → v'.pc u ≠ .none)
    (hw : ∀ u o, some u ∈ v.waiters o → v.pc u ≠ .none) : v'.HoldersLive := by
  intro m g hg
  have huser : ∀ t, v.pc t = .user → v'.pc t ≠ .none := by
    intro t ht
    refine hpc t ?_
    rw [ht]
    exact Pc.noConfusion
  cases hs.holderStep m with
  | same hh => exact hpc g (h m g (hh.symm.trans hg))
  | lock hr hu hn hh | timedlock n hr hu hn hh | steal hr hu hn hh =>
      cases hh.symm.trans hg
      exact huser _ hu
  | release hr hu ht hwait hh => cases hh.symm.trans hg
  | handOver hr hu ht hwait hwait' hh =>
      cases hh.symm.trans hg
      exact hpc _ (hw _ (.mtx m) (by rw [hwait]; exact List.mem_cons_self))

/-- A signal to a semaphore changes no priority. -/
theorem Signals.inherited_sem {n : Nat} (hs : v.Signals (.sem n) t v') (hi : v.Inherited) :
    v'.Inherited := by
  cases hs with
  | free hv | crash hv hq => exact hi.congr rfl (fun _ => rfl) fun _ => rfl
  | @grant u l hv hq =>
      have hne : ∀ m, Obj.mtx m ≠ .sem n := by simp
      refine hi.congr rfl (fun m => Function.update_of_ne (hne m) l v.waiters) ?_
      intro x
      show (v.handed (.sem n) t u x).fixedPrio = _
      simp only [handed, Function.update_apply]
      split
      · rename_i hx
        rw [hx]
        rfl
      · rfl

theorem Signals.inherited_mtx (hs : v.Signals (.mtx m) t v') (hi : v.Inherited) (hl : v.Lending)
    (hu : v.pc t = .user) (hh : v.holder m = some t) :
    v'.Inherited ↔ ∀ w, ∀ o ∈ MsTos.blocksOn (v.pc w), o ≠ .mtx m → v.HeldBy t o →
      (v.thrds w).fixedPrio ≤ (v.thrds t).basePrio := by
  have hnt : ∀ o, some t ∉ v.waiters o := hl.waiting.not_waiter (by rw [hu]; rfl)
  have hres : ∀ u, (v.restored (.mtx m) t u).fixedPrio =
      if u = t then (v.thrds t).basePrio else (v.thrds u).fixedPrio := fun _ => restored_fixedPrio
  cases hs with
  | crash hv hq => exact absurd hq hv
  | free hv =>
      apply inherited_signal hi hl.holding (fun _ _ => hl.blocksOn) hu
      case hh => exact fun m' hne => Function.update_of_ne hne _ _
      case hw => exact fun _ _ => rfl
      case hm =>
          intro g w hg
          have hg : Function.update v.holder m none m = some g := hg
          rw [Function.update_self] at hg
          cases hg
      case ht => exact (hres t).trans (if_pos rfl)
      case hle => exact fun u hne => ((hres u).trans (if_neg hne)).ge
      case heq => exact fun u hne _ => (hres u).trans (if_neg hne)
  | @grant u l hv hq =>
      have hum : some u ∈ v.waiters (.mtx m) := by
        rw [hq]
        exact List.mem_cons_self
      have hut : u ≠ t := by
        rintro rfl
        exact hnt _ hum
      have hp : ∀ x, (v.handed (.mtx m) t u x).fixedPrio =
          if x = u then (v.thrds t).fixedPrio
          else if x = t then (v.thrds t).basePrio else (v.thrds x).fixedPrio := by
        intro x
        rw [handed_fixedPrio, hres]
      have hnd := hl.waiting.nodup (.mtx m)
      rw [hq] at hnd
      apply inherited_signal hi hl.holding (fun _ _ => hl.blocksOn) hu
      case hh => exact fun m' hne => Function.update_of_ne hne _ _
      case hw =>
          exact fun m' hne => Function.update_of_ne (fun he => hne (Obj.mtx.inj he)) _ _
      case hm =>
          intro g w hg hw
          have hg : Function.update v.holder m (some u) m = some g := hg
          rw [Function.update_self] at hg
          cases hg
          have hwl : some w ∈ Function.update v.waiters (.mtx m) l (.mtx m) := hw
          rw [Function.update_self] at hwl
          have hwm : some w ∈ v.waiters (.mtx m) := by
            rw [hq]
            exact List.mem_cons_of_mem _ hwl
          have hwu : w ≠ u := by
            rintro rfl
            exact (List.nodup_cons.1 hnd).1 hwl
          have hwt : w ≠ t := by
            rintro rfl
            exact hnt _ hwm
          show (v.handed (.mtx m) t u w).fixedPrio ≤ (v.handed (.mtx m) t u u).fixedPrio
          rw [hp, hp, if_neg hwu, if_neg hwt, if_pos rfl]
          exact hi m t w hh hwm
      case ht => exact (hp t).trans ((if_neg hut.symm).trans (if_pos rfl))
      case hle =>
          intro x hne
          refine le_of_le_of_eq ?_ (hp x).symm
          split
          · rename_i hx
            rw [hx]
            exact hi m t u hh hum
          · exact le_rfl
      case heq =>
          intro x hne hx
          have hxu : x ≠ u := by
            rintro rfl
            exact hx hum
          exact (hp x).trans ((if_neg hxu).trans (if_neg hne))

/-- A step of a quiet system keeps the priorities inherited exactly if it inherits priorities. -/
theorem Inherited.step (hi : v.Inherited) (hl : v.Lending) (hs : v.Step a e v')
    (hc : ∀ c, a = .call c → c.quiet = true)
    (he : ∀ c t r, a = .call c → e = some ⟨t, c, r⟩ →
      (∃ m, c = .mtxLock m ∨ c = .mtxUnlock m) → r = 0) :
    v'.Inherited ↔ v.Inherits a := by
  have hboth : ∀ {p q : Prop}, p → q → (p ↔ q) := fun hp hq => ⟨fun _ => hq, fun _ => hp⟩
  cases hs with
  | createFails | ret => exact hboth hi trivial
  | launch hr hp => exact hboth hi trivial
  | yields c hr hu hcall =>
      refine hboth hi ?_
      rcases hcall with rfl | ⟨n, rfl⟩ <;> trivial
  | @fails t r c hr hu hz =>
      refine hboth hi ?_
      cases c with
      | mtxLock m => exact absurd (he _ t r rfl rfl ⟨m, .inl rfl⟩) hz
      | mtxUnlock m => exact absurd (he _ t r rfl rfl ⟨m, .inr rfl⟩) hz
      | _ => trivial
  | create r p i hr hn | thrdCreate r p i hr hu hn =>
      refine hboth ?_ trivial
      intro m g w hg hw
      have hne : ∀ x, v.pc x ≠ .none → x ≠ .slot i := by
        rintro x hx rfl
        exact hx hn
      have hwl : v.pc w ≠ .none := by
        intro hwn
        have := hl.blocksOn hw
        rw [hwn] at this
        cases this
      show (v.setThrd _ _ w).fixedPrio ≤ (v.setThrd _ _ g).fixedPrio
      rw [setThrd, Function.update_of_ne (hne w hwl), Function.update_of_ne (hne g (hl.live m g hg))]
      exact hi m g w hg hw
  | tryTake n hr hu hb => exact hboth (hi.congr rfl (fun _ => rfl) fun _ => rfl) trivial
  | @take t o hr hu hb =>
      cases o with
      | sem n => exact hboth (hi.congr rfl (fun _ => rfl) fun _ => rfl) trivial
      | mtx m =>
          have hn : v.holder m = none := not_not.1 hb
          refine hboth ?_ ?_
          · intro m' g w hg hw
            have hg : Function.update v.holder m (some t) m' = some g := hg
            have hw : some w ∈ v.waiters (.mtx m') := hw
            rw [Function.update_apply] at hg
            split at hg
            · rename_i hm
              rw [hm, hl.noneWaits m hn] at hw
              cases hw
            · exact hi m' g w hg hw
          · intro t' h g ht hh
            rw [hn] at hh
            cases hh
  | @block t v₁ o hr hu hb hlv =>
      obtain ⟨l, f, rfl, -⟩ := hlv.eq
      cases o with
      | sem n =>
          have hw : ∀ m, (v.enqueue (.sem n) t).waiters (.mtx m) = v.waiters (.mtx m) := by
            intro m
            have hne : Obj.mtx m ≠ .sem n := by simp
            rw [hl.waiting.enqueue_waiters hu, Function.update_of_ne hne]
          refine hboth (hi.congr rfl hw ?_) trivial
          intro x
          show ((v.enqueue (.sem n) t).setThrd t _ x).fixedPrio = _
          simp only [setThrd, Function.update_apply]
          split
          · rename_i hx
            rw [hx]
            rfl
          · rfl
      | mtx m =>
          obtain ⟨h, hh⟩ := Option.ne_none_iff_exists'.1 hb
          have hblock := inherited_block
            (setPc { (v.enqueue (.mtx m) t).block t with linked := l, fault := f, ifg := true }
              t (.ret (Obj.mtx m).waitCall 0)) hi hl.holding (fun _ _ => hl.blocksOn) hh (t := t)
            rfl (fun q r => hl.waiting.mem_enqueue hu) ?_
          · refine hblock.trans ⟨?_, ?_⟩
            · intro hcond t' h' g ht' hh' hne o ho hheld
              cases hr.symm.trans ht'
              cases hh.symm.trans hh'
              exact hcond g hne o ho hheld
            · intro hcond g hne o ho hheld
              exact hcond t h g hr hh hne o ho hheld
          · intro x
            show ((v.enqueue (.mtx m) t).setThrd t _ x).fixedPrio = _
            simp only [setThrd, Function.update_apply]
            split
            · rename_i hx
              rw [hx]
              rfl
            · rfl
  | @signal t v₁ o hr hu hh hsig =>
      cases o with
      | sem n => exact hboth (hsig.inherited_sem hi) trivial
      | mtx m =>
          refine (hsig.inherited_mtx hi hl hu (hh m rfl)).trans ⟨?_, ?_⟩
          · intro hcond t' w ht' o ho hne hheld
            cases hr.symm.trans ht'
            exact hcond w o ho hne hheld
          · intro hcond w o ho hne hheld
            exact hcond t w hr o ho hne hheld
  | @tick v₁ woken expired sp hr ht =>
      refine hboth (hi.congr ht.holder (fun m => congrFun ht.waiters _) ?_) trivial
      intro x
      obtain ⟨w, hx⟩ := ht.thrds x
      rw [hx]
  | trySteal m hr hu hb => cases hc _ rfl
  | timedTake o n hr hu hb | timedZero o n hn hr hu hb | timedBlock o n hn hr hu hb hl =>
      cases o <;> cases hc _ rfl
  | sleep n hn hr hu | exit r hr hu => cases hc _ rfl
  -- no thread stands there
  | @pause t _ n hr hi hu hlv | @kill t _ hr hi hu hlv | @rollback t _ n timeout hr hi hu hs hv =>
      rcases hl.quiet.pc t with hn | hn | ⟨c, r, hn⟩ <;> cases hu.symm.trans hn
  | @timedLeave t o n b hr hi hu hs hm =>
      cases o <;> rcases hl.quiet.pc t with hn | hn | ⟨c, r, hn⟩ <;> cases hu.symm.trans hn

end View

/-! ## Runs -/

namespace Sys

variable {s s' : Sys} {t : TaskId} {a : Action} {e : Option Event} {vals : Nat → Nat}
  {h : List (Option Event)}

/-- The state is quiet, and every mutex belongs to a thread. -/
structure LendingOk (s : Sys) : Prop where
  quietOk : s.QuietOk
  lending : s.view.Lending

theorem LendingOk.step (hl : s.LendingOk) (hg : s.QuietGuard a) (hs : s.step a = some (e, s')) :
    s'.LendingOk := by
  have hq := hl.quietOk
  have hst := (step_refines hq.sound (hq.clean hg).1 hs).2
  have hq' := hq.step hg hs
  have htries : s.view.TriesFree a := by
    cases a with
    | call c =>
        cases c with
        | mtxTrylock m => cases hg.2.1
        | _ => trivial
    | _ => trivial
  -- a quiet thread never ends
  have hpc : ∀ u, s.view.pc u ≠ .none → s'.view.pc u ≠ .none := by
    intro u hu hn
    rcases hst.pc_none hn with hn | ⟨hk, -⟩
    · exact hu hn
    · rcases hq.quiet.pc u with hn | hn | ⟨c, r, hn⟩ <;> cases hk.symm.trans hn
  refine ⟨hq', hq'.quiet, hq'.waiting, hl.lending.holding.step hq.waiting hst htries,
    hl.lending.noneWaits.step hst, hl.lending.live.step hst hpc ?_⟩
  intro u o hu hn
  have := hl.lending.blocksOn hu
  rw [hn] at this
  cases this

theorem boot_lendingOk (hv : ValidVals vals) : (boot vals).LendingOk where
  quietOk := boot_quietOk hv
  lending :=
    { quiet := (boot_quietOk hv).quiet
      waiting := boot_waiting hv
      holding :=
        { locked := by
            intro t m n hp
            cases hp
          granted := by
            intro t m hp
            cases hp }
      noneWaits := fun m _ => rfl
      live := by
        intro m g hg
        cases hg }

/-- A call of `mtx_lock` or `mtx_unlock` that returns, returns 0. -/
theorem QuietOk.mtx_returns (hq : s.QuietOk) {c : Call} {r : Int} (hg : s.QuietGuard (.call c))
    (hs : s.step (.call c) = some (some ⟨t, c, r⟩, s'))
    (hc : ∃ m, c = .mtxLock m ∨ c = .mtxUnlock m) : r = 0 := by
  have hret : ∀ (s : Sys) (u : TaskId) (c' : Call) (r' : Int),
      some ⟨t, c, r⟩ = (s.complete u c' r').1 → r = r' := by
    intro s u c' r' he
    unfold complete at he
    split at he <;> cases he
    rfl
  generalize he : some (⟨t, c, r⟩ : Event) = e at hs
  cases (steps_of_step hs).2 with
  | @call u _ hr hpc hp =>
      rcases hc with ⟨m, rfl | rfl⟩
      · exact hret _ u _ 0 he
      · rcases hq.sound.good.mtxUnlock (hq.sound.enabled.open hp) hr (hg.2.2.trans hr) s.pc with
          ⟨k', hk', -⟩
        simp only [stepCall, hk'] at he
        exact hret _ u _ 0 he

/-- A quiet step that lends and keeps priorities where threads still wait for them. -/
def InheritGuard (s : Sys) (a : Action) : Prop := s.QuietGuard a ∧ s.view.Inherits a

instance (s : Sys) (a : Action) : Decidable (s.InheritGuard a) :=
  inferInstanceAs (Decidable (_ ∧ _))

theorem LendingOk.inherited_step (hl : s.LendingOk) (hi : s.view.Inherited)
    (hg : s.QuietGuard a) (hs : s.step a = some (e, s')) :
    s'.view.Inherited ↔ s.view.Inherits a := by
  have hst := (step_refines hl.quietOk.sound (hl.quietOk.clean hg).1 hs).2
  refine hi.step hl.lending hst hg.quiet ?_
  rintro c t r rfl rfl hc
  exact hl.quietOk.mtx_returns hg hs hc

theorem run_inherited (hv : ValidVals vals) (hr : (system vals).Run InheritGuard h s) :
    s.LendingOk ∧ s.view.Inherited := by
  refine hr.invariant (P := fun _ s => s.LendingOk ∧ s.view.Inherited) ?_ ?_
  · rintro s rfl
    refine ⟨boot_lendingOk hv, ?_⟩
    intro m g w hg
    cases hg
  · rintro h s a e s' ⟨hl, hi⟩ hg hs
    exact ⟨hl.step hg.1 hs, (hl.inherited_step hi hg.1 hs).2 hg.2⟩

/-- In every run whose steps inherit priorities, no thread waits for a mutex whose holder has a lower
priority; and the first step that does not inherit them is followed by such a state. -/
theorem no_inversion (hv : ValidVals vals) (hr : (system vals).Run InheritGuard h s) :
    (∀ m g w, (s.k.mtxs m).holder = some g → some w ∈ (s.k.mtxs m).wq.toList →
      (s.k.thrds w).fixedPrio ≤ (s.k.thrds g).fixedPrio) ∧
    ∀ a e s', s.QuietGuard a → s.step a = some (e, s') →
      ((∀ m g w, (s'.k.mtxs m).holder = some g → some w ∈ (s'.k.mtxs m).wq.toList →
        (s'.k.thrds w).fixedPrio ≤ (s'.k.thrds g).fixedPrio) ↔ s.view.Inherits a) := by
  obtain ⟨hl, hi⟩ := run_inherited hv hr
  exact ⟨hi, fun a e s' hg hs => hl.inherited_step hi hg hs⟩

/-- A thread of priority 2 waits for a mutex whose holder has been lent its priority. -/
theorem no_inversion_two_threads :
    ∃ h s, (system fun _ => 0).Run InheritGuard h s ∧
      (s.k.mtxs 0).holder = some (.slot 15) ∧ (s.k.mtxs 0).wq.toList = [some (.slot 14)] ∧
      (s.k.thrds (.slot 15)).basePrio = 1 ∧ (s.k.thrds (.slot 14)).fixedPrio = 2 ∧
      (s.k.thrds (.slot 14)).fixedPrio ≤ (s.k.thrds (.slot 15)).fixedPrio := by
  rcases exists_run (fun _ => 0) (G := InheritGuard)
    [.create 1 1, .create 1 2, .launch, .call (.mtxLock 0), .tick 0, .call (.mtxLock 0)]
    (P := fun _ s => (s.k.mtxs 0).holder = some (.slot 15) ∧
      (s.k.mtxs 0).wq.toList = [some (.slot 14)] ∧
      (s.k.thrds (.slot 15)).basePrio = 1 ∧ (s.k.thrds (.slot 14)).fixedPrio = 2)
    (by decide +kernel) with ⟨h, s, hr, hh, hw, hb, hf⟩
  refine ⟨h, s, hr, hh, hw, hb, hf, ?_⟩
  exact (no_inversion (fun _ => Nat.zero_le _) hr).1 0 _ _ hh (by rw [hw]; exact List.mem_cons_self)

/-- A thread of priority 1 holds two mutexes. A thread of priority 2 waits for the first; when the
holder unlocks the second, it falls back to priority 1. -/
theorem inversion_after_unlock :
    ∃ h s, (system fun _ => 0).Run QuietGuard h s ∧
      (s.k.mtxs 0).holder = some (.slot 15) ∧ (s.k.mtxs 0).wq.toList = [some (.slot 14)] ∧
      (s.k.thrds (.slot 15)).fixedPrio = 1 ∧ (s.k.thrds (.slot 14)).fixedPrio = 2 :=
  exists_run (fun _ => 0)
    [.create 1 1, .create 1 2, .launch, .call (.mtxLock 0), .call (.mtxLock 1), .tick 0,
      .call (.mtxLock 0), .tick 0, .call (.mtxUnlock 1)]
    (by decide +kernel)

end Sys

end MsTos
