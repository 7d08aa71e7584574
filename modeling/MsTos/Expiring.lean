-- SUMMARY: Which entries a tick takes out of `sleep_queue` and `t_waitqueue`, read off the queues before it.
import MsTos.Refinement
import MsTos.TimerHeaps

namespace MsTos

namespace PQueue

variable {active : ThrdPtr → Bool} {amount : Nat → Nat} {thresh fuel n : Nat}
  {pq : PQueue SleepDeadline numThreads}

/-! ## The order of the entries -/

/-- The first `n` entries, in the order in which `pqueue_sleep_pop` returns them. -/
def popOrder : Nat → PQueue SleepDeadline numThreads → List (PNode SleepDeadline)
  | 0, _ => []
  | n + 1, pq => pq.storage 1 :: popOrder n pq.pop.2

/-- All entries of the queue, in this order. -/
def inOrder (pq : PQueue SleepDeadline numThreads) : List (PNode SleepDeadline) :=
  popOrder pq.count pq

theorem length_popOrder : (popOrder n pq).length = n := by
  induction n generalizing pq with
  | zero => rfl
  | succ n ih => exact congrArg (· + 1) ih

theorem inOrder_of_count (h : pq.count = 0) : pq.inOrder = [] := by
  rw [inOrder, h]
  rfl

theorem inOrder_of_pos (h : 0 < pq.count) : pq.inOrder = pq.storage 1 :: pq.pop.2.inOrder := by
  obtain ⟨n, hn⟩ := Nat.exists_eq_succ_of_ne_zero h.ne'
  have hpop : pq.pop.2.count = n := by
    show pq.count - 1 = n
    omega
  rw [inOrder, hn, inOrder, hpop]
  rfl

/-- The root is overwritten when it is popped. -/
theorem inOrder_pop_setRoot (f : PNode SleepDeadline → PNode SleepDeadline) :
    (pq.setRoot f).pop.2.inOrder = pq.pop.2.inOrder := by
  rcases Nat.lt_or_ge 1 pq.count with hmany | hone
  · have hlast : (pq.setRoot f).storage pq.count = pq.storage pq.count :=
      Function.update_of_ne hmany.ne' _ _
    have hpop : (pq.setRoot f).pop.2 = pq.pop.2 := by
      unfold pop
      simp only [setRoot_count, hlast]
      simp only [setRoot, Function.update_idem]
    rw [hpop]
  · have hcount : pq.count - 1 = 0 := by omega
    rw [inOrder_of_count (show (pq.setRoot f).pop.2.count = 0 from hcount),
      inOrder_of_count (show pq.pop.2.count = 0 from hcount)]

theorem inOrder_setRoot (h : 0 < pq.count) (f : PNode SleepDeadline → PNode SleepDeadline) :
    (pq.setRoot f).inOrder = f (pq.storage 1) :: pq.pop.2.inOrder := by
  rw [inOrder_of_pos (show 0 < (pq.setRoot f).count from h), setRoot_root, inOrder_pop_setRoot]

theorem length_rest (h : 0 < pq.count) : pq.pop.2.inOrder.length + 1 = pq.count := by
  have hpop : pq.pop.2.inOrder.length = pq.count - 1 := length_popOrder
  omega

/-! ## The entries that a tick takes -/

/-- What `charge` makes of the entry that comes to the root. -/
def charged (amount ticks : Nat) (n : PNode SleepDeadline) : PNode SleepDeadline where
  priority := toInt (n.priority - amount)
  data := { n.data with ticks := (n.data.ticks + ticks) % wordSize }

theorem charge_eq (owed ticks : Nat) : pq.charge owed ticks = pq.setRoot (charged owed ticks) := rfl

/-- The handles that a loop of `os_update` takes out, with the entries in the order in which they come
to the root. It goes on while more than `thresh` entries are left and the time of the next one is over,
or its thread is `active`. `charge` is what the next entry is charged for the one taken before it. -/
def expiring (active : ThrdPtr → Bool) (amount : Nat → Nat) (thresh : Nat) :
    (PNode SleepDeadline → PNode SleepDeadline) → List (PNode SleepDeadline) → List ThrdPtr
  | _, [] => []
  | charge, n :: l =>
      let next := charge n
      if thresh < l.length + 1 ∧ (toInt (next.priority - 1) ≤ 0 ∨ active next.data.data) then
        next.data.data ::
          expiring active amount thresh (charged (amount next.data.ticks) next.data.ticks) l
      else []

/-- What is still to be charged to the root may as well be charged at once. -/
theorem expiring_setRoot (f : PNode SleepDeadline → PNode SleepDeadline) :
    expiring active amount thresh id (pq.setRoot f).inOrder =
      expiring active amount thresh f pq.inOrder := by
  rcases Nat.eq_zero_or_pos pq.count with h0 | hpos
  · rw [inOrder_of_count (show (pq.setRoot f).count = 0 from h0), inOrder_of_count h0]
    rfl
  · rw [inOrder_setRoot hpos, inOrder_of_pos hpos]
    rfl

theorem expiring_root (h : 0 < pq.count) : expiring active amount thresh id pq.inOrder =
    if pq.count > thresh ∧
        ((pq.countDown.storage 1).priority ≤ 0 ∨ active (pq.countDown.storage 1).data.data) then
      pq.countDown.pop.1.data :: expiring active amount thresh id
        (pq.countDown.pop.2.charge (amount pq.countDown.pop.1.ticks) pq.countDown.pop.1.ticks).inOrder
    else [] := by
  have hroot : pq.countDown.storage 1 =
      { pq.storage 1 with priority := toInt ((pq.storage 1).priority - 1) } := by
    simp [countDown]
  have hrest : pq.countDown.pop.2.inOrder = pq.pop.2.inOrder := inOrder_pop_setRoot _
  rw [charge_eq, expiring_setRoot, hrest, pop_item, hroot, inOrder_of_pos h, ← length_rest h]
  rfl

/-- The loop takes these entries out, and no others. -/
theorem handles_expire (h : pq.count ≤ fuel) : pq.handles =
    expiring active amount thresh id pq.inOrder + (expire active amount thresh fuel pq).handles := by
  induction fuel generalizing pq with
  | zero =>
      rw [inOrder_of_count (Nat.eq_zero_of_le_zero h)]
      exact (zero_add _).symm
  | succ fuel ih =>
      rcases Nat.eq_zero_or_pos pq.count with h0 | hpos
      · unfold expire
        rw [inOrder_of_count h0, if_neg (by omega)]
        exact (zero_add _).symm
      · rw [expiring_root hpos]
        unfold expire
        by_cases hc : pq.count > thresh
        · by_cases hp : (pq.countDown.storage 1).priority ≤ 0 ∨
              active (pq.countDown.storage 1).data.data
          · have hpop : pq.countDown.handles = pq.countDown.pop.1.data ::ₘ (pq.countDown.pop.2.charge
                (amount pq.countDown.pop.1.ticks) pq.countDown.pop.1.ticks).handles :=
              handles_pop_charge rfl hpos _
            have hrest := @ih (pq.countDown.pop.2.charge (amount pq.countDown.pop.1.ticks)
              pq.countDown.pop.1.ticks)
              (Nat.le_of_lt_succ (Nat.lt_of_lt_of_le (Nat.sub_lt hpos Nat.one_pos) h))
            rw [if_pos ⟨hc, hp⟩, if_pos hc, if_pos hp, ← handles_countDown, hpop, hrest,
              ← Multiset.cons_coe, Multiset.cons_add]
          · rw [if_neg fun h => hp h.2, if_pos hc, if_neg hp, handles_countDown]
            exact (zero_add _).symm
        · rw [if_neg fun h => hc h.1, if_neg hc]
          exact (zero_add _).symm

end PQueue

namespace Kernel

variable {k : Kernel}

/-- The handles that the next tick takes out of `sleep_queue`. -/
def waking (k : Kernel) : List ThrdPtr :=
  PQueue.expiring (fun _ => false) (fun ticks => toSize (ticks - 1)) (k.sleepQueue.count / 2) id
    k.sleepQueue.inOrder

/-- The handles that it takes out of `t_waitqueue`, where the threads that wake up are `ACTIVE`, too. -/
def expiring (k : Kernel) : List ThrdPtr :=
  PQueue.expiring (fun p => k.isActive p || k.waking.contains p) id (k.tWaitqueue.count / 2) id
    k.tWaitqueue.inOrder

/-- All handles that it takes out. -/
def taken (k : Kernel) : List ThrdPtr := k.waking ++ k.expiring

theorem handles_waking : k.sleepQueue.handles = k.waking + k.osUpdate.sleepQueue.handles := by
  rw [osUpdate_tick]
  exact PQueue.handles_expire (le_refl _)

/-- The threads that are `ACTIVE` when `os_update` comes to its second loop. -/
theorem Good.sleepersWoken_isActive (hk : k.Good) :
    k.sleepersWoken.isActive = fun p => k.isActive p || k.waking.contains p := by
  obtain ⟨woken, h⟩ := hk.wakeSleepers
  have hwoken : woken = k.waking := by
    have hq := h.sleepers.symm.trans handles_waking
    rw [osUpdate_sleepQueue] at hq
    exact add_right_cancel hq
  subst hwoken
  funext p
  cases p with
  | none =>
      have hn : none ∉ k.waking := by
        intro hm
        apply hk.sleepers
        rw [handles_waking]
        exact Multiset.mem_add.2 (.inl hm)
      simp [isActive, hn]
  | some u =>
      have hstate : (k.sleepersWoken.thrds u).state =
          if some u ∈ (k.waking : Multiset ThrdPtr) then .ACTIVE else (k.thrds u).state :=
        congrArg Thrd.state (h.thrds u)
      simp only [isActive, hstate, Multiset.mem_coe]
      by_cases hu : some u ∈ k.waking
      · simp [hu]
      · simp [hu]

theorem Good.handles_expiring (hk : k.Good) :
    k.tWaitqueue.handles = k.expiring + k.osUpdate.tWaitqueue.handles := by
  rw [osUpdate_tWaitqueue, expireDeadlines_tWaitqueue, sleepersWoken_tWaitqueue,
    hk.sleepersWoken_isActive]
  exact PQueue.handles_expire (le_refl _)

theorem Good.mem_taken (hk : k.Good) {p : ThrdPtr} (h : p ∈ k.taken) :
    p ∈ k.sleepQueue.handles ∨ p ∈ k.tWaitqueue.handles := by
  rw [handles_waking, hk.handles_expiring]
  exact (List.mem_append.1 h).imp (fun h => Multiset.mem_add.2 (.inl h))
    (fun h => Multiset.mem_add.2 (.inl h))

end Kernel

namespace Sys

variable {s s' : Sys} {a : Action} {e : Option Event} {sp : Addr}

/-- What a tick takes out of the queues is known before. -/
theorem Sound.taken_tick (hk : s.Sound) (hs : s.step (.tick sp) = some (e, s')) :
    s.view.taken s'.view = s.k.taken := by
  have hgood : (save s.k sp).Good := hk.good.congr rfl rfl rfl rfl rfl
  have hsleep : s.view.sleepers = s.k.waking + s'.view.sleepers := by
    show s.k.sleepQueue.handles = s.k.waking + s'.k.sleepQueue.handles
    rw [(tick_of_step hs).1]
    show _ = _ + (save s.k sp).osUpdate.osSchedule.sleepQueue.handles
    rw [Kernel.osSchedule_sleepQueue]
    exact Kernel.handles_waking (k := save s.k sp)
  have hwait : s.view.deadlines = s.k.expiring + s'.view.deadlines := by
    show s.k.tWaitqueue.handles = s.k.expiring + s'.k.tWaitqueue.handles
    rw [(tick_of_step hs).1]
    show _ = _ + (save s.k sp).osUpdate.osSchedule.tWaitqueue.handles
    rw [Kernel.osSchedule_tWaitqueue]
    exact hgood.handles_expiring
  rw [View.taken, hsleep, hwait, add_tsub_cancel_right, add_tsub_cancel_right]
  rfl

/-- A tick takes no entry of a blocked thread out of `sleep_queue` or `t_waitqueue`. -/
def Unarmed (s : Sys) (a : Action) : Prop :=
  match a with
  | .tick _ => ∀ t, (s.k.thrds t).state = .BLOCKING → some t ∉ s.k.taken
  | _ => True

instance (s : Sys) : ∀ a, Decidable (s.Unarmed a)
  | .tick _ => inferInstanceAs (Decidable (∀ _, _))
  | .create _ _ | .launch | .call _ | .resume => inferInstanceAs (Decidable True)

end Sys

end MsTos
