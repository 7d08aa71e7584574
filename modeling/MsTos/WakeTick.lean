-- SUMMARY: Which tick takes an entry out of `sleep_queue`, as long as nothing is pushed: a sum over the entries before it.
import MsTos.Expiring

namespace MsTos

namespace PQueue

variable {d : ThrdPtr} {thresh fuel n : Nat} {handed : Option Nat}
  {pq : PQueue SleepDeadline numThreads}

/-! ## Waiting for an entry -/

/-- How many ticks after the present one the entry of `d` is popped. `handed` are the ticks that all
entries popped before have handed on: they are charged to the first entry of the list, with the one
tick for which the loop goes on. Every entry then waits at the root until its priority is 0. The loop
leaves an entry to the next tick if no more than `thresh` are left, half of those that were there when
the present tick began. -/
def ticksUntil (d : ThrdPtr) : Nat → Option Nat → List (PNode SleepDeadline) → Nat
  | _, _, [] => 0
  | thresh, handed, n :: l =>
      let wait := (if l.length < thresh then 1 else 0) +
        (toInt (n.priority - (handed.getD 1 : Nat))).toNat
      wait + if n.data.data = d then 0
        else ticksUntil d (if wait = 0 then thresh else (l.length + 1) / 2)
          (some (n.data.ticks + handed.getD 0)) l

/-- The number of the tick that takes the entry of `d` out of the queue, if nothing is pushed. -/
def wakeTick (pq : PQueue SleepDeadline numThreads) (d : ThrdPtr) : Nat :=
  ticksUntil d (pq.count / 2) none pq.inOrder + 1

theorem toInt_congr {y z : Int} (h : y % 65536 = z % 65536) : toInt y = toInt z := by
  unfold toInt
  omega

/-- The ticks that are handed on count modulo 2^16. -/
theorem ticksUntil_congr {a b : Nat} (h : a % 65536 = b % 65536) (thresh : Nat)
    (l : List (PNode SleepDeadline)) :
    ticksUntil d thresh (some a) l = ticksUntil d thresh (some b) l := by
  induction l generalizing thresh a b with
  | nil => rfl
  | cons n l ih =>
      have hp : toInt (n.priority - (a : Int)) = toInt (n.priority - (b : Int)) :=
        toInt_congr (by omega)
      simp only [ticksUntil, Option.getD_some, hp]
      rw [ih (show (n.data.ticks + a) % 65536 = (n.data.ticks + b) % 65536 by omega)]

/-- The ticks of a popped entry are charged to the root. -/
theorem ticksUntil_charge (ticks : Nat) : ticksUntil d thresh none
      (pq.charge (toSize (ticks - 1)) ticks).inOrder =
    ticksUntil d thresh (some ticks) pq.inOrder := by
  rcases Nat.eq_zero_or_pos pq.count with h0 | hpos
  · rw [inOrder_of_count (show (pq.charge _ ticks).count = 0 from h0), inOrder_of_count h0]
    rfl
  · rw [inOrder_of_pos hpos, PQueue.charge, inOrder_setRoot hpos]
    have hp : toInt (toInt ((pq.storage 1).priority - (toSize (ticks - 1) : Nat)) - (1 : Nat)) =
        toInt ((pq.storage 1).priority - (ticks : Int)) := by
      unfold toSize toInt
      omega
    simp only [ticksUntil, Option.getD_some, Option.getD_none, hp, add_zero]
    rw [ticksUntil_congr (show (((pq.storage 1).data.ticks + ticks) % wordSize) % 65536 =
      ((pq.storage 1).data.ticks + ticks) % 65536 from Nat.mod_mod _ _)]

/-- An entry whose time is not over waits at the root. -/
theorem ticksUntil_cons {x : PNode SleepDeadline} {l : List (PNode SleepDeadline)} {w : Nat}
    (h : (if l.length < thresh then 1 else 0) + (toInt (x.priority - (handed.getD 1 : Nat))).toNat =
      w + 1) : ticksUntil d thresh handed (x :: l) = w + 1 + if x.data.data = d then 0
        else ticksUntil d ((l.length + 1) / 2) (some (x.data.ticks + handed.getD 0)) l := by
  simp only [ticksUntil, h, if_neg (Nat.succ_ne_zero w)]

/-- At the beginning of a tick, its own count is the one that matters. -/
theorem ticksUntil_half (x : PNode SleepDeadline) (l : List (PNode SleepDeadline)) :
    ticksUntil d ((l.length + 1) / 2) handed (x :: l) =
      (toInt (x.priority - (handed.getD 1 : Nat))).toNat + if x.data.data = d then 0
        else ticksUntil d ((l.length + 1) / 2) (some (x.data.ticks + handed.getD 0)) l := by
  have hl : ¬ l.length < (l.length + 1) / 2 := by omega
  simp only [ticksUntil, if_neg hl, zero_add, ite_self]

/-! ## A tick -/

section

variable (hpos : 0 < pq.count)
include hpos

/-- Nobody waits for a root whose time is over. -/
theorem ticksUntil_over (hc : pq.count > thresh) (hp : (pq.countDown.storage 1).priority ≤ 0) :
    ticksUntil d thresh none pq.inOrder = if (pq.storage 1).data.data = d then 0
      else ticksUntil d thresh (some (pq.storage 1).data.ticks) pq.pop.2.inOrder := by
  have hlen := length_rest hpos
  have hnot : ¬ pq.pop.2.inOrder.length < thresh := by omega
  have hwait : (toInt ((pq.storage 1).priority - (1 : Nat))).toNat = 0 := by
    have hp : toInt ((pq.storage 1).priority - 1) ≤ 0 := by
      simpa [countDown] using hp
    exact Int.toNat_of_nonpos hp
  rw [inOrder_of_pos hpos]
  simp only [ticksUntil, Option.getD_none, hwait, if_neg hnot, add_zero, zero_add, ite_true]

/-- A round that pops another entry than that of `d`. -/
theorem ticksUntil_round (hc : pq.count > thresh) (hp : (pq.countDown.storage 1).priority ≤ 0)
    (hne : (pq.storage 1).data.data ≠ d) : ticksUntil d thresh none pq.inOrder =
      ticksUntil d thresh none (pq.countDown.pop.2.charge
        (toSize (pq.countDown.pop.1.ticks - 1)) pq.countDown.pop.1.ticks).inOrder := by
  have hticks : pq.countDown.pop.1.ticks = (pq.storage 1).data.ticks := by
    rw [pop_item]
    simp [countDown]
  rw [ticksUntil_charge, hticks, show pq.countDown.pop.2.inOrder = _ from inOrder_pop_setRoot _,
    ticksUntil_over hpos hc hp, if_neg hne]

/-- The time of the root is not over. -/
theorem ticksUntil_countDown (hc : pq.count > thresh) (hp : 0 < (pq.countDown.storage 1).priority) :
    ticksUntil d thresh none pq.inOrder = pq.countDown.wakeTick d := by
  have hlen := length_rest hpos
  have hnot : ¬ pq.pop.2.inOrder.length < thresh := by omega
  have hp : 0 < toInt ((pq.storage 1).priority - 1) := by
    simpa [countDown] using hp
  have hm := toInt_mem ((pq.storage 1).priority - 1)
  have hnext : toInt (toInt ((pq.storage 1).priority - 1) - 1) =
      toInt ((pq.storage 1).priority - 1) - 1 := toInt_of_mem (by omega) (by omega)
  obtain ⟨w, hw⟩ : ∃ w : Nat, (toInt ((pq.storage 1).priority - 1)).toNat = w + 1 :=
    ⟨(toInt ((pq.storage 1).priority - 1)).toNat - 1, by omega⟩
  have hw' : (toInt (toInt ((pq.storage 1).priority - 1) - (1 : Nat))).toNat = w := by
    show (toInt (toInt ((pq.storage 1).priority - 1) - 1)).toNat = w
    omega
  have hhead : pq.countDown.inOrder =
      { pq.storage 1 with priority := toInt ((pq.storage 1).priority - 1) } :: pq.pop.2.inOrder :=
    inOrder_setRoot hpos _
  rw [wakeTick, hhead, show pq.countDown.count = _ from hlen.symm, ticksUntil_half,
    inOrder_of_pos hpos, ticksUntil_cons (w := w)]
  · simp only [Option.getD_none, hw']
    omega
  · rw [if_neg hnot, zero_add]
    exact hw

/-- No more entries are left than half of those at the beginning of the tick. -/
theorem ticksUntil_stop (hc : ¬ pq.count > thresh) :
    ticksUntil d thresh none pq.inOrder = pq.wakeTick d := by
  have hlen := length_rest hpos
  have hlt : pq.pop.2.inOrder.length < thresh := by omega
  rw [wakeTick, inOrder_of_pos hpos, ← hlen, ticksUntil_half,
    ticksUntil_cons (w := (toInt ((pq.storage 1).priority - ((none : Option Nat).getD 1 : Nat))).toNat)]
  · omega
  · rw [if_pos hlt, add_comm]

end

/-- A tick takes the entry out, or it brings its turn nearer by one. -/
theorem wake_ticksUntil (hd : pq.handles.count d = 1) (hf : pq.count ≤ fuel) :
    ticksUntil d thresh none pq.inOrder = 0 ∧ (wake thresh fuel pq).handles.count d = 0 ∨
      (wake thresh fuel pq).handles.count d = 1 ∧
        ticksUntil d thresh none pq.inOrder = (wake thresh fuel pq).wakeTick d := by
  induction fuel generalizing pq with
  | zero =>
      rw [Multiset.card_eq_zero.1 (pq.card_handles.trans (Nat.eq_zero_of_le_zero hf))] at hd
      cases hd
  | succ fuel ih =>
      have hpos : 0 < pq.count := by
        rw [← card_handles]
        exact Nat.lt_of_lt_of_le (hd ▸ Nat.one_pos) (Multiset.count_le_card _ _)
      unfold wake expire
      simp only [Bool.false_eq_true, or_false]
      split
      · rename_i hc
        split
        · rename_i hp
          have hdata : pq.countDown.pop.1.data = (pq.storage 1).data.data := by
            rw [pop_item]
            simp [countDown]
          have hrest : pq.countDown.handles = pq.countDown.pop.1.data ::ₘ
              (pq.countDown.pop.2.charge (toSize (pq.countDown.pop.1.ticks - 1))
                pq.countDown.pop.1.ticks).handles := handles_pop_charge rfl hpos _
          rw [handles_countDown, hdata] at hrest
          rw [hrest] at hd
          rcases eq_or_ne (pq.storage 1).data.data d with he | hne
          · left
            rw [he, Multiset.count_cons_self] at hd
            refine ⟨?_, Nat.le_zero.1 ?_⟩
            · rw [ticksUntil_over hpos hc hp, if_pos he]
            · exact (Multiset.count_le_of_le d expire_handles_le).trans (by omega)
          · rw [Multiset.count_cons_of_ne hne.symm] at hd
            rw [ticksUntil_round hpos hc hp hne]
            exact ih hd (Nat.le_of_lt_succ (Nat.lt_of_lt_of_le (Nat.sub_lt hpos Nat.one_pos) hf))
        · rename_i hp
          refine .inr ⟨?_, ticksUntil_countDown hpos hc (not_le.1 hp)⟩
          rw [handles_countDown]
          exact hd
      · rename_i hc
        exact .inr ⟨hd, ticksUntil_stop hpos hc⟩

theorem ticks_handles_le (n : Nat) (pq : PQueue SleepDeadline numThreads) :
    (tick^[n] pq).handles ≤ pq.handles := by
  induction n generalizing pq with
  | zero => exact le_refl _
  | succ n ih =>
      rw [Function.iterate_succ_apply]
      exact (ih pq.tick).trans expire_handles_le

/-- An entry is there until its tick has come. -/
theorem mem_ticks_iff (hd : pq.handles.count d = 1) (n : Nat) :
    d ∈ (tick^[n] pq).handles ↔ n < pq.wakeTick d := by
  induction n generalizing pq with
  | zero =>
      have hm : d ∈ pq.handles := Multiset.count_pos.1 (hd ▸ Nat.one_pos)
      exact ⟨fun _ => Nat.succ_pos _, fun _ => hm⟩
  | succ n ih =>
      have htick : ticksUntil d (pq.count / 2) none pq.inOrder = 0 ∧ pq.tick.handles.count d = 0 ∨
          pq.tick.handles.count d = 1 ∧
            ticksUntil d (pq.count / 2) none pq.inOrder = pq.tick.wakeTick d :=
        wake_ticksUntil hd (le_refl _)
      rw [Function.iterate_succ_apply]
      rcases htick with ⟨hz, hgone⟩ | ⟨hone, hu⟩
      · have hnone : d ∉ (tick^[n] pq.tick).handles := fun hm =>
          Multiset.count_eq_zero.1 hgone (Multiset.mem_of_le (ticks_handles_le n _) hm)
        refine ⟨fun hm => absurd hm hnone, fun hlt => ?_⟩
        rw [wakeTick, hz] at hlt
        omega
      · have hw : pq.wakeTick d = pq.tick.wakeTick d + 1 := congrArg (· + 1) hu
        rw [ih hone, hw]
        exact Nat.succ_lt_succ_iff.symm

/-- An entry that is alone is taken out by the last of its ticks. -/
theorem wakeTick_lone {c : TaskId} {ticks : Nat} (h0 : pq.count = 0) (hpos : 0 < ticks)
    (hlt : ticks < 32768) : (pq.push ticks ⟨some c, ticks⟩).2.wakeTick (some c) = ticks := by
  have hp : toInt (toInt ticks - (1 : Nat)) = ticks - 1 := by
    unfold toInt
    omega
  have hpush : (pq.push ticks ⟨some c, ticks⟩).2.count = 1 ∧
      (pq.push ticks ⟨some c, ticks⟩).2.storage 1 = ⟨toInt ticks, ⟨some c, ticks⟩⟩ := by
    simp [push, h0, pushLoop, numThreads]
  have hrest : (pq.push ticks ⟨some c, ticks⟩).2.pop.2.inOrder = [] := by
    apply inOrder_of_count
    show (pq.push ticks ⟨some c, ticks⟩).2.count - 1 = 0
    rw [hpush.1]
  rw [wakeTick, hpush.1, inOrder_of_pos (hpush.1 ▸ Nat.one_pos), hrest, hpush.2]
  simp only [ticksUntil, Option.getD_none, hp, List.length_nil, Nat.lt_irrefl, if_true, if_false,
    zero_add, add_zero, Nat.reduceDiv]
  omega

end PQueue

end MsTos
