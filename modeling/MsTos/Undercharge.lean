-- SUMMARY: What the loop over `sleep_queue` owes its entries: at most one tick more than before, and only where it stops at half of the queue.
import Mathlib
import MsTos.TimerHeaps

namespace MsTos

namespace PQueue

variable {asked asked' : ThrdPtr → Nat} {left left' : ThrdPtr → Int} {d : Int} {thresh fuel : Nat}
  {pq : PQueue SleepDeadline numThreads}

/-! ## The rounds of the loop -/

/-- The loop over `sleep_queue` does not find a root whose time is not over: it ends because the
count is down to `thresh`. -/
def stopsAtHalf (thresh : Nat) : Nat → PQueue SleepDeadline numThreads → Bool
  | 0, _ => true
  | fuel + 1, pq =>
      if pq.count > thresh then
        if (pq.countDown.storage 1).priority ≤ 0 then
          let (deadline, q) := pq.countDown.pop
          stopsAtHalf thresh fuel (q.charge (toSize (deadline.ticks - 1)) deadline.ticks)
        else false
      else true

/-- No sum of ticks that the loop over `sleep_queue` writes wraps. -/
def sumsFit (thresh : Nat) : Nat → PQueue SleepDeadline numThreads → Bool
  | 0, _ => true
  | fuel + 1, pq =>
      if pq.count > thresh ∧ (pq.countDown.storage 1).priority ≤ 0 then
        let (deadline, q) := pq.countDown.pop
        decide (q.count > 0 → (q.storage 1).data.ticks + deadline.ticks < wordSize) &&
        sumsFit thresh fuel (q.charge (toSize (deadline.ticks - 1)) deadline.ticks)
      else true

/-! ## Levels -/

open Classical in
/-- The levels below `v` that some entry has come down through since it was pushed. -/
noncomputable def passed (asked : ThrdPtr → Nat) (pq : PQueue SleepDeadline numThreads) (v : Int) : Finset Int :=
  {w ∈ Finset.Ico (-32768) v | ∃ n ∈ pq.entries, n.priority ≤ w ∧ w < asked n.data.data}

/-- What an entry has left is at most what it should have left, what the entries before it have come
down through, and `d`. -/
def Lag (asked : ThrdPtr → Nat) (left : ThrdPtr → Int) (d : Int)
    (pq : PQueue SleepDeadline numThreads) : Prop :=
  ∀ n ∈ pq.entries, n.priority ≤ left n.data.data + (pq.passed asked n.priority).card + d

/-- The root has no larger priority than any entry. -/
def RootLeast (pq : PQueue SleepDeadline numThreads) : Prop :=
  ∀ n ∈ pq.entries, (pq.storage 1).priority ≤ n.priority

theorem mem_passed {v w : Int} : w ∈ pq.passed asked v ↔ (-32768 ≤ w ∧ w < v) ∧
    ∃ n ∈ pq.entries, n.priority ≤ w ∧ w < asked n.data.data := by
  simp only [passed, Finset.mem_filter, Finset.mem_Ico]

theorem RootLeast.passed_subset (h : pq.RootLeast) (v : Int) :
    pq.passed asked v ⊆ Finset.Ico (pq.storage 1).priority v := by
  intro w hw
  obtain ⟨⟨-, hv⟩, n, hn, hle, -⟩ := mem_passed.1 hw
  exact Finset.mem_Ico.2 ⟨(h n hn).trans hle, hv⟩

theorem RootLeast.passed_root (h : pq.RootLeast) :
    pq.passed asked (pq.storage 1).priority = ∅ := by
  rw [← Finset.subset_empty, ← Finset.Ico_self (pq.storage 1).priority]
  exact h.passed_subset _

/-- No entry has more left than the root allows for. -/
theorem Lag.root_le (h : pq.Lag asked left d) (hr : pq.RootLeast) :
    ∀ n ∈ pq.entries, (pq.storage 1).priority ≤ left n.data.data + d := by
  intro n hn
  have hsub : pq.passed asked n.priority ⊆ Finset.Ico (pq.storage 1).priority n.priority :=
    hr.passed_subset _
  have hcard := Finset.card_le_card hsub
  rw [Int.card_Ico] at hcard
  have := h n hn
  have := hr n hn
  omega

theorem Lag.mono {d' : Int} (h : pq.Lag asked left d) (hl : ∀ p, left p + d ≤ left' p + d') :
    pq.Lag asked left' d' := by
  intro n hn
  have := h n hn
  have := hl n.data.data
  omega

/-! ## What a round does -/

/-- A root that comes down by `x` comes down through `x` levels that were not counted before. -/
theorem RootLeast.card_passed_setRoot {x : Nat} {f : PNode SleepDeadline → PNode SleepDeadline}
    {v : Int} (hr : pq.RootLeast) (hpos : 0 < pq.count)
    (ha : (pq.storage 1).priority ≤ asked (pq.storage 1).data.data)
    (hf : (f (pq.storage 1)).priority = (pq.storage 1).priority - x)
    (hd : (f (pq.storage 1)).data.data = (pq.storage 1).data.data)
    (hlow : -32768 ≤ (pq.storage 1).priority - x) (hv : (pq.storage 1).priority ≤ v) :
    (pq.passed asked v).card + x ≤ ((pq.setRoot f).passed asked v).card := by
  have hnew : f (pq.storage 1) ∈ (pq.setRoot f).entries := by
    rw [entries_setRoot hpos]
    exact Multiset.mem_cons_self _ _
  have hdisj : Disjoint (pq.passed asked v)
      (Finset.Ico ((pq.storage 1).priority - x) (pq.storage 1).priority) := by
    rw [Finset.disjoint_left]
    intro w hw hw'
    have := (Finset.mem_Ico.1 (hr.passed_subset _ hw)).1
    have := (Finset.mem_Ico.1 hw').2
    omega
  have hsub : pq.passed asked v ∪
      Finset.Ico ((pq.storage 1).priority - x) (pq.storage 1).priority ⊆
        (pq.setRoot f).passed asked v := by
    intro w hw
    rw [mem_passed]
    rcases Finset.mem_union.1 hw with hw | hw
    · obtain ⟨hv, m, hm, hle, hlt⟩ := mem_passed.1 hw
      refine ⟨hv, ?_⟩
      rw [entries_eq hpos, Multiset.mem_cons] at hm
      rcases hm with rfl | hm
      · refine ⟨_, hnew, ?_, hd ▸ hlt⟩
        rw [hf]
        omega
      · refine ⟨m, ?_, hle, hlt⟩
        rw [entries_setRoot hpos]
        exact Multiset.mem_cons_of_mem hm
    · have := Finset.mem_Ico.1 hw
      refine ⟨⟨by omega, by omega⟩, _, hnew, ?_, ?_⟩
      · rw [hf]
        omega
      · rw [hd]
        omega
  have hcard := Finset.card_le_card hsub
  rw [Finset.card_union_of_disjoint hdisj, Int.card_Ico] at hcard
  omega

/-- The root comes down by `x`: so do all others, as far as they wait for the root. -/
theorem Lag.lower {x : Nat} {f : PNode SleepDeadline → PNode SleepDeadline} (h : pq.Lag asked left d)
    (hr : pq.RootLeast) (hpos : 0 < pq.count)
    (ha : (pq.storage 1).priority ≤ asked (pq.storage 1).data.data)
    (hf : (f (pq.storage 1)).priority = (pq.storage 1).priority - x)
    (hd : (f (pq.storage 1)).data.data = (pq.storage 1).data.data)
    (hlow : -32768 ≤ (pq.storage 1).priority - x) : (pq.setRoot f).Lag asked left (d - x) := by
  intro n hn
  rw [entries_setRoot hpos, Multiset.mem_cons] at hn
  rcases hn with rfl | hn
  · have hlag := h _ (mem_entries (le_refl 1) hpos)
    rw [hr.passed_root, Finset.card_empty] at hlag
    rw [hf, hd]
    omega
  · have hmem : n ∈ pq.entries := by
      rw [entries_eq hpos]
      exact Multiset.mem_cons_of_mem hn
    have hcard := hr.card_passed_setRoot hpos ha hf hd hlow (hr n hmem)
    have := h n hmem
    omega

/-- The root leaves the queue, and what it has come down through no longer counts. -/
theorem Lag.pop {x : Nat} (h : pq.Lag asked left d) (hpos : 0 < pq.count)
    (hx : (asked (pq.storage 1).data.data : Int) - (pq.storage 1).priority ≤ x) :
    pq.pop.2.Lag asked left (d + x) := by
  intro n hn
  rw [entries_pop hpos] at hn
  have hmem : n ∈ pq.entries := by
    rw [entries_eq hpos]
    exact Multiset.mem_cons_of_mem hn
  have hsub : pq.passed asked n.priority ⊆ pq.pop.2.passed asked n.priority ∪
      Finset.Ico (pq.storage 1).priority (asked (pq.storage 1).data.data) := by
    intro w hw
    obtain ⟨hv, m, hm, hle, hlt⟩ := mem_passed.1 hw
    rw [entries_eq hpos, Multiset.mem_cons] at hm
    rw [Finset.mem_union]
    rcases hm with rfl | hm
    · exact .inr (Finset.mem_Ico.2 ⟨hle, hlt⟩)
    · refine .inl (mem_passed.2 ⟨hv, m, ?_, hle, hlt⟩)
      rwa [entries_pop hpos]
  have hcard := (Finset.card_le_card hsub).trans (Finset.card_union_le _ _)
  rw [Int.card_Ico] at hcard
  have := h n hmem
  omega

/-- A new entry comes in, with the priority that it should have. -/
theorem Lag.push {priority : Nat} {item : SleepDeadline} (h : pq.Lag asked left d)
    (hnew : item.data ∉ pq.handles) (ha : ∀ p, p ≠ item.data → asked' p = asked p)
    (hl : ∀ p, p ≠ item.data → left' p = left p) (hi : toInt priority ≤ left' item.data + d) :
    (pq.push priority item).2.Lag asked' left' d := by
  have hne : ∀ n ∈ pq.entries, n.data.data ≠ item.data := by
    intro n hn he
    exact hnew (he ▸ Multiset.mem_map_of_mem _ hn)
  have hsub : ∀ v, pq.passed asked v ⊆ (pq.push priority item).2.passed asked' v := by
    intro v w hw
    obtain ⟨hv, m, hm, hle, hlt⟩ := mem_passed.1 hw
    rw [← ha _ (hne m hm)] at hlt
    refine mem_passed.2 ⟨hv, m, ?_, hle, hlt⟩
    rcases Nat.lt_or_ge (pq.count + 1) numThreads with hroom | hfull
    · rw [entries_push hroom]
      exact Multiset.mem_cons_of_mem hm
    · rwa [push_full hfull]
  have hnode : toInt priority ≤ left' item.data +
      ((pq.push priority item).2.passed asked' (toInt priority)).card + d := by
    omega
  refine forall_entries_push (P := fun n : PNode SleepDeadline => n.priority ≤ left' n.data.data +
    ((pq.push priority item).2.passed asked' n.priority).card + d) ?_ hnode
  intro n hn
  have := h n hn
  have := Finset.card_le_card (hsub n.priority)
  rw [hl _ (hne n hn)]
  omega

/-! ## The loop -/

/-- The ticks of the entry cover what it has come down through. -/
structure Covers (asked : ThrdPtr → Nat) (n : PNode SleepDeadline) : Prop where
  pos : 0 < asked n.data.data
  le : n.priority ≤ asked n.data.data
  ticks : asked n.data.data ≤ n.data.ticks ∧ n.data.ticks < wordSize
  sum : (asked n.data.data : Int) < n.data.ticks + n.priority

/-- A queue in which `d` ticks are still to be paid for. -/
structure Paying (asked : ThrdPtr → Nat) (left : ThrdPtr → Int) (d : Int)
    (pq : PQueue SleepDeadline numThreads) : Prop where
  ordered : pq.Ordered
  inRange : pq.InRange
  covers : ∀ n ∈ pq.entries, Covers asked n
  lag : pq.Lag asked left d

namespace Paying

theorem rootLeast (h : pq.Paying asked left d) : pq.RootLeast :=
  fun _ hn => h.ordered.root_le hn

/-- The countdown of the root pays for a tick. -/
theorem countDown_lag (h : pq.Paying asked left 1) (hpos : 0 < pq.count)
    (hw : -32768 < (pq.storage 1).priority) : pq.countDown.Lag asked left 0 := by
  have hroot := h.inRange _ (mem_entries (le_refl 1) hpos)
  have hlow : -32768 ≤ (pq.storage 1).priority - (1 : Nat) := by omega
  have hp : toInt ((pq.storage 1).priority - 1) = (pq.storage 1).priority - (1 : Nat) :=
    toInt_of_mem hlow (by omega)
  exact h.lag.lower h.rootLeast hpos (entries_root h.covers hpos).le hp rfl hlow

/-- A round that ends the loop, because the time of the root is not over. -/
theorem countDown (h : pq.Paying asked left 1) (hpos : 0 < pq.count)
    (hw : -32768 < (pq.storage 1).priority) (hover : 0 < (pq.countDown.storage 1).priority) :
    pq.countDown.Paying asked left 0 := by
  obtain ⟨ho, hi⟩ := countDown_ordered h.ordered h.inRange hpos hw
  refine ⟨ho, hi, ?_, h.countDown_lag hpos hw⟩
  refine forall_entries_setRoot h.covers fun _ => ?_
  have hcov := entries_root h.covers hpos
  have hroot := h.inRange _ (mem_entries (le_refl 1) hpos)
  have hle := hcov.le
  have hticks := hcov.ticks
  have hp : toInt ((pq.storage 1).priority - 1) = (pq.storage 1).priority - 1 :=
    toInt_of_mem (by omega) (by omega)
  have hover : 0 < toInt ((pq.storage 1).priority - 1) := by
    simpa [PQueue.countDown] using hover
  refine ⟨hcov.pos, ?_, hticks, ?_⟩
  · show toInt _ ≤ (asked (pq.storage 1).data.data : Int)
    omega
  · show (asked (pq.storage 1).data.data : Int) < (pq.storage 1).data.ticks + toInt _
    omega

/-- The ticks of an entry that has been popped are charged to the next one, but for one tick. -/
theorem charge {ticks : Nat} (h : pq.Paying asked left ticks) (hpos : 0 < ticks)
    (hlt : ticks < wordSize)
    (hfits : 0 < pq.count → -32768 ≤ (pq.storage 1).priority - toSize (ticks - 1))
    (hsum : 0 < pq.count → (pq.storage 1).data.ticks + ticks < wordSize) :
    (pq.charge (toSize (ticks - 1)) ticks).Paying asked left 1 := by
  obtain ⟨ho, hi⟩ := charge_ordered ticks h.ordered h.inRange hfits
  rcases Nat.eq_zero_or_pos pq.count with h0 | hcount
  · have hnone : ∀ n, n ∉ (pq.charge (toSize (ticks - 1)) ticks).entries := by
      intro n hn
      rw [entries_of_count (show (pq.charge _ ticks).count = 0 from h0)] at hn
      exact Multiset.notMem_zero n hn
    exact ⟨ho, hi, fun n hn => absurd hn (hnone n), fun n hn => absurd hn (hnone n)⟩
  · have hsize : (ticks : Int) - (toSize (ticks - 1) : Nat) = 1 := by
      unfold toSize
      simp only [wordSize] at hlt
      omega
    have hfits := hfits hcount
    have hroot := h.inRange _ (mem_entries (le_refl 1) hcount)
    have hcov := entries_root h.covers hcount
    have hp : toInt ((pq.storage 1).priority - (toSize (ticks - 1) : Nat)) =
        (pq.storage 1).priority - (toSize (ticks - 1) : Nat) := toInt_of_mem hfits (by omega)
    refine ⟨ho, hi, ?_, ?_⟩
    · refine forall_entries_setRoot h.covers fun _ => ?_
      have hmod : ((pq.storage 1).data.ticks + ticks) % wordSize =
          (pq.storage 1).data.ticks + ticks := Nat.mod_eq_of_lt (hsum hcount)
      have hle := hcov.le
      have hticks := hcov.ticks
      have hcsum := hcov.sum
      refine ⟨hcov.pos, ?_, ?_, ?_⟩
      · show toInt _ ≤ (asked (pq.storage 1).data.data : Int)
        omega
      · show asked (pq.storage 1).data.data ≤ (_ + _) % wordSize ∧ (_ + _) % wordSize < wordSize
        rw [hmod]
        exact ⟨by omega, hsum hcount⟩
      · show (asked (pq.storage 1).data.data : Int) < (((_ + _) % wordSize : Nat) : Int) + toInt _
        rw [hmod]
        omega
    · have hlag : (pq.charge (toSize (ticks - 1)) ticks).Lag asked left
          (ticks - (toSize (ticks - 1) : Nat)) :=
        h.lag.lower h.rootLeast hcount hcov.le hp rfl hfits
      rwa [hsize] at hlag

/-- A round that pops the root. -/
theorem round (h : pq.Paying asked left 1) (hpos : 0 < pq.count)
    (hw : -32768 < (pq.storage 1).priority) {ticks : Nat} {q : PQueue SleepDeadline numThreads}
    (hticks : pq.countDown.pop.1.ticks = ticks) (hq : pq.countDown.pop.2 = q)
    (hfits : 0 < q.count → -32768 ≤ (q.storage 1).priority - toSize (ticks - 1))
    (hsum : 0 < q.count → (q.storage 1).data.ticks + ticks < wordSize) :
    (q.charge (toSize (ticks - 1)) ticks).Paying asked left 1 := by
  have hcov := entries_root h.covers hpos
  have hroot := h.inRange _ (mem_entries (le_refl 1) hpos)
  have hle := hcov.le
  have hcticks := hcov.ticks
  have hcsum := hcov.sum
  have hcpos := hcov.pos
  have hticks' : (pq.storage 1).data.ticks = ticks := by
    rw [← hticks, pop_item]
    simp [PQueue.countDown]
  have hp : (pq.countDown.storage 1).priority = (pq.storage 1).priority - 1 := by
    have : toInt ((pq.storage 1).priority - 1) = (pq.storage 1).priority - 1 :=
      toInt_of_mem (by omega) (by omega)
    simpa [PQueue.countDown] using this
  have hd : (pq.countDown.storage 1).data.data = (pq.storage 1).data.data := by
    simp [PQueue.countDown]
  obtain ⟨ho, hi⟩ := countDown_ordered h.ordered h.inRange hpos hw
  have hpos' : 0 < pq.countDown.count := hpos
  have hlag := (h.countDown_lag hpos hw).pop (x := ticks) hpos' (by rw [hp, hd]; omega)
  have hcovers : ∀ n ∈ pq.countDown.pop.2.entries, Covers asked n := by
    intro n hn
    rw [entries_pop hpos', show pq.countDown.rest = pq.rest from setRoot_rest _] at hn
    apply h.covers
    rw [entries_eq hpos]
    exact Multiset.mem_cons_of_mem hn
  rw [zero_add] at hlag
  rw [← hq] at hfits hsum ⊢
  exact Paying.charge ⟨ho.pop hpos', hi.pop hpos', hcovers, hlag⟩ (by omega) (by omega) hfits hsum

end Paying

/-- A new entry, whose thread has none yet. -/
theorem Paying.push {v : TaskId} {ticks : Nat} (h : pq.Paying asked left 0) (hpos : ticks ≠ 0)
    (hlt : ticks < 32768) (hf : pq.PushFits ticks) (hnew : some v ∉ pq.handles)
    (ha : ∀ p, p ≠ some v → asked' p = asked p) (hv : asked' (some v) = ticks)
    (hl : ∀ p, p ≠ some v → left' p = left p) (hi : left' (some v) = ticks) :
    (pq.push ticks ⟨some v, ticks⟩).2.Paying asked' left' 0 := by
  have hp : toInt ticks = ticks := toInt_of_mem (by omega) (by omega)
  have hword : ticks < wordSize := hlt.trans (by decide)
  refine ⟨h.ordered.push h.inRange hlt hf _, h.inRange.push _ _, ?_, ?_⟩
  · refine forall_entries_push ?_ ⟨?_, ?_, ?_, ?_⟩
    · intro n hn
      have hne : n.data.data ≠ some v := fun he => hnew (he ▸ Multiset.mem_map_of_mem _ hn)
      obtain ⟨hpos, hle, hticks, hsum⟩ := h.covers n hn
      rw [← ha _ hne] at hpos hle hticks hsum
      exact ⟨hpos, hle, hticks, hsum⟩
    · show 0 < asked' (some v)
      omega
    · show toInt ticks ≤ (asked' (some v) : Int)
      omega
    · exact ⟨hv.le, hword⟩
    · show (asked' (some v) : Int) < (ticks : Int) + toInt ticks
      omega
  · exact h.lag.push hnew ha hl (by rw [hp, hi, add_zero])

theorem Paying.mono {d' : Int} (h : pq.Paying asked left d) (hl : ∀ p, left p + d ≤ left' p + d') :
    pq.Paying asked left' d' :=
  ⟨h.ordered, h.inRange, h.covers, h.lag.mono hl⟩

/-- No write of the loop over `sleep_queue` wraps. -/
def WakeFits (thresh fuel : Nat) (pq : PQueue SleepDeadline numThreads) : Prop :=
  expireFits (fun _ => false) (fun ticks => toSize (ticks - 1)) thresh fuel pq = true ∧
    sumsFit thresh fuel pq = true

instance (thresh fuel : Nat) (pq : PQueue SleepDeadline numThreads) :
    Decidable (WakeFits thresh fuel pq) := inferInstanceAs (Decidable (_ ∧ _))

/-- The loop pays for the tick, unless it stops at half of the queue. -/
theorem Paying.wake (h : pq.Paying asked left 1) (hf : WakeFits thresh fuel pq) :
    if stopsAtHalf thresh fuel pq then (wake thresh fuel pq).Paying asked left 1
    else (wake thresh fuel pq).Paying asked left 0 ∧
      0 < ((wake thresh fuel pq).storage 1).priority := by
  induction fuel generalizing pq with
  | zero => exact h
  | succ fuel ih =>
      obtain ⟨hf, hs⟩ := hf
      unfold PQueue.wake expire stopsAtHalf
      unfold expireFits at hf
      unfold sumsFit at hs
      simp only [Bool.false_eq_true, or_false] at hf ⊢
      split
      · rename_i hc
        have hpos : 0 < pq.count := Nat.zero_lt_of_lt hc
        rw [if_pos hc, Bool.and_eq_true, decide_eq_true_eq] at hf
        obtain ⟨hw, hf⟩ := hf
        split
        · rename_i hp
          rw [if_pos hp, Bool.and_eq_true, decide_eq_true_eq] at hf
          rw [if_pos ⟨hc, hp⟩, Bool.and_eq_true, decide_eq_true_eq] at hs
          exact ih (h.round hpos hw rfl rfl hf.1 hs.1) ⟨hf.2, hs.2⟩
        · rename_i hp
          exact ⟨h.countDown hpos hw (not_le.1 hp), not_le.1 hp⟩
      · exact h

end PQueue

end MsTos
