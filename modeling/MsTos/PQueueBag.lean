-- SUMMARY: The priority queue as a bag of entries: what pushing, popping and writing to the root do to it.
import Mathlib.Order.Interval.Finset.Nat
import MsTos.Lib.Hole
import MsTos.PQueue

namespace MsTos

namespace PQueue

variable {α : Type} {size : Nat} {pq : PQueue α size}

/-- The entries of the queue. -/
def entries (pq : PQueue α size) : Multiset (PNode α) := (Finset.Icc 1 pq.count).val.map pq.storage

/-- The entries below the root. -/
def rest (pq : PQueue α size) : Multiset (PNode α) := holeRest (Finset.Icc 1 pq.count) pq.storage 1

@[simp] theorem card_entries (pq : PQueue α size) : pq.entries.card = pq.count := by
  simp [entries]

@[simp] theorem entries_init [Inhabited α] : (init : PQueue α size).entries = 0 := rfl

theorem entries_eq (h : 0 < pq.count) : pq.entries = pq.storage 1 ::ₘ pq.rest :=
  map_eq_cons_holeRest (Finset.mem_Icc.2 ⟨le_refl 1, h⟩)

/-! ## The root -/

@[simp] theorem setRoot_count (f : PNode α → PNode α) : (pq.setRoot f).count = pq.count := rfl

@[simp] theorem setRoot_root (f : PNode α → PNode α) :
    (pq.setRoot f).storage 1 = f (pq.storage 1) := by
  simp [setRoot]

@[simp] theorem setRoot_rest (f : PNode α → PNode α) : (pq.setRoot f).rest = pq.rest :=
  holeRest_update _

theorem entries_setRoot (h : 0 < pq.count) (f : PNode α → PNode α) :
    (pq.setRoot f).entries = f (pq.storage 1) ::ₘ pq.rest := by
  rw [entries_eq (by simpa using h), setRoot_root, setRoot_rest]

theorem entries_of_count (h : pq.count = 0) : pq.entries = 0 := by
  rw [← Multiset.card_eq_zero, card_entries, h]

/-! ## `pqueue_*_push` -/

/-- The loop moves the hole within the heap, and keeps what the other cells hold. -/
theorem pushLoop_holeRest {n : Nat} (priority fuel : Nat) (storage : Nat → PNode α) {i : Nat}
    (hi : i ∈ Finset.Icc 1 n) :
    (pushLoop priority fuel storage i (i / 2)).2 ∈ Finset.Icc 1 n ∧
      holeRest (Finset.Icc 1 n) (pushLoop priority fuel storage i (i / 2)).1
          (pushLoop priority fuel storage i (i / 2)).2 =
        holeRest (Finset.Icc 1 n) storage i := by
  induction fuel generalizing storage i with
  | zero => exact ⟨hi, rfl⟩
  | succ fuel ih =>
      unfold pushLoop
      split
      · rename_i hc
        have hj : i / 2 ∈ Finset.Icc 1 n := by
          rw [Finset.mem_Icc] at hi ⊢
          omega
        have hm := ih (Function.update storage i (storage (i / 2))) hj
        rw [holeRest_move hi hj] at hm
        exact hm
      · exact ⟨hi, rfl⟩

theorem push_full (h : size ≤ pq.count + 1) (priority : Nat) (item : α) :
    pq.push priority item = (-1, pq) := by
  rw [push, if_pos h]

theorem entries_push (h : pq.count + 1 < size) (priority : Nat) (item : α) :
    (pq.push priority item).2.entries = ⟨toInt priority, item⟩ ::ₘ pq.entries := by
  have hi : pq.count + 1 ∈ Finset.Icc 1 (pq.count + 1) := Finset.mem_Icc.2 ⟨by omega, le_refl _⟩
  have hl := pushLoop_holeRest priority (pq.count + 1) pq.storage hi
  have hs : holeRest (Finset.Icc 1 (pq.count + 1)) pq.storage (pq.count + 1) = pq.entries := by
    have he : (Finset.Icc 1 (pq.count + 1)).erase (pq.count + 1) = Finset.Icc 1 pq.count := by
      ext x
      simp only [Finset.mem_erase, Finset.mem_Icc]
      omega
    rw [holeRest, he, entries]
  rw [push, if_neg (by omega)]
  show (Finset.Icc 1 (pq.count + 1)).val.map (Function.update _ _ _) = _
  rw [map_update_hole hl.1, hl.2, hs]

/-! ## `pqueue_*_pop` -/

theorem popChild_gt (storage : Nat → PNode α) {count i : Nat} (hi : 1 ≤ i) (hn : i ≤ count) :
    i < popChild storage count i ∧ popChild storage count i ≤ count + 1 := by
  simp only [popChild]
  split <;> split <;> omega

/-- The loop ends with the hole behind the heap, and keeps what the other cells hold. -/
theorem popLoop_holeRest (count fuel : Nat) (storage : Nat → PNode α) {i : Nat} (hi : 1 ≤ i)
    (hn : i ≤ count + 1) (hf : count + 1 - i ≤ fuel) :
    holeRest (Finset.Icc 1 (count + 1)) (popLoop count fuel storage i) (count + 1) =
      holeRest (Finset.Icc 1 (count + 1)) storage i := by
  induction fuel generalizing storage i with
  | zero =>
      have he : i = count + 1 := by omega
      rw [popLoop, he]
  | succ fuel ih =>
      unfold popLoop
      split
      · rename_i hne
        have hk := popChild_gt storage hi (show i ≤ count by omega)
        rw [ih _ (by omega) hk.2 (by omega)]
        exact holeRest_move (Finset.mem_Icc.2 ⟨hi, hn⟩) (Finset.mem_Icc.2 ⟨by omega, hk.2⟩)
      · rename_i he
        rw [not_not.1 he]

theorem pop_item : pq.pop.1 = (pq.storage 1).data := rfl

theorem entries_pop (h : 0 < pq.count) : pq.pop.2.entries = pq.rest := by
  have hl := popLoop_holeRest (pq.count - 1) (pq.count - 1 + 1)
    (Function.update pq.storage 1 (pq.storage pq.count)) (le_refl 1) (by omega) (by omega)
  have hc : pq.count - 1 + 1 = pq.count := Nat.sub_add_cancel h
  have hs : pq.pop.2.storage = popLoop (pq.count - 1) (pq.count - 1 + 1)
    (Function.update pq.storage 1 (pq.storage pq.count)) 1 := rfl
  rw [holeRest_update, hc] at hl
  have he : (Finset.Icc 1 pq.count).erase pq.count = Finset.Icc 1 (pq.count - 1) := by
    ext x
    simp only [Finset.mem_erase, Finset.mem_Icc]
    omega
  have hr : pq.pop.2.entries = holeRest (Finset.Icc 1 pq.count) pq.pop.2.storage pq.count := by
    rw [holeRest, he]
    rfl
  rw [hr, hs, hc, rest]
  exact hl

/-! ## Properties of all entries -/

section

variable {P : PNode α → Prop} (h : ∀ n ∈ pq.entries, P n)
include h

theorem entries_root (hpos : 0 < pq.count) : P (pq.storage 1) := by
  apply h
  rw [entries_eq hpos]
  exact Multiset.mem_cons_self _ _

theorem forall_entries_push {priority : Nat} {item : α} (hnew : P ⟨toInt priority, item⟩) :
    ∀ n ∈ (pq.push priority item).2.entries, P n := by
  rcases Nat.lt_or_ge (pq.count + 1) size with hroom | hfull
  · intro n hn
    rw [entries_push hroom, Multiset.mem_cons] at hn
    rcases hn with rfl | hn
    · exact hnew
    · exact h n hn
  · rw [push_full hfull]
    exact h

theorem forall_entries_pop (hpos : 0 < pq.count) : ∀ n ∈ pq.pop.2.entries, P n := by
  intro n hn
  apply h
  rw [entries_eq hpos]
  rw [entries_pop hpos] at hn
  exact Multiset.mem_cons_of_mem hn

theorem forall_entries_setRoot {f : PNode α → PNode α} (hf : 0 < pq.count → P (f (pq.storage 1))) :
    ∀ n ∈ (pq.setRoot f).entries, P n := by
  intro n hn
  rcases Nat.eq_zero_or_pos pq.count with h0 | hpos
  · simp [entries_of_count, h0] at hn
  · rw [entries_setRoot hpos, Multiset.mem_cons] at hn
    rcases hn with rfl | hn
    · exact hf hpos
    · apply h
      rw [entries_eq hpos]
      exact Multiset.mem_cons_of_mem hn

end

end PQueue

end MsTos
