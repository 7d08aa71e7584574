-- SUMMARY: The ring buffer as a list: what pushing and popping do to it.
import Mathlib.Data.List.Basic
import MsTos.Queue

namespace MsTos

namespace Queue

variable {α : Type} {size : Nat} {q : Queue α size}

/-- The items of the queue, oldest first. -/
def toList (q : Queue α size) : List α :=
  (List.range q.count).map fun j => q.storage ((q.read + 1 + j) % size)

/-- The indices of the queue fit its count. -/
structure Ok (q : Queue α size) : Prop where
  count_le : q.count ≤ size
  read_lt : q.read < size
  write_eq : q.write = (q.read + q.count) % size

@[simp] theorem length_toList (q : Queue α size) : q.toList.length = q.count := by
  simp [toList]

@[simp] theorem toList_init [Inhabited α] : (init : Queue α size).toList = [] := rfl

theorem ok_init [Inhabited α] (h : 0 < size) : (init : Queue α size).Ok :=
  ⟨Nat.zero_le size, h, rfl⟩

/-! ## `queue_*_push` -/

theorem push_of_lt (h : q.count < size) (item : α) : q.push item = (0, { q with
    storage := Function.update q.storage ((q.write + 1) % size) item
    write := (q.write + 1) % size
    count := q.count + 1 }) := by
  rw [push, if_pos h]

theorem Ok.push (hq : q.Ok) (h : q.count < size) (item : α) : (q.push item).2.Ok := by
  rw [push_of_lt h]
  refine ⟨h, hq.read_lt, ?_⟩
  show (q.write + 1) % size = (q.read + (q.count + 1)) % size
  rw [hq.write_eq, Nat.mod_add_mod, Nat.add_assoc]

theorem Ok.toList_push (hq : q.Ok) (h : q.count < size) (item : α) :
    (q.push item).2.toList = q.toList ++ [item] := by
  have hw : (q.write + 1) % size = (q.read + 1 + q.count) % size := by
    rw [hq.write_eq, Nat.mod_add_mod, Nat.add_right_comm]
  rw [push_of_lt h, toList, List.range_succ, List.map_append, List.map_singleton, hw]
  dsimp only
  rw [Function.update_self]
  congr 1
  apply List.map_congr_left
  intro j hj
  have hj : j < q.count := List.mem_range.1 hj
  apply Function.update_of_ne
  -- the indices of two items differ by less than the size
  intro he
  have hd := Nat.sub_mod_eq_zero_of_mod_eq he.symm
  rw [Nat.mod_eq_of_lt (by omega)] at hd
  omega

theorem push_of_full (h : ¬ q.count < size) (item : α) : q.push item = (-1, q) := by
  rw [push, if_neg h]

/-- Pushing to a full queue changes nothing. -/
theorem Ok.push_list (hq : q.Ok) (item : α) : (q.push item).2.Ok ∧ (q.push item).2.toList =
    if q.toList.length < size then q.toList ++ [item] else q.toList := by
  rw [length_toList]
  split
  · rename_i h
    exact ⟨hq.push h item, hq.toList_push h item⟩
  · rename_i h
    rw [push_of_full h]
    exact ⟨hq, rfl⟩

/-! ## `queue_*_pop` -/

theorem pop_of_pos (h : 0 < q.count) : q.pop =
    (some (q.storage ((q.read + 1) % size)),
      { q with read := (q.read + 1) % size, count := q.count - 1 }) := by
  rw [pop, if_pos h]

theorem Ok.pop (hq : q.Ok) : q.pop.2.Ok := by
  rcases Nat.eq_zero_or_pos q.count with h0 | hpos
  · rw [Queue.pop, if_neg (by omega)]
    exact hq
  · rw [pop_of_pos hpos]
    refine ⟨by have := hq.count_le; exact Nat.le_trans (Nat.sub_le _ _) this,
      Nat.mod_lt _ (Nat.zero_lt_of_lt hq.read_lt), ?_⟩
    show q.write = ((q.read + 1) % size + (q.count - 1)) % size
    rw [hq.write_eq, Nat.mod_add_mod]
    congr 1
    omega

/-- Popping takes the first item. -/
theorem toList_pop {a : α} {l : List α} (h : q.toList = a :: l) :
    q.pop.1 = some a ∧ q.pop.2.toList = l := by
  have hc : q.count = l.length + 1 := by
    rw [← length_toList, h, List.length_cons]
  have hpos : 0 < q.count := by omega
  rw [pop_of_pos hpos]
  rw [toList, hc, List.range_succ_eq_map, List.map_cons, List.map_map] at h
  have ht := List.cons.inj h
  refine ⟨congrArg some ht.1, ?_⟩
  rw [← ht.2]
  show (List.range (q.count - 1)).map _ = _
  rw [hc, Nat.add_sub_cancel]
  apply List.map_congr_left
  intro j _
  show q.storage (((q.read + 1) % size + 1 + j) % size) = q.storage ((q.read + 1 + (j + 1)) % size)
  rw [Nat.add_assoc, Nat.mod_add_mod, Nat.add_assoc, Nat.add_comm 1 j, Nat.add_assoc]

theorem pop_of_nil (h : q.toList = []) : q.pop = (none, q) := by
  have hc : q.count = 0 := by
    rw [← length_toList, h, List.length_nil]
  rw [pop, if_neg (by omega)]

end Queue

end MsTos
