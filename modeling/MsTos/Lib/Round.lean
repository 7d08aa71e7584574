-- SUMMARY: Cyclic sequences with a cursor: adding at the end, moving on, and removing the element under the cursor.
import Mathlib.Data.List.Basic
import Mathlib.Data.List.Nodup
import Mathlib.Data.List.Rotate

/-!
# Cyclic sequences with a cursor

The cursor stands on the last of the elements that have had their turn, or in front of all
elements. Moving on wraps around at the end of the sequence; new elements join at its end.
-/

/-- A cyclic sequence, cut behind the cursor. -/
@[ext]
structure Round (α : Type*) where
  passed : List α
  ahead : List α

namespace Round

variable {α : Type*} {r : Round α} {x y : α} {l l₁ l₂ : List α}

/-- The elements in the order in which they joined. -/
def toList (r : Round α) : List α := r.passed ++ r.ahead

/-- The elements in the order of their next turns. -/
def order (r : Round α) : List α := r.ahead ++ r.passed

/-- The element under the cursor. -/
def cursor (r : Round α) : Option α := r.passed.getLast?

/-- A new element joins. -/
def join (r : Round α) (x : α) : Round α := { r with ahead := r.ahead ++ [x] }

/-- The cursor moves on. -/
def advance (r : Round α) : Round α :=
  match r.ahead, r.passed with
  | x :: l, p => ⟨p ++ [x], l⟩
  | [], x :: p => ⟨[x], p⟩
  | [], [] => r

/-- The element under the cursor leaves, and the cursor moves back. -/
def leave (r : Round α) : Round α :=
  match r.passed.dropLast with
  | [] => ⟨r.ahead, []⟩
  | p => ⟨p, r.ahead⟩

theorem order_eq_nil : r.order = [] ↔ r.toList = [] := by
  simp [order, toList, and_comm]

theorem mem_of_cursor (h : r.cursor = some x) : x ∈ r.toList :=
  List.mem_append_left _ (List.mem_of_getLast? h)

@[simp] theorem toList_join : (r.join x).toList = r.toList ++ [x] := by
  simp [join, toList]

@[simp] theorem cursor_join : (r.join x).cursor = r.cursor := rfl

/-! ## Moving on -/

theorem advance_toList : r.advance.toList = r.toList := by
  obtain ⟨p, l⟩ := r
  cases l with
  | cons x l => simp [advance, toList]
  | nil =>
      cases p with
      | nil => rfl
      | cons x p => simp [advance, toList]

theorem advance_order : r.advance.order = r.order.rotate 1 := by
  obtain ⟨p, l⟩ := r
  cases l with
  | cons x l => simp [advance, order]
  | nil =>
      cases p with
      | nil => rfl
      | cons x p => simp [advance, order]

/-- The cursor moves to the element whose turn is next. -/
theorem advance_cursor : r.advance.cursor = r.order.head? := by
  obtain ⟨p, l⟩ := r
  cases l with
  | cons x l => simp [advance, order, cursor]
  | nil =>
      cases p with
      | nil => rfl
      | cons x p => simp [advance, order, cursor]

theorem iterate_advance_toList (n : Nat) : (advance^[n] r).toList = r.toList := by
  induction n with
  | zero => rfl
  | succ n ih => rw [Function.iterate_succ_apply', advance_toList, ih]

theorem iterate_advance_order (n : Nat) : (advance^[n] r).order = r.order.rotate n := by
  induction n with
  | zero => simp
  | succ n ih => rw [Function.iterate_succ_apply', advance_order, ih, List.rotate_rotate]

/-- Moving on visits the elements in their order, again and again. -/
theorem iterate_advance_cursor (n : Nat) :
    (advance^[n + 1] r).cursor = r.order[n % r.order.length]? := by
  rw [Function.iterate_succ_apply', advance_cursor, iterate_advance_order]
  cases ho : r.order with
  | nil => simp
  | cons x l =>
      rw [List.head?_eq_getElem?, List.getElem?_rotate (by simp), Nat.zero_add]

/-! ## Leaving -/

theorem eq_of_cursor (h : r.cursor = some x) : r = ⟨r.passed.dropLast ++ [x], r.ahead⟩ := by
  have hp : r.passed ≠ [] := by
    intro hn
    rw [cursor, hn] at h
    cases h
  have hx : r.passed.getLast hp = x := by
    rw [cursor, List.getLast?_eq_getLast_of_ne_nil hp] at h
    exact Option.some.inj h
  rw [← hx, List.dropLast_append_getLast]

/-- The cursor cuts the elements in two. -/
theorem split_of_cursor (h : r.cursor = some x) (hn : r.toList.Nodup)
    (he : r.toList = l₁ ++ x :: l₂) : r.passed.dropLast = l₁ ∧ r.ahead = l₂ := by
  have hl : r.toList = r.passed.dropLast ++ x :: r.ahead := by
    rw [toList, eq_of_cursor h]
    simp
  rw [hl, List.nodup_middle, List.nodup_cons, List.mem_append, not_or] at hn
  rw [hl, List.append_cons_inj_of_notMem hn.1.1 hn.1.2] at he
  exact ⟨he.1, he.2.2⟩

/-- What was next remains next. -/
theorem leave_order : r.leave.order = r.ahead ++ r.passed.dropLast := by
  unfold leave order
  split
  · rename_i hp
    simp [hp]
  · rfl

theorem leave_cursor : r.leave.cursor =
    if r.passed.dropLast = [] then r.ahead.getLast? else r.passed.dropLast.getLast? := by
  unfold leave cursor
  split
  · rename_i hp
    rw [if_pos hp]
  · rename_i hp
    rw [if_neg hp]

theorem leave_toList [DecidableEq α] (h : r.cursor = some x) (hn : r.toList.Nodup) :
    r.leave.toList = r.toList.erase x := by
  have he := eq_of_cursor h
  have hl : r.toList = r.passed.dropLast ++ x :: r.ahead := by
    rw [toList, he]
    simp
  have hm : x ∉ r.passed.dropLast := by
    rw [hl] at hn
    intro hm
    exact (List.nodup_append.1 hn).2.2 x hm x List.mem_cons_self rfl
  rw [hl, List.erase_append_right _ hm, List.erase_cons_head]
  unfold leave toList
  split
  · rename_i hp
    simp [hp]
  · rfl

end Round
