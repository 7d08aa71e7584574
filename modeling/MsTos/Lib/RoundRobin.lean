-- SUMMARY: Weighted round robin on a cyclic sequence: turns of given lengths, their closed form, and the share of a window.
import Mathlib.Algebra.BigOperators.Group.List.Basic
import Mathlib.Data.Nat.Periodic
import MsTos.Lib.Round

/-!
# Weighted round robin

The elements of a cyclic sequence take turns, in order. The turn of `x` takes `w x` ticks. The
only state is the cursor and what is left of the turn.
-/

/-- A cyclic sequence whose element under the cursor has a number of ticks left. -/
structure RoundRobin (α : Type*) where
  round : Round α
  left : Nat

namespace RoundRobin

variable {α : Type*} {w : α → Nat} {x y : α} {l l₁ l₂ : List α} {s : RoundRobin α} {m n : Nat}

/-- The next element has its turn. -/
def turn (w : α → Nat) (r : Round α) : RoundRobin α :=
  ⟨r.advance, (r.advance.cursor.map w).getD 0⟩

/-- A tick: the turn goes on, or the next one begins. -/
def tick (w : α → Nat) (s : RoundRobin α) : RoundRobin α :=
  if s.left - 1 = 0 then turn w s.round else { s with left := s.left - 1 }

/-- The length of the turns of all elements of `l`. -/
def total (w : α → Nat) (l : List α) : Nat := (l.map w).sum

@[simp] theorem total_nil : total w [] = 0 := rfl

@[simp] theorem total_cons : total w (x :: l) = w x + total w l := by
  simp [total]

@[simp] theorem total_append : total w (l₁ ++ l₂) = total w l₁ + total w l₂ := by
  simp [total]

/-! ## The state after a number of ticks -/

/-- `e` ticks after the beginning of a round, `x` has its turn. -/
structure At (w : α → Nat) (l : List α) (s : RoundRobin α) (e : Nat) (x : α) : Prop where
  left_pos : 0 < s.left
  split : ∃ l₁ l₂, l = l₁ ++ x :: l₂ ∧ s.round = ⟨l₁ ++ [x], l₂⟩ ∧ e + s.left = total w l₁ + w x ∧
    s.left ≤ w x

theorem At.cursor {e : Nat} (h : At w l s e x) : s.round.cursor = some x := by
  obtain ⟨l₁, l₂, -, hr, -⟩ := h.split
  simp [hr, Round.cursor]

theorem At.mem {e : Nat} (h : At w l s e x) : x ∈ l := by
  obtain ⟨l₁, l₂, rfl, -⟩ := h.split
  simp

/-- The first turn of a round. -/
theorem at_turn_nil (hx : 0 < w x) : At w (x :: l) (turn w ⟨[], x :: l⟩) 0 x :=
  ⟨hx, [], l, rfl, rfl, by simp [turn, Round.advance, Round.cursor],
    by simp [turn, Round.advance, Round.cursor]⟩

theorem At.tick {e : Nat} (h : At w l s e x) (hw : ∀ y ∈ l, 0 < w y) :
    ∃ y, At w l (s.tick w) ((e + 1) % total w l) y := by
  obtain ⟨hpos, l₁, l₂, rfl, hr, he, hle⟩ := h
  have htotal : total w (l₁ ++ x :: l₂) = total w l₁ + (w x + total w l₂) := by simp
  unfold RoundRobin.tick
  split
  · rename_i h0
    cases l₂ with
    | nil =>
        -- the last turn of the round is over
        have hend : e + 1 = total w (l₁ ++ [x]) := by
          rw [htotal, total_nil]
          omega
        rw [hend, Nat.mod_self, hr]
        cases l₁ with
        | nil => exact ⟨x, at_turn_nil (hw x (by simp))⟩
        | cons y l₁ => exact ⟨y, at_turn_nil (l := l₁ ++ [x]) (hw y (by simp))⟩
    | cons y l₂ =>
        have hy : 0 < w y := hw y (by simp)
        have hlt : e + 1 < total w (l₁ ++ x :: y :: l₂) := by
          rw [htotal, total_cons]
          omega
        rw [Nat.mod_eq_of_lt hlt, hr]
        refine ⟨y, ?_, l₁ ++ [x], l₂, by simp, rfl, ?_, ?_⟩
        · simpa [turn, Round.advance, Round.cursor] using hy
        · simp only [turn, Round.advance, Round.cursor, List.getLast?_concat, Option.map_some,
            Option.getD_some, total_append, total_cons, total_nil]
          omega
        · simp [turn, Round.advance, Round.cursor]
  · rename_i h0
    have hlt : e + 1 < total w (l₁ ++ x :: l₂) := by
      rw [htotal]
      omega
    rw [Nat.mod_eq_of_lt hlt]
    refine ⟨x, Nat.pos_of_ne_zero h0, l₁, l₂, rfl, hr, ?_, ?_⟩
    · show e + 1 + (s.left - 1) = total w l₁ + w x
      omega
    · exact (Nat.sub_le _ _).trans hle

/-- `m` ticks after the first turn began. -/
theorem at_iterate (hl : l ≠ []) (hw : ∀ y ∈ l, 0 < w y) (m : Nat) :
    ∃ y, At w l ((tick w)^[m] (turn w ⟨[], l⟩)) (m % total w l) y := by
  induction m with
  | zero =>
      cases l with
      | nil => exact absurd rfl hl
      | cons x l =>
          rw [Nat.zero_mod]
          exact ⟨x, at_turn_nil (hw x (by simp))⟩
  | succ m ih =>
      obtain ⟨y, hy⟩ := ih
      obtain ⟨z, hz⟩ := hy.tick hw
      rw [Nat.mod_add_mod] at hz
      rw [Function.iterate_succ_apply']
      exact ⟨z, hz⟩

/-! ## Shares -/

/-- `x` has its turn exactly in its interval of the round. -/
theorem At.eq_iff {e : Nat} (h : At w (l₁ ++ x :: l₂) s e y) (hn : (l₁ ++ x :: l₂).Nodup) :
    y = x ↔ total w l₁ ≤ e ∧ e < total w l₁ + w x := by
  obtain ⟨hpos, k₁, k₂, hl, -, he, hle⟩ := h
  constructor
  · rintro rfl
    rw [hl, List.nodup_middle, List.nodup_cons, List.mem_append, not_or] at hn
    obtain ⟨rfl, -, -⟩ := (List.append_cons_inj_of_notMem hn.1.1 hn.1.2).1 hl.symm
    omega
  · rintro ⟨hge, hlt⟩
    rcases List.append_eq_append_iff.1 hl with ⟨a, ha, hx⟩ | ⟨a, ha, hy⟩
    · cases a with
      | nil => exact (List.cons.inj hx).1.symm
      | cons z a =>
          -- the interval of `y` lies behind that of `x`
          obtain ⟨rfl, -⟩ := List.cons.inj hx
          rw [ha, total_append, total_cons] at he
          omega
    · cases a with
      | nil => exact (List.cons.inj hy).1
      | cons z a =>
          -- or in front of it
          obtain ⟨rfl, -⟩ := List.cons.inj hy
          rw [ha, total_append, total_cons] at hge
          omega

/-- Whose turn it is after `m` ticks. -/
def cursorAt (w : α → Nat) (l : List α) (m : Nat) : Option α :=
  ((tick w)^[m] (turn w ⟨[], l⟩)).round.cursor

theorem cursorAt_mem (hl : l ≠ []) (hw : ∀ y ∈ l, 0 < w y) (m : Nat) :
    ∃ y ∈ l, cursorAt w l m = some y := by
  obtain ⟨y, hy⟩ := at_iterate hl hw m
  exact ⟨y, hy.mem, hy.cursor⟩

theorem cursorAt_iff (hn : (l₁ ++ x :: l₂).Nodup) (hw : ∀ y ∈ l₁ ++ x :: l₂, 0 < w y) (m : Nat) :
    cursorAt w (l₁ ++ x :: l₂) m = some x ↔
      total w l₁ ≤ m % total w (l₁ ++ x :: l₂) ∧
        m % total w (l₁ ++ x :: l₂) < total w l₁ + w x := by
  obtain ⟨y, hy⟩ := at_iterate (by simp) hw m
  rw [← hy.eq_iff hn, cursorAt, hy.cursor, Option.some.injEq]

/-- In every window as long as a round, `x` has its turn for `w x` ticks. -/
theorem card_window [DecidableEq α] (hn : l.Nodup) (hw : ∀ y ∈ l, 0 < w y) (hx : x ∈ l)
    (m : Nat) :
    ((Finset.Ico m (m + total w l)).filter fun i => cursorAt w l i = some x).card = w x := by
  obtain ⟨l₁, l₂, rfl⟩ := List.append_of_mem hx
  have hiff := cursorAt_iff hn hw
  have hperiodic : Function.Periodic (fun i => cursorAt w (l₁ ++ x :: l₂) i = some x)
      (total w (l₁ ++ x :: l₂)) := by
    intro i
    simp only [hiff, Nat.add_mod_right]
  rw [Nat.filter_Ico_card_eq_of_periodic _ _ _ hperiodic]
  have hround : ((Finset.range (total w (l₁ ++ x :: l₂))).filter
      fun i => cursorAt w (l₁ ++ x :: l₂) i = some x) =
        Finset.Ico (total w l₁) (total w l₁ + w x) := by
    ext i
    rw [Finset.mem_filter, Finset.mem_range, Finset.mem_Ico, hiff]
    constructor
    · rintro ⟨hi, h⟩
      rwa [Nat.mod_eq_of_lt hi] at h
    · intro h
      have hi : i < total w (l₁ ++ x :: l₂) := by
        rw [total_append, total_cons]
        omega
      rw [Nat.mod_eq_of_lt hi]
      exact ⟨hi, h⟩
  rw [Nat.count_eq_card_filter_range, hround, Nat.card_Ico, Nat.add_sub_cancel_left]

end RoundRobin
