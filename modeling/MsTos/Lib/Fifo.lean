-- SUMMARY: Bounded first-in first-out queues as lists, what their history says of them, and traversals that may stop early.
import MsTos.Lib.Transition
import Mathlib.Data.List.Basic

/-!
# Bounded queues

A queue of capacity `n` is a list of at most `n` items, oldest first. What is observed of its
operations determines it: it holds the items that were accepted, less as many as were taken.
-/

variable {α : Type*} {n : Nat} {l : List α}

namespace Fifo

/-- The operations of a queue. -/
inductive Op (α : Type*) where
  | push (item : α)
  | pop

/-- What is observed of an operation. -/
inductive Event (α : Type*) where
  | pushed (item : α) (ok : Bool)
  | popped (item : Option α)

/-- The queue of capacity `n`: a push appends an item where there is room, and a pop takes the
oldest one. -/
def system (α : Type*) (n : Nat) : TransitionSystem (List α) (Op α) (Event α) where
  init l := l = []
  step
  | l, .push a =>
      if l.length < n then some (.pushed a true, l ++ [a]) else some (.pushed a false, l)
  | [], .pop => some (.popped none, [])
  | a :: l, .pop => some (.popped (some a), l)

theorem step_push_of_lt (h : l.length < n) (a : α) :
    (system α n).step l (.push a) = some (.pushed a true, l ++ [a]) := if_pos h

theorem step_push_of_full (h : ¬ l.length < n) (a : α) :
    (system α n).step l (.push a) = some (.pushed a false, l) := if_neg h

/-! ## History -/

/-- The items that were accepted, oldest first. -/
def accepted : List (Event α) → List α
  | [] => []
  | .pushed a true :: h => accepted h ++ [a]
  | .pushed _ false :: h => accepted h
  | .popped _ :: h => accepted h

/-- The number of items that were taken. -/
def taken : List (Event α) → Nat
  | [] => 0
  | .pushed _ _ :: h => taken h
  | .popped (some _) :: h => taken h + 1
  | .popped none :: h => taken h

/-- The contents of a queue, as its history gives them. -/
structure Holds (n : Nat) (h : List (Event α)) (l : List α) : Prop where
  taken_le : taken h ≤ (accepted h).length
  items : (accepted h).drop (taken h) = l
  length_le : l.length ≤ n

theorem Holds.nil : Holds n [] ([] : List α) := ⟨Nat.le_refl 0, rfl, Nat.zero_le n⟩

theorem Holds.length_add {h : List (Event α)} (hl : Holds n h l) :
    taken h + l.length = (accepted h).length := by
  have hle := hl.taken_le
  rw [← hl.items, List.length_drop]
  omega

theorem Holds.step {h : List (Event α)} {op : Op α} {e : Event α} {l' : List α} (hl : Holds n h l)
    (hs : (system α n).step l op = some (e, l')) : Holds n (e :: h) l' := by
  obtain ⟨hle, hitems, hlen⟩ := hl
  cases op with
  | push a =>
      by_cases hroom : l.length < n
      · rw [step_push_of_lt hroom] at hs
        obtain ⟨rfl, rfl⟩ := Prod.mk.inj (Option.some.inj hs)
        refine ⟨?_, ?_, ?_⟩
        · simp only [taken, accepted, List.length_append, List.length_singleton]
          omega
        · simp only [taken, accepted]
          rw [List.drop_append_of_le_length hle, hitems]
        · rw [List.length_append, List.length_singleton]
          exact hroom
      · rw [step_push_of_full hroom] at hs
        obtain ⟨rfl, rfl⟩ := Prod.mk.inj (Option.some.inj hs)
        exact ⟨hle, hitems, hlen⟩
  | pop =>
      cases l with
      | nil =>
          obtain ⟨rfl, rfl⟩ := Prod.mk.inj (Option.some.inj hs)
          exact ⟨hle, hitems, hlen⟩
      | cons a l =>
          obtain ⟨rfl, rfl⟩ := Prod.mk.inj (Option.some.inj hs)
          have hlt : taken h < (accepted h).length := by
            apply Nat.lt_of_not_le
            intro hge
            rw [List.drop_eq_nil_of_le hge] at hitems
            cases hitems
          refine ⟨hlt, ?_, Nat.le_of_succ_le hlen⟩
          show (accepted h).drop (taken h + 1) = l
          rw [← List.tail_drop, hitems, List.tail_cons]

/-- Along a run, the history gives the contents. -/
theorem holds_of_run {G : List α → Op α → Prop} {h : List (Event α)}
    (hr : (system α n).Run G h l) : Holds n h l := by
  refine hr.invariant ?_ ?_
  · rintro l rfl
    exact .nil
  · intro h l op e l' hl _ hs
    exact hl.step hs

/-! ## Traversals -/

variable {σ : Type*}

/-- Visit the items in order until the first visit with a result other than 0. A visit may change
the item and a context. -/
def traverse (f : α → σ → Int × α × σ) : List α → σ → List α × σ
  | [], ctx => ([], ctx)
  | a :: l, ctx =>
      let (r, a, ctx) := f a ctx
      if r ≠ 0 then (a :: l, ctx)
      else
        let (l, ctx) := traverse f l ctx
        (a :: l, ctx)

variable {f : α → σ → Int × α × σ} {ctx : σ} {a : α}

theorem traverse_stop (h : (f a ctx).1 ≠ 0) :
    traverse f (a :: l) ctx = ((f a ctx).2.1 :: l, (f a ctx).2.2) := if_pos h

theorem traverse_next (h : (f a ctx).1 = 0) :
    traverse f (a :: l) ctx = ((f a ctx).2.1 :: (traverse f l (f a ctx).2.2).1,
      (traverse f l (f a ctx).2.2).2) := if_neg (not_not.2 h)

end Fifo
