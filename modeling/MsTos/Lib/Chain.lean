-- SUMMARY: Singly linked chains: lists kept in a `next` map, with a terminator, and their prepend and remove operations.
import Mathlib.Data.List.Basic
import Mathlib.Logic.Function.Basic

/-!
# Singly linked chains

The nodes of an intrusive list live in memory as a map `next`. `Chain next z a l` says that the
links visit the nodes of `l` from `a` on and end in the terminator `z`.
-/

variable {α : Type*} {next next' : α → α} {a b x z : α} {l : List α}

def Chain (next : α → α) (z : α) : α → List α → Prop
  | a, [] => a = z
  | a, x :: l => a = x ∧ x ≠ z ∧ Chain next z (next x) l

namespace Chain

/-- A chain only depends on the links of its nodes. -/
theorem congr (hc : Chain next z a l) (hn : ∀ x ∈ l, next' x = next x) : Chain next' z a l := by
  induction l generalizing a with
  | nil => exact hc
  | cons x l ih =>
      refine ⟨hc.1, hc.2.1, ?_⟩
      rw [hn x (by simp)]
      exact ih hc.2.2 fun y hy => hn y (List.mem_cons_of_mem x hy)

/-- Memory outside the chain may change. -/
theorem update [DecidableEq α] (hc : Chain next z a l) (hb : b ∉ l) (v : α) :
    Chain (Function.update next b v) z a l := by
  apply hc.congr
  intro x hx
  apply Function.update_of_ne
  intro hxb
  exact hb (hxb ▸ hx)

/-- Prepend a node that is not in the chain. -/
theorem cons [DecidableEq α] (hc : Chain next z a l) (hx : x ∉ l) (hz : x ≠ z) :
    Chain (Function.update next x a) z x (x :: l) := by
  refine ⟨rfl, hz, ?_⟩
  rw [Function.update_self]
  exact hc.update hx a

end Chain
