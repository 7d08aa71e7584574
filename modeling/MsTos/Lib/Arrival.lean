-- SUMMARY: Lists in the order in which their elements last occur in a log.
import Mathlib.Data.List.Basic

/-!
# Order of arrival

A log is kept with its latest entry first. The later an element has occurred in it, the smaller
is its index.
-/

variable {α : Type*} [DecidableEq α] {log l : List α} {x y : α}

/-- Every element of `l` has occurred in the log, since its last occurrence there, before those
that follow it in `l`. -/
def Arrived (log l : List α) : Prop := l.Pairwise fun x y => log.idxOf y < log.idxOf x

namespace Arrived

instance : Decidable (Arrived log l) := inferInstanceAs (Decidable (List.Pairwise _ l))

theorem nil : Arrived log [] := List.Pairwise.nil

theorem tail (h : Arrived log (x :: l)) : Arrived log l := (List.pairwise_cons.1 h).2

/-- An entry for none of the elements leaves their order. -/
theorem log_cons (h : Arrived log l) (hy : y ∉ l) : Arrived (y :: log) l := by
  refine List.Pairwise.imp_of_mem ?_ h
  intro a b ha hb hlt
  have hya : y ≠ a := by
    rintro rfl
    exact hy ha
  have hyb : y ≠ b := by
    rintro rfl
    exact hy hb
  rw [List.idxOf_cons_ne _ hya, List.idxOf_cons_ne _ hyb]
  exact Nat.succ_lt_succ hlt

/-- The element of the latest entry comes last. -/
theorem concat (h : Arrived log l) (hy : y ∉ l) : Arrived (y :: log) (l ++ [y]) := by
  refine List.pairwise_append.2 ⟨h.log_cons hy, List.pairwise_singleton _ _, ?_⟩
  intro a ha b hb
  obtain rfl := List.mem_singleton.1 hb
  have hba : b ≠ a := by
    rintro rfl
    exact hy ha
  rw [List.idxOf_cons_self, List.idxOf_cons_ne _ hba]
  exact Nat.succ_pos _

end Arrived
