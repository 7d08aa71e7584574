-- SUMMARY: Totals of weights over finitely many places, and what changing the value at one place does to them.
import Mathlib.Algebra.BigOperators.Group.Finset.Basic
import Mathlib.Algebra.Order.BigOperators.Group.Finset
import Mathlib.Data.Int.Order.Basic

/-!
# Totals

Every place `i` of a finite set holds a value `f i`, and every value has a weight. The state of
many identical parties is often described well enough by a few such totals.
-/

variable {ι β : Type*} {s : Finset ι} {f : ι → β} {v w : β → ℤ} {i : ι}

/-- The total weight of the values at the places of `s`. -/
def tally (s : Finset ι) (w : β → ℤ) (f : ι → β) : ℤ := ∑ i ∈ s, w (f i)

theorem tally_update [DecidableEq ι] (hi : i ∈ s) (b : β) :
    tally s w (Function.update f i b) = tally s w f - w (f i) + w b := by
  have hrest : ∑ j ∈ s.erase i, w (Function.update f i b j) = ∑ j ∈ s.erase i, w (f j) := by
    apply Finset.sum_congr rfl
    intro j hj
    rw [Function.update_of_ne (Finset.ne_of_mem_erase hj)]
  unfold tally
  rw [← Finset.add_sum_erase s _ hi, ← Finset.add_sum_erase s (fun j => w (f j)) hi, hrest,
    Function.update_self]
  omega

theorem tally_mono (h : ∀ b, v b ≤ w b) : tally s v f ≤ tally s w f :=
  Finset.sum_le_sum fun j _ => h (f j)

theorem tally_nonneg (h : ∀ b, 0 ≤ w b) : 0 ≤ tally s w f :=
  Finset.sum_nonneg fun j _ => h (f j)

theorem le_tally (h : ∀ b, 0 ≤ w b) (hi : i ∈ s) : w (f i) ≤ tally s w f :=
  Finset.single_le_sum (fun j _ => h (f j)) hi

/-- Where the total of a weight is zero, so is the weight of every value. -/
theorem eq_zero_of_tally (h : ∀ b, 0 ≤ w b) (h0 : tally s w f = 0) (hi : i ∈ s) : w (f i) = 0 := by
  have hle : w (f i) ≤ tally s w f := le_tally h hi
  have hge := h (f i)
  omega

theorem tally_eq_zero (h : ∀ i ∈ s, w (f i) = 0) : tally s w f = 0 := Finset.sum_eq_zero h

theorem tally_add : tally s (fun b => v b + w b) f = tally s v f + tally s w f :=
  Finset.sum_add_distrib

theorem tally_const (h : ∀ b, w b = 1) : tally s w f = s.card := by
  simp [tally, h]
