-- SUMMARY: Arrays with a hole: what moving the hole and filling it do to the contents of an array, as a multiset.
import Mathlib.Data.Finset.Basic
import Mathlib.Data.Finset.Insert
import Mathlib.Data.Multiset.MapFold

/-!
# Arrays with a hole

An algorithm that sifts an element through an array moves a hole instead: the cell of the hole
gets the value of another cell, which becomes the hole. The contents of the other cells do not
change, as a multiset, and filling the hole adds the value it is filled with.
-/

variable {ι β : Type*} [DecidableEq ι] {s : Finset ι} {f : ι → β} {i j : ι}

/-- The contents of the cells of `s` other than the hole `i`. -/
def holeRest (s : Finset ι) (f : ι → β) (i : ι) : Multiset β := (s.erase i).val.map f

/-- Filling the hole. -/
theorem map_update_hole (hi : i ∈ s) (x : β) :
    s.val.map (Function.update f i x) = x ::ₘ holeRest s f i := by
  have hs : s.val = i ::ₘ (s.erase i).val := by
    rw [← Finset.insert_val_of_notMem (Finset.notMem_erase i s), Finset.insert_erase hi]
  rw [hs, Multiset.map_cons, Function.update_self, holeRest]
  congr 1
  apply Multiset.map_congr rfl
  intro y hy
  exact Function.update_of_ne (Finset.ne_of_mem_erase hy) _ _

theorem map_eq_cons_holeRest (hi : i ∈ s) : s.val.map f = f i ::ₘ holeRest s f i := by
  have h := map_update_hole (f := f) hi (f i)
  rwa [Function.update_eq_self] at h

/-- What a cell outside the set holds does not matter, and neither does what the hole holds. -/
theorem holeRest_update (x : β) : holeRest s (Function.update f i x) i = holeRest s f i := by
  apply Multiset.map_congr rfl
  intro y hy
  exact Function.update_of_ne (Finset.ne_of_mem_erase hy) _ _

/-- Moving the hole from `i` to `j`. -/
theorem holeRest_move (hi : i ∈ s) (hj : j ∈ s) :
    holeRest s (Function.update f i (f j)) j = holeRest s f i := by
  cases eq_or_ne i j with
  | inl hij =>
      cases hij
      rw [Function.update_eq_self]
  | inr hij =>
      have hi' : i ∈ s.erase j := Finset.mem_erase.2 ⟨hij, hi⟩
      have hj' : j ∈ s.erase i := Finset.mem_erase.2 ⟨hij.symm, hj⟩
      calc holeRest s (Function.update f i (f j)) j
          = (s.erase j).val.map (Function.update f i (f j)) := rfl
        _ = f j ::ₘ holeRest (s.erase j) f i := map_update_hole hi' (f j)
        _ = f j ::ₘ holeRest (s.erase i) f j := by
            simp only [holeRest, Finset.erase_right_comm]
        _ = holeRest s f i := (map_eq_cons_holeRest hj').symm
