-- SUMMARY: Parties that wait for resources: deadlocked sets, waiting in circles, and orders of the resources that exclude both.
import Mathlib.Data.Fintype.Card
import Mathlib.Data.Set.Basic
import Mathlib.Logic.Relation

/-!
# Waiting for resources

Every party waits for at most one resource, and every resource has at most one owner. A set of
parties is deadlocked if each of them waits for a resource that one of the set owns.
-/

/-- Which resource every party waits for, and who owns a resource. -/
structure WaitGraph (τ ρ : Type*) where
  awaits : τ → Option ρ
  owner : ρ → Option τ

namespace WaitGraph

variable {τ ρ ι : Type*} {g : WaitGraph τ ρ} {t u w : τ} {r r' : ρ} {D : Set τ}

/-- `t` waits for a resource that `u` owns. -/
def WaitsFor (g : WaitGraph τ ρ) (t u : τ) : Prop :=
  ∃ r, g.awaits t = some r ∧ g.owner r = some u

/-- Everybody in the set waits for somebody in the set. -/
structure Deadlocked (g : WaitGraph τ ρ) (D : Set τ) : Prop where
  nonempty : D.Nonempty
  waits : ∀ t ∈ D, ∃ u ∈ D, g.WaitsFor t u

/-! ## Circles -/

/-- Where nobody waits in a circle, every chain of waiting ends. -/
theorem wf_of_no_circle [Finite τ] (h : ∀ t, ¬ Relation.TransGen g.WaitsFor t t) :
    WellFounded (flip g.WaitsFor) := by
  have hwf : WellFounded (Relation.TransGen (flip g.WaitsFor)) := by
    have htrans : IsTrans τ (Relation.TransGen (flip g.WaitsFor)) :=
      ⟨fun _ _ _ => Relation.TransGen.trans⟩
    have hirrefl : Std.Irrefl (Relation.TransGen (flip g.WaitsFor)) :=
      ⟨fun t ht => h t (Relation.transGen_swap.1 ht)⟩
    exact Finite.wellFounded_of_trans_of_irrefl _
  exact Subrelation.wf (fun h => Relation.TransGen.single h) hwf

theorem circle_of_deadlocked [Finite τ] (h : g.Deadlocked D) :
    ∃ t, Relation.TransGen g.WaitsFor t t := by
  by_contra hn
  have hwf := wf_of_no_circle (not_exists.1 hn)
  obtain ⟨t, ht⟩ := h.nonempty
  induction t using hwf.induction with
  | h t ih =>
      obtain ⟨u, hu, hw⟩ := h.waits t ht
      exact ih u hw hu

/-- Following who waits for whom leads to somebody who waits for nobody, or into a deadlock. -/
theorem leads [Finite τ] (g : WaitGraph τ ρ) (t : τ) : ∃ u, Relation.ReflTransGen g.WaitsFor t u ∧
    ((∀ w, ¬ g.WaitsFor u w) ∨ ∃ D, g.Deadlocked D ∧ u ∈ D) := by
  by_cases hn : ∃ u, Relation.ReflTransGen g.WaitsFor t u ∧ ∀ w, ¬ g.WaitsFor u w
  · obtain ⟨u, hu, hw⟩ := hn
    exact ⟨u, hu, .inl hw⟩
  · -- then everybody who is reached waits for somebody who is reached
    refine ⟨t, .refl, .inr ⟨{u | Relation.ReflTransGen g.WaitsFor t u}, ⟨⟨t, .refl⟩, ?_⟩, .refl⟩⟩
    intro u hu
    by_contra hw
    refine hn ⟨u, hu, fun w hw' => hw ⟨w, hu.tail hw', hw'⟩⟩

/-! ## Orders of the resources -/

/-- Everybody waits for a resource above all those that they own. -/
def Ascending [Preorder ι] (g : WaitGraph τ ρ) (rank : ρ → ι) : Prop :=
  ∀ t r r', g.awaits t = some r → g.owner r' = some t → rank r' < rank r

variable [Preorder ι] {rank : ρ → ι}

/-- Along a chain of waiting, the ranks go up. -/
theorem Ascending.lt (h : g.Ascending rank) (hc : Relation.TransGen g.WaitsFor t u)
    (hr : g.awaits t = some r) (hr' : g.awaits u = some r') : rank r < rank r' := by
  induction hc generalizing r' with
  | single hs =>
      obtain ⟨x, hx, ho⟩ := hs
      obtain rfl := Option.some.inj (hr.symm.trans hx)
      exact h _ _ _ hr' ho
  | tail _ hs ih =>
      obtain ⟨x, hx, ho⟩ := hs
      exact (ih hx).trans (h _ _ _ hr' ho)

theorem Ascending.no_circle (h : g.Ascending rank) (t : τ) :
    ¬ Relation.TransGen g.WaitsFor t t := by
  intro hc
  obtain ⟨_, ⟨r, hr, -⟩, -⟩ := Relation.TransGen.head'_iff.1 hc
  exact lt_irrefl _ (h.lt hc hr hr)

theorem Ascending.not_deadlocked [Finite τ] (h : g.Ascending rank) (D : Set τ) :
    ¬ g.Deadlocked D := by
  intro hD
  obtain ⟨t, ht⟩ := circle_of_deadlocked hD
  exact h.no_circle t ht

end WaitGraph
