-- SUMMARY: Nested sections that are counted in a word: the counter wraps around when it goes up, and stays at 0 when it goes down.
import Mathlib.Order.Basic
import Mathlib.Tactic.Common

/-!
# Nested sections

A section adds 1 to a counter of `w` values when it is entered, modulo `w`, and takes 1 off when it
is left, unless the counter is 0. A block in which at most `d` sections are open at a time brings
the counter back to its value exactly if there is room for `d` more.
-/

/-- A block of depth `d` leads from the counter `n` to `n'`. -/
structure Nests (w d n n' : Nat) : Prop where
  keeps : n + d < w → n' = n
  wraps : w ≤ n + d → n' < d

namespace Nests

variable {w d e n n₁ n' : Nat}

/-- Nothing is entered. -/
theorem zero (hn : n < w) : Nests w 0 n n :=
  ⟨fun _ => rfl, fun h => absurd hn (Nat.not_lt.2 h)⟩

/-- A block within a section. -/
theorem enclose (h : Nests w d ((n + 1) % w) n') (hn : n < w) (hd : d < w) :
    Nests w (d + 1) n (n' - 1) := by
  rcases Nat.lt_or_ge (n + 1) w with hlt | hge
  · rw [Nat.mod_eq_of_lt hlt] at h
    refine ⟨?_, ?_⟩
    · intro hroom
      rw [h.keeps (by omega), Nat.add_sub_cancel]
    · intro hfull
      have hw := h.wraps (by omega)
      omega
  · -- the counter is 0 inside the section, and stays 0 when it is left
    obtain rfl : w = n + 1 := by omega
    rw [Nat.mod_self] at h
    refine ⟨fun hroom => by omega, ?_⟩
    intro _
    rw [h.keeps (by omega)]
    omega

/-- One block after the other. -/
theorem seq (h : Nests w d n n₁) (h' : Nests w e n₁ n') (hde : d + e ≤ w) :
    Nests w (max d e) n n' := by
  refine ⟨?_, ?_⟩
  · intro hroom
    have h₁ := h.keeps (by omega)
    subst h₁
    exact h'.keeps (by omega)
  · intro hfull
    rcases Nat.lt_or_ge (n + d) w with hlt | hge
    · have h₁ := h.keeps hlt
      subst h₁
      exact Nat.lt_of_lt_of_le (h'.wraps (by omega)) (Nat.le_max_right d e)
    · -- the counter has wrapped around, and is too small to do so again
      have hw := h.wraps hge
      rw [h'.keeps (by omega)]
      exact Nat.lt_of_lt_of_le hw (Nat.le_max_left d e)

/-- The counter comes back to its value exactly if there is room. -/
theorem eq_iff (h : Nests w d n n') (hd : 2 * d ≤ w) : n' = n ↔ n + d < w := by
  refine ⟨?_, h.keeps⟩
  intro he
  by_contra hfull
  have hw := h.wraps (Nat.not_lt.1 hfull)
  omega

end Nests

/-! ## Sections that stay open -/

/-- A block of depth `d` that leaves one of its sections open leads from the counter `n` to `n'`. -/
structure Leaks (w d n n' : Nat) : Prop where
  opens : n + d < w → n' = n + 1
  wraps : w ≤ n + d → n' < d

namespace Leaks

variable {w d n n' : Nat}

/-- A section is entered and never left. -/
theorem enter (h : Nests w d ((n + 1) % w) n') (hn : n < w) (hd : d < w) : Leaks w (d + 1) n n' := by
  rcases Nat.lt_or_ge (n + 1) w with hlt | hge
  · rw [Nat.mod_eq_of_lt hlt] at h
    refine ⟨fun hroom => h.keeps (by omega), ?_⟩
    intro hfull
    have hw := h.wraps (by omega)
    omega
  · obtain rfl : w = n + 1 := by omega
    rw [Nat.mod_self] at h
    refine ⟨fun hroom => by omega, ?_⟩
    intro _
    rw [h.keeps (by omega)]
    omega

/-- A block that leaves a section open, within a section. -/
theorem enclose (h : Leaks w d ((n + 1) % w) n') (hn : n < w) (hd : d < w) :
    Leaks w (d + 1) n (n' - 1) := by
  rcases Nat.lt_or_ge (n + 1) w with hlt | hge
  · rw [Nat.mod_eq_of_lt hlt] at h
    refine ⟨?_, ?_⟩
    · intro hroom
      rw [h.opens (by omega), Nat.add_sub_cancel]
    · intro hfull
      have hw := h.wraps (by omega)
      omega
  · obtain rfl : w = n + 1 := by omega
    rw [Nat.mod_self] at h
    refine ⟨fun hroom => by omega, ?_⟩
    intro _
    rw [h.opens (by omega)]
    omega

/-- The counter never comes back to its value. -/
theorem ne (h : Leaks w d n n') (hd : 2 * d ≤ w) : n' ≠ n := by
  rcases Nat.lt_or_ge (n + d) w with hlt | hge
  · rw [h.opens hlt]
    exact Nat.succ_ne_self n
  · have hw := h.wraps hge
    omega

end Leaks
