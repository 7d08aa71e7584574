-- SUMMARY: Greedy expansions of numbers in a table of weights, and the positional notation as the case where the weights are powers.
import Mathlib.Algebra.Order.Ring.Nat

/-!
# Greedy expansions

A number is written in a table of weights by taking from it as much of each weight as fits, from
the first weight on. Where the weights are the powers of a base, this is the positional notation.
-/

namespace Greedy

variable {b k n w : Nat} {ws : List Nat}

/-- How often each weight fits into what the weights before it have left. -/
def digits : List Nat → Nat → List Nat
  | [], _ => []
  | w :: ws, n => n / w :: digits ws (n % w)

/-- The first `k` powers of `b`, from the largest one on. -/
def powers (b : Nat) : Nat → List Nat
  | 0 => []
  | k + 1 => b ^ k :: powers b k

/-- The weights from the first one on that fits. -/
def skip : List Nat → Nat → List Nat
  | [], _ => []
  | w :: ws, n => if n < w then skip ws n else w :: ws

@[simp] theorem length_digits (ws : List Nat) (n : Nat) : (digits ws n).length = ws.length := by
  induction ws generalizing n with
  | nil => rfl
  | cons w ws ih => simp [digits, ih]

@[simp] theorem length_powers (b k : Nat) : (powers b k).length = k := by
  induction k with
  | zero => rfl
  | succ k ih => simp [powers, ih]

/-- The last digit is the remainder. -/
theorem digits_powers_succ (k n : Nat) :
    digits (powers b (k + 2)) n = digits (powers b (k + 1)) (n / b) ++ [n % b] := by
  induction k generalizing n with
  | zero => simp [powers, digits]
  | succ k ih =>
      have hdiv : n / b ^ (k + 2) = n / b / b ^ (k + 1) := by
        rw [Nat.div_div_eq_div_mul, pow_succ' b (k + 1)]
      have hmod : n % b ^ (k + 2) / b = n / b % b ^ (k + 1) := by
        rw [pow_succ' b (k + 1), Nat.mod_mul_right_div_self]
      have hlast : n % b ^ (k + 2) % b = n % b := by
        rw [pow_succ' b (k + 1), Nat.mod_mul_right_mod]
      have hcons : ∀ m, digits (powers b (k + 2)) m =
          m / b ^ (k + 1) :: digits (powers b (k + 1)) (m % b ^ (k + 1)) := fun m => rfl
      calc digits (powers b (k + 3)) n
          = n / b ^ (k + 2) :: digits (powers b (k + 2)) (n % b ^ (k + 2)) := rfl
        _ = n / b / b ^ (k + 1) ::
              (digits (powers b (k + 1)) (n / b % b ^ (k + 1)) ++ [n % b]) := by
            rw [ih, hdiv, hmod, hlast]
        _ = digits (powers b (k + 2)) (n / b) ++ [n % b] := by
            rw [hcons, List.cons_append]

/-- In powers of the base, from the first one on that fits, the digits are those of the positional
notation. -/
theorem toDigits_eq (hb : 1 < b) (hle : b ^ k ≤ n) (hlt : n < b ^ (k + 1)) :
    Nat.toDigits b n = (digits (powers b (k + 1)) n).map Nat.digitChar := by
  induction k generalizing n with
  | zero =>
      rw [zero_add, pow_one] at hlt
      rw [Nat.toDigits_of_lt_base hlt]
      simp [powers, digits]
  | succ k ih =>
      have hbn : b ≤ n := (Nat.le_self_pow (Nat.succ_ne_zero k) b).trans hle
      have hdle : b ^ k ≤ n / b := by
        rwa [Nat.le_div_iff_mul_le (Nat.zero_lt_of_lt hb), ← pow_succ]
      have hdlt : n / b < b ^ (k + 1) := by
        rwa [Nat.div_lt_iff_lt_mul (Nat.zero_lt_of_lt hb), ← pow_succ]
      rw [Nat.toDigits_of_base_le hb hbn, digits_powers_succ, ih hdle hdlt,
        List.map_append, List.map_singleton]

/-- A positive number that the first power does not exceed too far starts at one of the powers. -/
theorem skip_powers (hn : 0 < n) (hlt : n < b ^ k) :
    ∃ j, skip (powers b k) n = powers b (j + 1) ∧ b ^ j ≤ n ∧ n < b ^ (j + 1) := by
  induction k with
  | zero =>
      rw [pow_zero] at hlt
      omega
  | succ k ih =>
      by_cases h : n < b ^ k
      · obtain ⟨j, hj, hle, hlt⟩ := ih h
        exact ⟨j, by rw [powers, skip, if_pos h, hj], hle, hlt⟩
      · exact ⟨k, by rw [powers, skip, if_neg h], Nat.le_of_not_lt h, hlt⟩

/-- The digits in powers of the base are below the base, apart from the first one. -/
theorem digits_powers_lt (hb : 0 < b) (hlt : n < b ^ k) : ∀ d ∈ digits (powers b k) n, d < b := by
  induction k generalizing n with
  | zero => exact fun d hd => absurd hd List.not_mem_nil
  | succ k ih =>
      have hpos : 0 < b ^ k := Nat.pow_pos hb
      intro d hd
      rcases List.mem_cons.1 hd with rfl | hd
      · rwa [Nat.div_lt_iff_lt_mul hpos, ← pow_succ']
      · exact ih (Nat.mod_lt n hpos) d hd

end Greedy
