-- SUMMARY: How long an element of a cyclic sequence waits for its turn while others join, leave and have theirs.
import MsTos.Lib.Round

/-!
# Overtaking

While an element waits for its turn, every turn of another one brings it nearer, and every element
that joins may put it off by one turn. That is all: leaving costs nobody anything.
-/

namespace Round

variable {α : Type*} {r r' r'' : Round α} {x y : α} {js js' : List α} {m n : Nat}

theorem mem_order : x ∈ r.order ↔ x ∈ r.toList := by
  simp [order, toList, or_comm]

/-- `r.Overtakes x js n r'`: from `r` to `r'` the elements of `js` join, the last one first, and
others have `n` turns, while `x` neither leaves nor has its turn. -/
inductive Overtakes (x : α) (r : Round α) : List α → Nat → Round α → Prop
  | refl : Overtakes x r [] 0 r
  | join {js : List α} {n : Nat} {s : Round α} (y : α) :
      Overtakes x r js n s → y ∉ s.toList → Overtakes x r (y :: js) n (s.join y)
  | leave {js : List α} {n : Nat} {s : Round α} :
      Overtakes x r js n s → s.cursor ≠ some x → Overtakes x r js n s.leave
  | advance {js : List α} {n : Nat} {s : Round α} :
      Overtakes x r js n s → s.advance.cursor ≠ some x → Overtakes x r js (n + 1) s.advance

theorem Overtakes.trans (h : Overtakes x r js m r') (h' : Overtakes x r' js' n r'') :
    Overtakes x r (js' ++ js) (m + n) r'' := by
  induction h' with
  | refl => exact h
  | join y _ hy ih => exact ih.join y hy
  | leave _ hc ih => exact ih.leave hc
  | advance _ hc ih => exact ih.advance hc

/-! ## Turns before one's own -/

variable [DecidableEq α]

/-- The number of turns before that of `x`. -/
def wait (r : Round α) (x : α) : Nat := r.order.idxOf x

theorem wait_lt (h : x ∈ r.toList) : r.wait x < r.toList.length := by
  have hlt := List.idxOf_lt_length_of_mem (mem_order.2 h)
  simp only [order, List.length_append] at hlt
  simp only [wait, order, toList, List.length_append]
  omega

theorem wait_join : (r.join y).wait x ≤ r.wait x + 1 := by
  simp only [wait, order, join, List.idxOf_append, List.mem_append, List.mem_singleton,
    List.length_append, List.length_singleton]
  by_cases ha : x ∈ r.ahead
  · simp [ha]
  · by_cases hxy : x = y
    · subst hxy
      simp [ha]
      omega
    · simp [ha, hxy]
      omega

theorem wait_advance (h : x ∈ r.toList) (hc : r.advance.cursor ≠ some x) :
    r.advance.wait x + 1 = r.wait x := by
  rw [advance_cursor] at hc
  simp only [wait, advance_order]
  have hm := mem_order.2 h
  cases ho : r.order with
  | nil =>
      rw [ho] at hm
      cases hm
  | cons y l =>
      rw [ho] at hm hc
      have hyx : y ≠ x := fun he => hc (congrArg some he)
      have hxl : x ∈ l := (List.mem_cons.1 hm).resolve_left hyx.symm
      rw [List.idxOf_cons_ne _ hyx, List.rotate_cons_succ, List.rotate_zero,
        List.idxOf_append_of_mem hxl]

theorem wait_leave (h : x ∈ r.toList) (hc : r.cursor ≠ some x) :
    x ∈ r.leave.toList ∧ r.leave.wait x = r.wait x := by
  have hpassed : x ∉ r.ahead → x ∈ r.passed.dropLast := by
    intro ha
    have hp : x ∈ r.passed := (List.mem_append.1 h).resolve_right ha
    rcases List.eq_nil_or_concat r.passed with hn | ⟨p, y, hp'⟩
    · rw [hn] at hp
      cases hp
    · rw [cursor, hp'] at hc
      simp only [List.concat_eq_append, List.getLast?_concat] at hc
      rw [hp', List.concat_eq_append, List.dropLast_concat]
      rw [hp', List.concat_eq_append, List.mem_append, List.mem_singleton] at hp
      exact hp.resolve_right fun he => hc (congrArg some he.symm)
  have hm : x ∈ r.ahead ++ r.passed.dropLast := by
    by_cases ha : x ∈ r.ahead
    · exact List.mem_append_left _ ha
    · exact List.mem_append_right _ (hpassed ha)
  refine ⟨?_, ?_⟩
  · rw [← mem_order, leave_order]
    exact hm
  · rw [wait, wait, leave_order, order, List.idxOf_append, List.idxOf_append]
    split
    · rfl
    · rename_i ha
      congr 1
      obtain ⟨p, hp⟩ := List.dropLast_prefix r.passed
      rw [← hp, List.idxOf_append_of_mem (hpassed ha)]
      rw [hp]

/-- The turns of others are paid for by the turns before one's own, and by those who join. -/
theorem Overtakes.wait_le (h : Overtakes x r js n r') (hx : x ∈ r.toList) :
    x ∈ r'.toList ∧ r'.wait x + n ≤ r.wait x + js.length := by
  induction h with
  | refl => exact ⟨hx, Nat.le_refl _⟩
  | @join _ _ s y _ _ ih =>
      refine ⟨by simp [ih.1], ?_⟩
      have hj : (s.join y).wait x ≤ s.wait x + 1 := wait_join
      rw [List.length_cons]
      omega
  | leave _ hc ih =>
      obtain ⟨hm, hw⟩ := wait_leave ih.1 hc
      exact ⟨hm, hw ▸ ih.2⟩
  | advance _ hc ih =>
      have ha := wait_advance ih.1 hc
      refine ⟨by rw [advance_toList]; exact ih.1, ?_⟩
      omega

end Round
