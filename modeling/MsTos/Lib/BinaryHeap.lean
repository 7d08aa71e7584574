-- SUMMARY: Binary heaps in an array: the order of the keys, and the steps of a hole that is sifted up or down.
import Mathlib.Logic.Function.Basic
import Mathlib.Order.Lattice

/-!
# Binary heaps

A heap of `n` keys lives in the cells `1..n`; the parent of the cell `i` is `i / 2`. To insert
or to remove a key, an algorithm moves a hole along a path and fills it in the end. `SiftUp` and
`SiftDown` say what holds of the keys around the hole on the way.
-/

variable {β : Type*} [LinearOrder β] {n i j k : Nat} {f : Nat → β} {x y : β}

/-- No key is less than that of the parent. -/
def HeapOrder (n : Nat) (f : Nat → β) : Prop := ∀ i, 2 ≤ i → i ≤ n → f (i / 2) ≤ f i

namespace HeapOrder

/-- The root has a minimal key. -/
theorem root_le (h : HeapOrder n f) (hi : 1 ≤ i) (hn : i ≤ n) : f 1 ≤ f i := by
  induction i using Nat.strongRecOn with
  | ind i ih =>
      rcases Nat.lt_or_ge i 2 with hlt | hge
      · have he : i = 1 := by omega
        rw [he]
      · calc f 1 ≤ f (i / 2) := ih (i / 2) (by omega) (by omega) (by omega)
          _ ≤ f i := h i hge hn

/-- The key of the root may get smaller. -/
theorem lower_root (h : HeapOrder n f) (hx : x ≤ f 1) : HeapOrder n (Function.update f 1 x) := by
  intro i hi hn
  have hi1 : i ≠ 1 := by omega
  rw [Function.update_of_ne hi1]
  rcases eq_or_ne (i / 2) 1 with hp | hp
  · rw [hp, Function.update_self]
    have hle := h i hi hn
    rw [hp] at hle
    exact hx.trans hle
  · rw [Function.update_of_ne hp]
    exact h i hi hn

end HeapOrder

/-- No key is less than that of the parent, where neither of the two is that of the hole `i`. -/
def OrderedAround (n : Nat) (f : Nat → β) (i : Nat) : Prop :=
  ∀ k, 2 ≤ k → k ≤ n → k ≠ i → k / 2 ≠ i → f (k / 2) ≤ f k

/-- The children of the hole `i` are not less than its parent. -/
def OrderedAcross (n : Nat) (f : Nat → β) (i : Nat) : Prop :=
  2 ≤ i → ∀ k, k ≤ n → k / 2 = i → f (i / 2) ≤ f k

/-- A hole that is filled in order completes the heap. -/
theorem OrderedAround.fill (h : OrderedAround n f i) (hup : 2 ≤ i → f (i / 2) ≤ x)
    (hdown : ∀ k, k ≤ n → k / 2 = i → x ≤ f k) : HeapOrder n (Function.update f i x) := by
  intro k hk hn
  rcases eq_or_ne k i with rfl | hki
  · rw [Function.update_self, Function.update_of_ne (by omega)]
    exact hup hk
  · rw [Function.update_of_ne hki]
    rcases eq_or_ne (k / 2) i with hp | hp
    · rw [hp, Function.update_self]
      exact hdown k hn hp
    · rw [Function.update_of_ne hp]
      exact h k hk hn hki hp

/-! ## Upwards -/

/-- The hole `i` on the way up, for a key `x` that is to fill it. -/
structure SiftUp (n : Nat) (f : Nat → β) (i : Nat) (x : β) : Prop where
  around : OrderedAround n f i
  across : OrderedAcross n f i
  below : ∀ k, k ≤ n → k / 2 = i → x ≤ f k

/-- A hole behind the last key. -/
theorem HeapOrder.siftUp (h : HeapOrder n f) (x : β) : SiftUp (n + 1) f (n + 1) x where
  around k hk hn hne _ := h k hk (by omega)
  across _ k hn hk := by omega
  below k hn hk := by omega

/-- The key of the parent moves down into the hole. -/
theorem SiftUp.move (h : SiftUp n f i x) (hi : 2 ≤ i) (hn : i ≤ n) (hx : x < f (i / 2)) :
    SiftUp n (Function.update f i (f (i / 2))) (i / 2) x := by
  have hsib : ∀ k, k ≤ n → k / 2 = i / 2 → k ≠ i → f (i / 2) ≤ f k := by
    intro k hk hp hki
    have hle := h.around k (by omega) hk hki (by omega)
    rwa [hp] at hle
  refine ⟨?_, ?_, ?_⟩
  · intro k hk hkn hki hkp
    have hne : k ≠ i := by
      rintro rfl
      exact hkp rfl
    rw [Function.update_of_ne hne]
    rcases eq_or_ne (k / 2) i with hp | hp
    · rw [hp, Function.update_self]
      exact h.across hi k hkn hp
    · rw [Function.update_of_ne hp]
      exact h.around k hk hkn hne hp
  · intro hp k hkn hk
    rw [Function.update_of_ne (by omega : i / 2 / 2 ≠ i)]
    have hpp : f (i / 2 / 2) ≤ f (i / 2) := h.around (i / 2) hp (by omega) (by omega) (by omega)
    rcases eq_or_ne k i with rfl | hki
    · rwa [Function.update_self]
    · rw [Function.update_of_ne hki]
      exact hpp.trans (hsib k hkn hk hki)
  · intro k hkn hk
    rcases eq_or_ne k i with rfl | hki
    · rw [Function.update_self]
      exact hx.le
    · rw [Function.update_of_ne hki]
      exact hx.le.trans (hsib k hkn hk hki)

theorem SiftUp.fill (h : SiftUp n f i x) (hup : 2 ≤ i → f (i / 2) ≤ x) :
    HeapOrder n (Function.update f i x) := h.around.fill hup h.below

/-! ## Downwards -/

/-- The hole `i` on the way down, for a key `x` that is to fill it. -/
structure SiftDown (n : Nat) (f : Nat → β) (i : Nat) (x : β) : Prop where
  around : OrderedAround n f i
  across : OrderedAcross n f i
  above : 2 ≤ i → f (i / 2) ≤ x

/-- A hole at the root, whatever its cell holds. -/
theorem HeapOrder.siftDown (h : HeapOrder n f) (x y : β) : SiftDown n (Function.update f 1 y) 1 x where
  around k hk hn hk1 hp := by
    rw [Function.update_of_ne hk1, Function.update_of_ne hp]
    exact h k hk hn
  across h := by omega
  above h := by omega

/-- The key of the child `k` moves up into the hole. -/
theorem SiftDown.move (h : SiftDown n f i x) (hi : 1 ≤ i) (hk : k / 2 = i) (hn : k ≤ n)
    (hx : f k < x) (hmin : ∀ k', k' ≤ n → k' / 2 = i → f k ≤ f k') :
    SiftDown n (Function.update f i (f k)) k x := by
  have hki : k ≠ i := by omega
  refine ⟨?_, ?_, ?_⟩
  · intro c hc hcn hck hcp
    rcases eq_or_ne c i with rfl | hci
    · rw [Function.update_self, Function.update_of_ne (by omega)]
      exact h.across hc k hn hk
    · rw [Function.update_of_ne hci]
      rcases eq_or_ne (c / 2) i with hp | hp
      · rw [hp, Function.update_self]
        exact hmin c hcn hp
      · rw [Function.update_of_ne hp]
        exact h.around c hc hcn hci hp
  · intro _ c hcn hc
    rw [hk, Function.update_self, Function.update_of_ne (by omega)]
    have hle := h.around c (by omega) hcn (by omega) (by omega)
    rwa [hc] at hle
  · intro _
    rw [hk, Function.update_self]
    exact hx.le

theorem SiftDown.fill (h : SiftDown n f i x) (hdown : ∀ k, k ≤ n → k / 2 = i → x ≤ f k) :
    HeapOrder n (Function.update f i x) := h.around.fill h.above hdown
