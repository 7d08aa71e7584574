-- SUMMARY: Words that lie one after the other in a memory, and machines with a stack that grows downwards.
import Mathlib.Logic.Function.Basic

/-!
# Words in memory

A memory maps addresses to words, and consecutive words are `d` addresses apart. `Stored` says
what lies at an address, so that pushing adds a word at the front and popping takes one away.

A `StackMachine` is what the rules for pushing and popping lists of registers need of a machine:
its registers, its memory, how an item is read from there, and a law for each of the two steps.
-/

variable {α : Type*} {d a b : Nat} {m m' : Nat → α} {v : α} {vs ws : List α}

/-- The words `vs` lie at `a` and the addresses after it. -/
def Stored (d : Nat) (m : Nat → α) : Nat → List α → Prop
  | _, [] => True
  | a, v :: vs => m a = v ∧ Stored d m (a + d) vs

namespace Stored

/-- Only the addresses from `a` to the end of the words matter. -/
theorem congr (h : Stored d m a vs) (hm : ∀ x, a ≤ x → x < a + d * vs.length → m' x = m x)
    (hd : 0 < d) : Stored d m' a vs := by
  induction vs generalizing a with
  | nil => trivial
  | cons v vs ih =>
      have hlen : d * (v :: vs).length = d + d * vs.length := by
        rw [List.length_cons, Nat.mul_succ, Nat.add_comm]
      rw [hlen] at hm
      refine ⟨(hm a (Nat.le_refl a) (by omega)).trans h.1, ih h.2 ?_⟩
      intro x hx hlt
      exact hm x (by omega) (by omega)

theorem append_iff :
    Stored d m a (vs ++ ws) ↔ Stored d m a vs ∧ Stored d m (a + d * vs.length) ws := by
  induction vs generalizing a with
  | nil => simp [Stored]
  | cons v vs ih =>
      rw [List.cons_append, Stored, Stored, ih, and_assoc, List.length_cons, Nat.mul_succ,
        Nat.add_assoc, Nat.add_comm (d * vs.length)]

end Stored

/-! ## Machines with a stack -/

/-- A machine with states `S`, registers `ρ` that hold a `β`, and cells that hold a `γ`, whose stack
pointer moves by `size` addresses below `limit`. A `β` that is pushed and read again is normalised. -/
structure StackMachine (S ρ β γ : Type*) where
  size : Nat
  limit : Nat
  sp : S → Nat
  reg : S → ρ → β
  mem : S → Nat → γ
  load : (Nat → γ) → Nat → β
  norm : β → β
  push : S → β → S
  pop : S → ρ → S
  size_pos : 0 < size
  load_congr : ∀ {m m' : Nat → γ} {x : Nat}, (∀ y, x ≤ y → y < x + size → m' y = m y) →
    load m' x = load m x
  push_reg : ∀ s v, reg (push s v) = reg s
  push_sp : ∀ s v, size ≤ sp s → sp (push s v) + size = sp s
  push_mem : ∀ s v, size ≤ sp s → ∀ x, x < sp (push s v) ∨ sp s ≤ x → mem (push s v) x = mem s x
  push_load : ∀ s v, load (mem (push s v)) (sp (push s v)) = norm v
  pop_mem : ∀ s r, mem (pop s r) = mem s
  pop_sp : ∀ s r, sp s + size < limit → sp (pop s r) = sp s + size
  pop_reg : ∀ s r, reg (pop s r) r = load (mem s) (sp s)
  pop_reg_of_ne : ∀ s r r', r' ≠ r → reg (pop s r) r' = reg s r'

namespace StackMachine

variable {S ρ β γ : Type*} (M : StackMachine S ρ β γ) {s : S} {us : List β}

/-- The items `us` lie at the stack pointer. -/
def Top (s : S) (us : List β) : Prop := Stored M.size (M.load (M.mem s)) (M.sp s) us

/-- Pushing moves the stack pointer down by `n`, and changes nothing outside of what it passes. -/
structure Pushed (n : Nat) (s s' : S) : Prop where
  reg : M.reg s' = M.reg s
  sp : M.sp s' + n = M.sp s
  mem : ∀ x, x < M.sp s' ∨ M.sp s ≤ x → M.mem s' x = M.mem s x

theorem pushed_push (h : M.size ≤ M.sp s) (v : β) : M.Pushed M.size s (M.push s v) :=
  ⟨M.push_reg s v, M.push_sp s v h, M.push_mem s v h⟩

theorem Pushed.refl (s : S) : M.Pushed 0 s s := ⟨rfl, rfl, fun _ _ => rfl⟩

variable {M} in
theorem Pushed.trans {n n' : Nat} {s₁ s₂ s₃ : S} (h : M.Pushed n s₁ s₂) (h' : M.Pushed n' s₂ s₃) :
    M.Pushed (n + n') s₁ s₃ := by
  have hsp := h.sp
  have hsp' := h'.sp
  refine ⟨h'.reg.trans h.reg, by omega, ?_⟩
  intro x hx
  rw [h'.mem x (by omega), h.mem x (by omega)]

/-- What lies above the stack pointer stays there. -/
theorem stored_congr {s' : S} {x : Nat} (hst : Stored M.size (M.load (M.mem s)) x us)
    (hm : ∀ y, x ≤ y → M.mem s' y = M.mem s y) : Stored M.size (M.load (M.mem s')) x us := by
  refine hst.congr ?_ M.size_pos
  intro y hy _
  exact M.load_congr fun z hz _ => hm z (by omega)

theorem top_push (hst : M.Top s us) (h : M.size ≤ M.sp s) (v : β) :
    M.Top (M.push s v) (M.norm v :: us) := by
  refine ⟨M.push_load s v, ?_⟩
  rw [M.push_sp s v h]
  exact M.stored_congr hst fun y hy => M.push_mem s v h y (.inr hy)

/-- Pushing registers one after the other. -/
theorem pushList (rs : List ρ) (hst : M.Top s us) (h : M.size * rs.length ≤ M.sp s) :
    M.Pushed (M.size * rs.length) s (rs.foldl (fun s r => M.push s (M.reg s r)) s) ∧
      M.Top (rs.foldl (fun s r => M.push s (M.reg s r)) s)
        (rs.reverse.map (fun r => M.norm (M.reg s r)) ++ us) := by
  induction rs generalizing s us with
  | nil => exact ⟨.refl M s, hst⟩
  | cons r rs ih =>
      rw [List.length_cons, Nat.mul_succ] at h ⊢
      have hp := M.pushed_push (s := s) (by omega) (M.reg s r)
      have hsp := hp.sp
      obtain ⟨hpush, hst'⟩ := ih (M.top_push hst (by omega) (M.reg s r)) (by omega)
      rw [hp.reg] at hst'
      rw [List.foldl_cons, List.reverse_cons, List.map_append, List.append_assoc]
      refine ⟨?_, hst'⟩
      rw [Nat.add_comm]
      exact hp.trans hpush

/-- Popping registers one after the other. -/
theorem popList (rs : List ρ) (hn : rs.Nodup) (f : ρ → β) (hst : M.Top s (rs.map f ++ us))
    (h : M.sp s + M.size * rs.length < M.limit) :
    (∀ r ∈ rs, M.reg (rs.foldl M.pop s) r = f r) ∧
      (∀ r, r ∉ rs → M.reg (rs.foldl M.pop s) r = M.reg s r) ∧
      M.mem (rs.foldl M.pop s) = M.mem s ∧
      M.sp (rs.foldl M.pop s) = M.sp s + M.size * rs.length ∧ M.Top (rs.foldl M.pop s) us := by
  induction rs generalizing s with
  | nil => exact ⟨nofun, fun _ _ => rfl, rfl, rfl, hst⟩
  | cons r rs ih =>
      rw [List.length_cons, Nat.mul_succ] at h ⊢
      rw [List.nodup_cons] at hn
      have hsp := M.pop_sp s r (by omega)
      have hrest : M.Top (M.pop s r) (rs.map f ++ us) := by
        unfold Top
        rw [M.pop_mem, hsp]
        exact hst.2
      obtain ⟨hin, hout, hmem, hend, htop⟩ := ih hn.2 hrest (by omega)
      rw [List.foldl_cons]
      refine ⟨?_, ?_, hmem.trans (M.pop_mem s r), by omega, htop⟩
      · intro r' hr'
        obtain rfl | hr' := List.mem_cons.1 hr'
        · rw [hout _ hn.1, M.pop_reg]
          exact hst.1
        · exact hin r' hr'
      · intro r' hr'
        rw [List.mem_cons, not_or] at hr'
        rw [hout r' hr'.2, M.pop_reg_of_ne s r r' hr'.1]

end StackMachine
