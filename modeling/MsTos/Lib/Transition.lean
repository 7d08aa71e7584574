-- SUMMARY: Guarded runs of a labelled transition system, and the rules for proving invariants of them.
import Mathlib.Data.List.ReduceOption
import Mathlib.Logic.Basic

/-!
# Transition systems

A system has a partial step function that also says what is observed of a step. A run
collects the observations, newest first, and may be restricted to steps that meet a guard.
-/

/-- A labelled transition system over states `σ`, actions `α` and observations `ε`. -/
structure TransitionSystem (σ α ε : Type*) where
  init : σ → Prop
  step : σ → α → Option (ε × σ)

namespace TransitionSystem

variable {σ α ε : Type*} {M : TransitionSystem σ α ε} {G G' : σ → α → Prop}

/-- `M.Run G h s`: from an initial state, steps that meet `G` lead to `s` with history `h`. -/
inductive Run (M : TransitionSystem σ α ε) (G : σ → α → Prop) : List ε → σ → Prop
  | init {s : σ} : M.init s → Run M G [] s
  | step {h : List ε} {s s' : σ} {a : α} {e : ε} :
      Run M G h s → G s a → M.step s a = some (e, s') → Run M G (e :: h) s'

/-- A property of history and state that holds initially and that every guarded step keeps
holds along every run. -/
theorem Run.invariant {P : List ε → σ → Prop} {h : List ε} {s : σ} (hr : M.Run G h s)
    (hinit : ∀ s, M.init s → P [] s)
    (hstep : ∀ h s a e s', P h s → G s a → M.step s a = some (e, s') → P (e :: h) s') :
    P h s := by
  induction hr with
  | init hi => exact hinit _ hi
  | step _ hg hs ih => exact hstep _ _ _ _ _ ih hg hs

theorem Run.mono {h : List ε} {s : σ} (hr : M.Run G h s) (hG : ∀ s a, G s a → G' s a) :
    M.Run G' h s := by
  induction hr with
  | init hi => exact .init hi
  | step _ hg hs ih => exact .step ih (hG _ _ hg) hs

/-- A forward simulation: every run of `M` is matched by one of `N` with the same history. -/
theorem Run.simulate {τ : Type*} {N : TransitionSystem τ α ε} {R : σ → τ → Prop} {h : List ε}
    {s : σ} (hr : M.Run G h s) (hinit : ∀ s, M.init s → ∃ t, N.init t ∧ R s t)
    (hstep : ∀ s t a e s', R s t → M.step s a = some (e, s') →
      ∃ t', N.step t a = some (e, t') ∧ R s' t') :
    ∃ t, N.Run (fun _ _ => True) h t ∧ R s t := by
  induction hr with
  | init hi =>
      obtain ⟨t, ht, hR⟩ := hinit _ hi
      exact ⟨t, .init ht, hR⟩
  | step _ _ hs ih =>
      obtain ⟨t, ht, hR⟩ := ih
      obtain ⟨t', hs', hR'⟩ := hstep _ _ _ _ _ hR hs
      exact ⟨t', .step ht trivial hs', hR'⟩

/-- A forward simulation in which `M` may take silent steps alone: every run of `M` is matched by one
of `N` of which the same is observed. -/
theorem Run.simulate_silent {α τ β : Type*} {M : TransitionSystem σ α (Option ε)}
    {N : TransitionSystem τ β (Option ε)} {G : σ → α → Prop} {R : σ → τ → Prop}
    {h : List (Option ε)} {s : σ} (hr : M.Run G h s) (hinit : ∀ s, M.init s → ∃ t, N.init t ∧ R s t)
    (hstep : ∀ h s t a e s', M.Run G h s → R s t → G s a → M.step s a = some (e, s') →
      e = none ∧ R s' t ∨ ∃ b t', N.step t b = some (e, t') ∧ R s' t') :
    ∃ h' t, N.Run (fun _ _ => True) h' t ∧ R s t ∧ h'.reduceOption = h.reduceOption := by
  induction hr with
  | init hi =>
      obtain ⟨t, ht, hR⟩ := hinit _ hi
      exact ⟨[], t, .init ht, hR, rfl⟩
  | step hr hg hs ih =>
      obtain ⟨h', t, ht, hR, he⟩ := ih
      rcases hstep _ _ _ _ _ _ hr hR hg hs with ⟨rfl, hR'⟩ | ⟨b, t', hs', hR'⟩
      · exact ⟨h', t, ht, hR', he⟩
      · refine ⟨_, t', .step ht trivial hs', hR', ?_⟩
        unfold List.reduceOption at *
        rw [List.filterMap_cons, List.filterMap_cons, he]

/-! ## Other observations -/

/-- The same system, of whose steps something else is observed. -/
def observe {β : Type*} (M : TransitionSystem σ α ε) (f : σ → α → β) :
    TransitionSystem σ α β where
  init := M.init
  step s a := (M.step s a).map fun r => (f s a, r.2)

section

variable {β : Type*} {f : σ → α → β}

theorem observe_step {s s' : σ} {a : α} {b : β} (hs : (M.observe f).step s a = some (b, s')) :
    b = f s a ∧ ∃ e, M.step s a = some (e, s') := by
  simp only [observe, Option.map_eq_some_iff, Prod.mk.injEq] at hs
  obtain ⟨⟨e, s₁⟩, hs, rfl, rfl⟩ := hs
  exact ⟨rfl, e, hs⟩

end

/-! ## Continuations -/

/-- The same system, started in `s`. -/
def startedAt (M : TransitionSystem σ α ε) (s : σ) : TransitionSystem σ α ε :=
  { M with init := fun s' => s' = s }

/-! ## Executing a list of actions -/

/-- Perform the actions in order, as long as every one is enabled and meets the guard. -/
def exec (M : TransitionSystem σ α ε) (G : σ → α → Prop) [∀ s a, Decidable (G s a)] :
    σ → List ε → List α → Option (List ε × σ)
  | s, h, [] => some (h, s)
  | s, h, a :: as =>
      if G s a then
        match M.step s a with
        | none => none
        | some (e, s') => exec M G s' (e :: h) as
      else none

theorem Run.of_exec [∀ s a, Decidable (G s a)] {as : List α} {h h' : List ε} {s s' : σ}
    (hr : M.Run G h s) (he : M.exec G s h as = some (h', s')) : M.Run G h' s' := by
  induction as generalizing h s with
  | nil =>
      simp only [exec, Option.some.injEq, Prod.mk.injEq] at he
      obtain ⟨rfl, rfl⟩ := he
      exact hr
  | cons a as ih =>
      simp only [exec] at he
      split at he
      · rename_i hg
        cases hs : M.step s a with
        | none => simp [hs] at he
        | some r =>
            obtain ⟨e, s₁⟩ := r
            simp only [hs] at he
            exact ih (.step hr hg hs) he
      · cases he

/-- Executing a list of actions shows that a run with a given property exists. -/
theorem exists_run_of_exec [∀ s a, Decidable (G s a)] {s : σ} (hi : M.init s) (as : List α)
    {P : List ε → σ → Prop} [∀ h s, Decidable (P h s)]
    (he : (M.exec G s [] as).any (fun r => decide (P r.1 r.2)) = true) :
    ∃ h s, M.Run G h s ∧ P h s := by
  rw [Option.any_eq_true] at he
  obtain ⟨⟨h, s'⟩, hr, hP⟩ := he
  exact ⟨h, s', .of_exec (.init hi) hr, by simpa using hP⟩

/-- Executing one action more shows that there is a step with a given property after such a run. -/
theorem exists_step_of_exec [∀ s a, Decidable (G s a)] {s : σ} (hi : M.init s) (as : List α) (a : α)
    {P : List ε → σ → Prop} [∀ h s, Decidable (P h s)] {Q : ε → σ → Prop} [∀ e s, Decidable (Q e s)]
    (he : (M.exec G s [] as).any (fun r =>
      decide (P r.1 r.2) && (M.step r.2 a).any fun r' => decide (Q r'.1 r'.2)) = true) :
    ∃ h s e s', M.Run G h s ∧ P h s ∧ M.step s a = some (e, s') ∧ Q e s' := by
  rw [Option.any_eq_true] at he
  obtain ⟨⟨h, s₁⟩, hr, hP⟩ := he
  rw [Bool.and_eq_true, Option.any_eq_true] at hP
  obtain ⟨hP, ⟨e, s'⟩, hs, hQ⟩ := hP
  exact ⟨h, s₁, e, s', .of_exec (.init hi) hr, of_decide_eq_true hP, hs, of_decide_eq_true hQ⟩

end TransitionSystem
