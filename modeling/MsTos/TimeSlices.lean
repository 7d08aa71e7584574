-- SUMMARY: Time slices over whole runs: when they are reloaded, and the bounds of their arithmetic.
import MsTos.Slices

namespace MsTos

/-! ## Slices within bounds -/

namespace Slice

variable {x : TaskId → Slice} {y : Slice} {t u : TaskId}

/-- The priorities that `thrd_create` accepts. -/
structure Fits (x : Slice) : Prop where
  base_pos : 0 < x.base
  base_lt : x.base < wordSize
  fixed_pos : 0 < x.fixed
  fixed_lt : x.fixed < wordSize

theorem fresh_fits (p : SizeT) (hp : p.val ≠ 0) : (fresh p).Fits :=
  ⟨Nat.pos_of_ne_zero hp, p.isLt, Nat.pos_of_ne_zero hp, p.isLt⟩

theorem Moves.fits (h : Moves x t u y) (ht : (x t).Fits) (hu : (x u).Fits) : y.Fits := by
  cases h with
  | keep => exact hu
  | reload => exact ⟨ht.base_pos, ht.base_lt, ht.fixed_pos, ht.fixed_lt⟩
  | restore => exact ⟨ht.base_pos, ht.base_lt, ht.base_pos, ht.base_lt⟩
  | boost => exact ⟨hu.base_pos, hu.base_lt, ht.fixed_pos, ht.fixed_lt⟩
  | hand => exact ⟨hu.base_pos, hu.base_lt, ht.fixed_pos, ht.fixed_lt⟩

/-- What `t` does to the others moves both priorities together. -/
theorem Moves.full (h : Moves x t u y) (hne : u ≠ t) (ht : (x t).fixed < wordSize) (hu : (x u).Full) :
    y.Full := by
  cases h with
  | keep => exact hu
  | reload he => exact absurd he hne
  | restore he => exact absurd he hne
  | boost hlt =>
      have hw : (x u).working = (x u).fixed := hu
      show ((x u).working + ((x t).fixed - (x u).fixed)) % wordSize = (x t).fixed
      rw [hw, Nat.add_sub_cancel' hlt.le, Nat.mod_eq_of_lt ht]
  | hand => rfl

theorem countDown_mod {n : Nat} (hpos : 0 < n) (hlt : n < wordSize) :
    (n + (wordSize - 1)) % wordSize = n - 1 := by
  unfold wordSize at *
  omega

/-- What is left of the slice leaves room for a boost to the priority `check`. -/
def BoostFits (y : Slice) (check : Nat) : Prop := y.working + check < wordSize + y.fixed

instance (y : Slice) (check : Nat) : Decidable (y.BoostFits check) :=
  inferInstanceAs (Decidable (_ < _))

theorem Full.boostFits (h : y.Full) {check : Nat} (hc : check < wordSize) : y.BoostFits check := by
  unfold Full at h
  unfold BoostFits
  omega

theorem BoostFits.working {check : Nat} (h : y.BoostFits check) (hlt : y.fixed < check) :
    y.working + (check - y.fixed) < wordSize ∧ (y.boost check).working = y.working + (check - y.fixed) := by
  have h : y.working + (check - y.fixed) < wordSize := by
    unfold BoostFits at h
    omega
  exact ⟨h, Nat.mod_eq_of_lt h⟩

/-- A boost that fits leaves as much room as there was. -/
theorem Moves.boostFits (h : Moves x t u y) (hne : u ≠ t) (hut : (x u).BoostFits (x t).fixed)
    {check : Nat} (hc : check < wordSize) (hu : (x u).BoostFits check) : y.BoostFits check := by
  cases h with
  | keep => exact hu
  | reload he => exact absurd he hne
  | restore he => exact absurd he hne
  | boost hlt =>
      unfold BoostFits at hu ⊢
      rw [(hut.working hlt).2]
      show (x u).working + ((x t).fixed - (x u).fixed) + check < wordSize + (x t).fixed
      omega
  | hand => exact Full.boostFits (show _ = _ from rfl) hc

/-- The priorities of `u` after the call are among those that `u` and `t` had before it. -/
theorem Moves.priorities {P : Nat → Prop} (h : Moves x t u y) (ht : P (x t).base ∧ P (x t).fixed)
    (hu : P (x u).base ∧ P (x u).fixed) : P y.base ∧ P y.fixed := by
  cases h with
  | keep => exact hu
  | reload => exact ht
  | restore => exact ⟨ht.1, ht.1⟩
  | boost | hand => exact ⟨hu.1, ht.2⟩

theorem Moves.pos (h : Moves x t u y) (ht : (x t).Fits) (hut : u ≠ t → (x u).BoostFits (x t).fixed)
    (hpos : 0 < (x u).working) : 0 < y.working := by
  cases h with
  | keep => exact hpos
  | reload => exact ht.fixed_pos
  | restore he =>
      rw [he] at hpos
      exact hpos
  | boost hlt =>
      have hne : u ≠ t := by
        rintro rfl
        exact absurd hlt (Nat.lt_irrefl _)
      rw [((hut hne).working hlt).2]
      exact Nat.lt_of_lt_of_le hpos (Nat.le_add_right ..)
  | hand => exact ht.fixed_pos

end Slice

namespace Sys

variable {vals : Nat → Nat} {s s' s₁ : Sys} {h : List (Option Event)} {a : Action} {e : Option Event}
  {t u : TaskId} {n : Nat}

/-! ## Full slices at every dispatch -/

/-- The thread that runs has its whole slice left whenever a tick finds no task to run. -/
def FullGuard (s : Sys) (a : Action) : Prop :=
  match a with
  | .tick sp => (save s.k sp).osUpdate.runQueue.taskActiveCnt = 0 →
      ∀ t, s.k.runPtr = some t → s.pc t ≠ .none → (s.k.slices t).Full
  | _ => True

instance (s : Sys) (a : Action) : Decidable (s.FullGuard a) :=
  match a with
  | .tick _ => inferInstanceAs (Decidable (_ → _))
  | .create _ _ | .launch | .call _ | .resume => inferInstanceAs (Decidable True)

/-- Whoever does not run has a whole slice. -/
structure FullOk (s : Sys) : Prop where
  idle : s.pc .idle = .none
  fits : ∀ u, s.pc u ≠ .none → (s.k.slices u).Fits
  full : ∀ u, s.pc u ≠ .none → s.k.runPtr ≠ some u → (s.k.slices u).Full

theorem Reslice.idle (h : s.Reslice a s' .idle) (hi : s.pc .idle = .none) : s'.pc .idle = .none := by
  cases h with
  | keep hu | moves t hu => exact not_not.1 fun hn => hu hn hi
  | fresh i hu => cases hu

theorem FullOk.reslice (h : s.FullOk) (hs : s.Reslice a s' u) (hu : s'.pc u ≠ .none) :
    (s'.k.slices u).Fits ∧ (s.k.runPtr ≠ some u → (s'.k.slices u).Full) := by
  cases hs with
  | keep hp hx =>
      rw [hx]
      exact ⟨h.fits u (hp hu), h.full u (hp hu)⟩
  | fresh i _ p hp _ hx =>
      rw [hx]
      exact ⟨Slice.fresh_fits p hp, fun _ => rfl⟩
  | moves t hp hr ht hm =>
      refine ⟨hm.fits (h.fits t ht) (h.fits u (hp hu)), ?_⟩
      intro hne
      apply hm.full _ (h.fits t ht).fixed_lt (h.full u (hp hu) hne)
      rintro rfl
      exact hne hr

theorem spent_fits {k : Kernel} (h : (k.slices t).Fits) : (k.spent t).Fits := by
  unfold Kernel.spent
  split <;> exact ⟨h.base_pos, h.base_lt, h.fixed_pos, h.fixed_lt⟩

theorem FullOk.tick {sp : Addr} (h : s.FullOk) (hs : s.step (.tick sp) = some (e, s')) :
    s'.pc .idle = .none ∧ (∀ u, s'.pc u ≠ .none → (s'.k.slices u).Fits) ∧
      (s.FullGuard (.tick sp) ↔
        ∀ u, s'.pc u ≠ .none → s'.k.runPtr ≠ some u → (s'.k.slices u).Full) := by
  have hpc : s'.pc = s.pc := (tick_of_step hs).2
  obtain ⟨t, hr⟩ := tick_running hs
  rw [hpc]
  refine ⟨h.idle, ?_⟩
  rcases Nat.eq_zero_or_pos (save s.k sp).osUpdate.runQueue.taskActiveCnt with hc | hc
  · -- the idle thread is chosen without a look at the slice
    obtain ⟨hi, hx⟩ := tick_of_empty hs hc
    rw [hx, hi]
    have hne : ∀ u, s.pc u ≠ .none → some TaskId.idle ≠ some u := by
      rintro u hu ⟨⟩
      exact hu h.idle
    refine ⟨h.fits, ?_, ?_⟩
    · intro hg u hu _
      rcases eq_or_ne (some t) (some u) with he | hne
      · exact hg hc u (hr.trans he) hu
      · exact h.full u hu (by rwa [hr])
    · intro hfull _ u _ hu
      exact hfull u hu (hne u hu)
  · obtain ⟨hrun, hx⟩ := tick_of_run hs hr hc
    refine ⟨?_, ?_⟩
    · intro u hu
      rw [hx]
      split
      · rename_i he
        apply spent_fits
        rw [Kernel.osUpdate_slices, ← he]
        exact h.fits u hu
      · exact h.fits u hu
    · refine iff_of_true (fun h0 => absurd h0 (Nat.ne_of_gt hc)) ?_
      intro u hu hne
      rw [hx]
      split
      · rename_i he
        rw [hrun, he] at hne
        unfold Kernel.spent
        split
        · rfl
        · rename_i ho
          rw [if_neg ho] at hne
          exact absurd rfl hne
      · rename_i he
        apply h.full u hu
        rw [hr]
        exact fun heq => he (Option.some.inj heq).symm

theorem FullOk.step (h : s.FullOk) (hg : s.FullGuard a) (hs : s.step a = some (e, s')) :
    s'.FullOk := by
  by_cases ha : ∀ sp, a ≠ .tick sp
  · have hx := fun u => step_reslice u hs ha
    refine ⟨(hx .idle).idle h.idle, fun u hu => (h.reslice (hx u) hu).1, ?_⟩
    intro u hu hne
    exact (h.reslice (hx u) hu).2 (mt (step_runPtr hs ha) hne)
  · simp only [not_forall, not_not] at ha
    obtain ⟨sp, rfl⟩ := ha
    obtain ⟨hi, hf, hiff⟩ := h.tick hs
    exact ⟨hi, hf, hiff.1 hg⟩

theorem boot_fullOk (vals : Nat → Nat) : (boot vals).FullOk :=
  ⟨rfl, fun _ hu => absurd rfl hu, fun _ hu => absurd rfl hu⟩

theorem run_fullOk (hr : (system vals).Run FullGuard h s) : s.FullOk := by
  refine hr.invariant (P := fun _ s => s.FullOk) ?_ ?_
  · rintro s rfl
    exact boot_fullOk vals
  · exact fun _ _ _ _ _ hok hg hs => hok.step hg hs

/-! ### The ticks of a turn -/

/-- `os_change_task` makes `u` the thread that runs. -/
def Dispatches (s : Sys) (a : Action) (s' : Sys) (u : TaskId) : Prop :=
  s'.k.runPtr = some u ∧
    (s.k.runPtr ≠ some u ∨ ∃ sp, a = .tick sp ∧
      0 < (save s.k sp).osUpdate.runQueue.taskActiveCnt ∧ (save s.k sp).osUpdate.TurnOver u)

/-- From `s` on, `u` takes `n` ticks of its slice and does nothing that changes the slice: at every
tick it is `ACTIVE` and there is a task to run. -/
inductive Turn (u : TaskId) (s : Sys) : Nat → Sys → Prop
  | start : Turn u s 0 s
  | act {n : Nat} {s₁ s₂ : Sys} {a : Action} {e : Option Event} (h : Turn u s n s₁)
      (hs : s₁.step a = some (e, s₂)) (ha : ∀ sp, a ≠ .tick sp)
      (hx : s₂.k.slices u = s₁.k.slices u) : Turn u s n s₂
  | tick {n : Nat} {s₁ s₂ : Sys} {sp : Addr} {e : Option Event} (h : Turn u s n s₁)
      (hn : n + 1 < (s.k.slices u).fixed) (hact : (s₁.k.thrds u).state = .ACTIVE)
      (hc : 0 < (save s₁.k sp).osUpdate.runQueue.taskActiveCnt)
      (hs : s₁.step (.tick sp) = some (e, s₂)) : Turn u s (n + 1) s₂

/-- A tick of the thread that runs is its last one if nothing else is left of its slice. -/
theorem turnOver_iff (sp : Addr) (hact : (s.k.thrds u).state = .ACTIVE)
    (hpos : 0 < (s.k.slices u).working) (hlt : (s.k.slices u).working < wordSize) :
    (save s.k sp).osUpdate.TurnOver u ↔ (s.k.slices u).working = 1 := by
  have hst : ((save s.k sp).osUpdate.thrds u).state = .ACTIVE := Kernel.osUpdate_active (save s.k sp) u hact
  have hw : ((save s.k sp).osUpdate.thrds u).workingPrio = (s.k.slices u).working :=
    congrArg Slice.working (congrFun (Kernel.osUpdate_slices (save s.k sp)) u)
  unfold Kernel.TurnOver
  rw [hst, hw]
  rw [Slice.countDown_mod hpos hlt]
  simp only [reduceCtorEq, or_self, false_or]
  omega

/-- The slice of a thread counts the ticks of its turn. -/
theorem Turn.slice (ht : Turn u s n s₁) (hr : s.k.runPtr = some u) (hf : (s.k.slices u).Fits)
    (hfull : (s.k.slices u).Full) :
    s₁.k.runPtr = some u ∧ n < (s.k.slices u).fixed ∧
      s₁.k.slices u = { s.k.slices u with working := (s.k.slices u).fixed - n } := by
  induction ht with
  | start =>
      have hw : (s.k.slices u).working = (s.k.slices u).fixed := hfull
      refine ⟨hr, hf.fixed_pos, ?_⟩
      rw [Nat.sub_zero, ← hw]
  | act _ hs ha hx ih => exact ⟨step_runPtr hs ha ih.1, ih.2.1, hx.trans ih.2.2⟩
  | @tick n s₁ s₂ sp e h hn hact hc hs ih =>
      obtain ⟨hrun, -, hx⟩ := ih
      have hw : (s₁.k.slices u).working = (s.k.slices u).fixed - n := by rw [hx]
      have hlt := hf.fixed_lt
      have ho := mt (turnOver_iff sp hact (by omega) (by omega)).1 (by omega)
      obtain ⟨hrun', hx'⟩ := tick_of_run hs hrun hc
      rw [if_neg ho] at hrun'
      refine ⟨hrun', hn, ?_⟩
      have hsave : (save s₁.k sp).slices u = s₁.k.slices u := rfl
      rw [hx', if_pos rfl, Kernel.spent, if_neg ho, Kernel.osUpdate_slices, hsave, Slice.countDown,
        Slice.countDown_mod (by omega) (by omega), hw, hx]
      rfl

/-- The next tick of a turn: the thread goes on, or its ticks are as many as its `fixed_prio` and
`os_change_task` is called. -/
theorem Turn.next {sp : Addr} {s₂ : Sys} (ht : Turn u s n s₁) (hr : s.k.runPtr = some u)
    (hf : (s.k.slices u).Fits) (hfull : (s.k.slices u).Full)
    (hact : (s₁.k.thrds u).state = .ACTIVE)
    (hc : 0 < (save s₁.k sp).osUpdate.runQueue.taskActiveCnt)
    (hs : s₁.step (.tick sp) = some (e, s₂)) :
    s₂.k.runPtr = if n + 1 = (s.k.slices u).fixed then (save s₁.k sp).osUpdate.osChangeTask.runPtr
      else some u := by
  obtain ⟨hrun, hn, hx⟩ := ht.slice hr hf hfull
  have hw : (s₁.k.slices u).working = (s.k.slices u).fixed - n := by rw [hx]
  have hlt := hf.fixed_lt
  have ho := turnOver_iff sp hact (by omega) (by omega)
  rw [(tick_of_run hs hrun hc).1]
  refine if_congr (ho.trans ?_) rfl rfl
  rw [hw]
  omega

theorem FullOk.dispatch (h : s.FullOk) (hs : s.step a = some (e, s')) (hu : s'.pc u ≠ .none)
    (hd : s.Dispatches a s' u) : (s'.k.slices u).Fits ∧ (s'.k.slices u).Full := by
  obtain ⟨hr', hd⟩ := hd
  by_cases ha : ∀ sp, a ≠ .tick sp
  · have hne : s.k.runPtr ≠ some u := by
      rcases hd with hne | ⟨sp, rfl, -⟩
      · exact hne
      · exact absurd rfl (ha sp)
    obtain ⟨hf, hfull⟩ := h.reslice (step_reslice u hs ha) hu
    exact ⟨hf, hfull hne⟩
  · simp only [not_forall, not_not] at ha
    obtain ⟨sp, rfl⟩ := ha
    refine ⟨(h.tick hs).2.1 u hu, ?_⟩
    have hpc : s'.pc = s.pc := (tick_of_step hs).2
    rw [hpc] at hu
    rcases eq_or_ne s.k.runPtr (some u) with hr | hne
    · rcases hd with hne | ⟨sp, ⟨⟩, hc, ho⟩
      · exact absurd hr hne
      · rw [(tick_of_run hs hr hc).2, if_pos rfl, Kernel.spent, if_pos ho]
        rfl
    · rw [tick_of_ne hs hne]
      exact h.full u hu hne

/-- In a run whose ticks meet the guard, the next tick leaves every live thread that does not run
with its whole slice if and only if it meets the guard too, and whoever is dispatched has its whole
slice and gets one tick for each unit of it. -/
theorem full_slice_at_dispatch (hr : (system vals).Run FullGuard h s)
    (hs : s.step a = some (e, s')) :
    (∀ sp, a = .tick sp → (s.FullGuard a ↔
      ∀ u, s'.pc u ≠ .none → s'.k.runPtr ≠ some u → (s'.k.slices u).Full)) ∧
    ∀ u, s'.pc u ≠ .none → s.Dispatches a s' u →
      (s'.k.slices u).Full ∧ 0 < (s'.k.slices u).fixed ∧
      ∀ n s₁, Turn u s' n s₁ → s₁.k.runPtr = some u ∧ n < (s'.k.slices u).fixed ∧
        ∀ sp e s₂, (s₁.k.thrds u).state = .ACTIVE →
          0 < (save s₁.k sp).osUpdate.runQueue.taskActiveCnt → s₁.step (.tick sp) = some (e, s₂) →
          s₂.k.runPtr = if n + 1 = (s'.k.slices u).fixed then
            (save s₁.k sp).osUpdate.osChangeTask.runPtr else some u := by
  have hok := run_fullOk hr
  refine ⟨?_, ?_⟩
  · rintro sp rfl
    exact (hok.tick hs).2.2
  · intro u hu hd
    obtain ⟨hf, hfull⟩ := hok.dispatch hs hu hd
    refine ⟨hfull, hf.fixed_pos, ?_⟩
    intro n s₁ ht
    obtain ⟨hrun, hn, -⟩ := ht.slice hd.1 hf hfull
    exact ⟨hrun, hn, fun sp e s₂ hact hc hs₂ => ht.next hd.1 hf hfull hact hc hs₂⟩

/-- Both threads sleep, and the idle thread runs. Then the one of priority 2 runs for two ticks, and
after that the one of priority 1 is dispatched. -/
theorem full_slice_at_dispatch_two_threads :
    ∃ h s e s', (system fun _ => 0).Run FullGuard h s ∧ s.step (.tick 0) = some (e, s') ∧
      s'.k.runPtr = some (.slot 14) ∧ (s'.k.slices (.slot 14)).Full ∧
      (s'.k.slices (.slot 15)).Full ∧ (s'.k.slices (.slot 15)).fixed = 2 := by
  rcases exists_step (fun _ => 0) (G := FullGuard)
    [.create 1 2, .create 1 1, .launch, .call (.thrdSleep 3), .resume, .tick 0, .call (.thrdSleep 2),
      .resume, .tick 0, .tick 0, .resume, .tick 0] (.tick 0)
    (P := fun s => s.k.runPtr = some (.slot 15) ∧ s.FullGuard (.tick 0))
    (Q := fun _ s' => s'.k.runPtr = some (.slot 14) ∧ s'.pc (.slot 14) ≠ .none ∧
      s'.pc (.slot 15) ≠ .none ∧ (s'.k.slices (.slot 15)).fixed = 2)
    (by decide +kernel) with ⟨h, s, e, s', hr, ⟨hrun, hg⟩, hs, hrun', h14, h15, hf⟩
  obtain ⟨hticks, hdisp⟩ := full_slice_at_dispatch hr hs
  have hne : s.k.runPtr ≠ some (.slot 14) := by
    rw [hrun]
    nofun
  have hne' : s'.k.runPtr ≠ some (.slot 15) := by
    rw [hrun']
    nofun
  exact ⟨h, s, e, s', hr, hs, hrun', (hdisp (.slot 14) h14 ⟨hrun', .inl hne⟩).1,
    (hticks 0 rfl).1 hg (.slot 15) h15 hne', hf⟩

/-- The last thread that could run is not reloaded when it blocks: the idle thread runs, and the
thread keeps what is left of its slice. -/
theorem blocked_with_part_of_slice :
    ∃ h s e s', (system fun _ => 0).Run (fun _ _ => True) h s ∧ s.step (.tick 0) = some (e, s') ∧
      s'.pc (.slot 15) ≠ .none ∧ s'.k.runPtr ≠ some (.slot 15) ∧
      (s'.k.slices (.slot 15)).fixed = 2 ∧ (s'.k.slices (.slot 15)).working = 1 := by
  rcases exists_step (fun _ => 0) (G := fun _ _ => True)
    [.create 1 2, .launch, .tick 0, .call (.semWait 0)] (.tick 0) (P := fun _ => True)
    (Q := fun _ s' => s'.pc (.slot 15) ≠ .none ∧ s'.k.runPtr ≠ some (.slot 15) ∧
      (s'.k.slices (.slot 15)).fixed = 2 ∧ (s'.k.slices (.slot 15)).working = 1)
    (by decide +kernel) with ⟨h, s, e, s', hr, -, hs, hq⟩
  exact ⟨h, s, e, s', hr, hs, hq⟩

/-! ## Slice arithmetic -/

instance (s : Sys) (t : TaskId) : Decidable (s.Live t) := inferInstanceAs (Decidable (_ ∨ _))

/-- Threads neither exit nor call `mtx_trylock`. Where a tick finds no task to run, what is left of the
slice of the thread that runs leaves room for a boost by every other thread, and so do the slices of the
threads that do not run for a boost by a thread that is created. -/
def SliceGuard (s : Sys) (a : Action) : Prop :=
  s.BoostGuard a ∧
    (∀ r ∈ s.creation a, ∀ u, s.k.runPtr ≠ some u → (s.k.slices u).BoostFits r.2) ∧
    match a with
    | .tick sp => (save s.k sp).osUpdate.runQueue.taskActiveCnt = 0 →
        ∀ t, s.k.runPtr = some t → ∀ v, v ≠ t → s.Live v →
          (s.k.slices t).BoostFits (s.k.slices v).base ∧ (s.k.slices t).BoostFits (s.k.slices v).fixed
    | _ => True

instance (s : Sys) (a : Action) : Decidable (s.SliceGuard a) :=
  match a with
  | .tick _ => inferInstanceAs (Decidable (_ ∧ (∀ _ ∈ _, ∀ _, _) ∧ (_ → ∀ _, _ → ∀ _, _)))
  | .create _ _ | .launch | .call _ | .resume =>
      inferInstanceAs (Decidable (_ ∧ (∀ _ ∈ _, ∀ _, _) ∧ True))

/-- The slice of a thread that does not run leaves room for a boost by every other thread. -/
structure SliceOk (s : Sys) : Prop where
  boost : s.BoostOk
  fits : ∀ u, s.Live u → (s.k.slices u).Fits
  pos : ∀ u, s.Live u → 0 < (s.k.slices u).working
  room : ∀ u v, s.k.runPtr ≠ some u → v ≠ u → s.Live v →
    (s.k.slices u).BoostFits (s.k.slices v).base ∧ (s.k.slices u).BoostFits (s.k.slices v).fixed

/-- The thread that runs can boost every other one. -/
theorem SliceOk.boostFits (h : s.SliceOk) (hr : s.k.runPtr = some t) (ht : s.pc t ≠ .none) (hne : u ≠ t) :
    (s.k.slices u).BoostFits (s.k.slices t).fixed := by
  refine (h.room u t ?_ hne.symm (.inr ht)).2
  rw [hr]
  exact fun he => hne (Option.some.inj he).symm

theorem SliceOk.reslice (h : s.SliceOk) (hs : s.Reslice a s' u) (hu : s'.Live u) :
    (s'.k.slices u).Fits ∧ 0 < (s'.k.slices u).working := by
  cases hs with
  | keep hp hx =>
      rw [hx]
      exact ⟨h.fits u (hu.imp_right hp), h.pos u (hu.imp_right hp)⟩
  | fresh i _ p hp _ hx =>
      rw [hx]
      exact ⟨Slice.fresh_fits p hp, Nat.pos_of_ne_zero hp⟩
  | moves t hp hr ht hm =>
      have hf := h.fits t (.inr ht)
      have hl : s.Live u := hu.imp_right hp
      exact ⟨hm.fits hf (h.fits u hl), hm.pos hf (h.boostFits hr ht) (h.pos u hl)⟩

/-- No call takes room away from a thread that does not run. -/
theorem SliceOk.keeps_room (h : s.SliceOk) (hs : s.Reslice a s' u) (hne : s.k.runPtr ≠ some u)
    {check : Nat} (hc : check < wordSize) (hfits : (s.k.slices u).BoostFits check) :
    (s'.k.slices u).BoostFits check := by
  cases hs with
  | keep _ hx =>
      rw [hx]
      exact hfits
  | fresh i _ p _ _ hx =>
      rw [hx]
      exact Slice.Full.boostFits (show _ = _ from rfl) hc
  | moves t _ hr ht hm =>
      have hut : u ≠ t := by
        rintro rfl
        exact hne hr
      exact hm.boostFits hut (h.boostFits hr ht hut) hc hfits

theorem SliceOk.room_of_reslice (h : s.SliceOk) (hg : s.SliceGuard a) (hs : ∀ w, s.Reslice a s' w)
    {v : TaskId} (hne : s.k.runPtr ≠ some u) (hvu : v ≠ u) (hv : s'.Live v) :
    (s'.k.slices u).BoostFits (s'.k.slices v).base ∧
      (s'.k.slices u).BoostFits (s'.k.slices v).fixed := by
  have hold : ∀ w, w ≠ u → s.Live w →
      ((s.k.slices w).base < wordSize ∧ (s.k.slices u).BoostFits (s.k.slices w).base) ∧
        (s.k.slices w).fixed < wordSize ∧ (s.k.slices u).BoostFits (s.k.slices w).fixed := by
    intro w hwu hw
    have hf := h.fits w hw
    have hroom := h.room u w hne hwu hw
    exact ⟨⟨hf.base_lt, hroom.1⟩, hf.fixed_lt, hroom.2⟩
  -- the priorities of `v` are those of threads that were there, or that of a new thread
  have hnew : ((s'.k.slices v).base < wordSize ∧ (s.k.slices u).BoostFits (s'.k.slices v).base) ∧
      (s'.k.slices v).fixed < wordSize ∧ (s.k.slices u).BoostFits (s'.k.slices v).fixed := by
    cases hs v with
    | keep hp hx =>
        rw [hx]
        exact hold v hvu (hv.imp_right hp)
    | fresh i _ p _ hc hx =>
        rw [hx]
        have hfits := hg.2.1 _ hc u hne
        exact ⟨⟨p.isLt, hfits⟩, p.isLt, hfits⟩
    | moves t hp hr ht hm =>
        have htu : t ≠ u := by
          rintro rfl
          exact hne hr
        exact hm.priorities (P := fun p => p < wordSize ∧ (s.k.slices u).BoostFits p)
          (hold t htu (.inr ht)) (hold v hvu (hv.imp_right hp))
  exact ⟨h.keeps_room (hs u) hne hnew.1.1 hnew.1.2, h.keeps_room (hs u) hne hnew.2.1 hnew.2.2⟩

theorem spent_pos {k : Kernel} (h : 0 < (k.slices t).fixed) : 0 < (k.spent t).working := by
  unfold Kernel.spent
  split
  · exact h
  · rename_i ho
    exact Nat.pos_of_ne_zero (not_or.1 ho).2

theorem spent_priorities {k : Kernel} :
    (k.spent t).base = (k.slices t).base ∧ (k.spent t).fixed = (k.slices t).fixed := by
  unfold Kernel.spent
  split <;> exact ⟨rfl, rfl⟩

theorem SliceOk.tick {sp : Addr} (h : s.SliceOk) (hg : s.SliceGuard (.tick sp))
    (hs : s.step (.tick sp) = some (e, s')) :
    (∀ u, s'.Live u → (s'.k.slices u).Fits ∧ 0 < (s'.k.slices u).working) ∧
      ∀ u v, s'.k.runPtr ≠ some u → v ≠ u → s'.Live v →
        (s'.k.slices u).BoostFits (s'.k.slices v).base ∧
          (s'.k.slices u).BoostFits (s'.k.slices v).fixed := by
  have hl : s'.Live = s.Live := by
    unfold Live
    rw [(tick_of_step hs).2]
  rw [hl]
  obtain ⟨t, hr⟩ := tick_running hs
  rcases Nat.eq_zero_or_pos (save s.k sp).osUpdate.runQueue.taskActiveCnt with hc | hc
  · rw [(tick_of_empty hs hc).2]
    refine ⟨fun u hu => ⟨h.fits u hu, h.pos u hu⟩, fun u v _ hvu hv => ?_⟩
    rcases eq_or_ne s.k.runPtr (some u) with he | hne
    · exact hg.2.2 hc u he v hvu hv
    · exact h.room u v hne hvu hv
  · obtain ⟨hrun, hx⟩ := tick_of_run hs hr hc
    have hslices : ∀ u, (save s.k sp).osUpdate.slices u = s.k.slices u := by
      intro u
      rw [Kernel.osUpdate_slices]
      rfl
    refine ⟨fun u hu => ?_, fun u v hne hvu hv => ?_⟩
    · rw [hx]
      split
      · rename_i he
        have hf : ((save s.k sp).osUpdate.slices t).Fits := by
          rw [hslices, ← he]
          exact h.fits u hu
        exact ⟨spent_fits hf, spent_pos hf.fixed_pos⟩
      · exact ⟨h.fits u hu, h.pos u hu⟩
    · have hprio : (s'.k.slices v).base = (s.k.slices v).base ∧
          (s'.k.slices v).fixed = (s.k.slices v).fixed := by
        rw [hx]
        split
        · rename_i he
          rw [spent_priorities.1, spent_priorities.2, hslices, he]
          exact ⟨rfl, rfl⟩
        · exact ⟨rfl, rfl⟩
      rw [hprio.1, hprio.2, hx]
      split
      · rename_i he
        have ho : (save s.k sp).osUpdate.TurnOver t := by
          by_contra ho
          rw [hrun, if_neg ho, he] at hne
          exact hne rfl
        have hfull : ((save s.k sp).osUpdate.spent t).Full := by
          rw [Kernel.spent, if_pos ho]
          rfl
        exact ⟨hfull.boostFits (h.fits v hv).base_lt, hfull.boostFits (h.fits v hv).fixed_lt⟩
      · rename_i he
        apply h.room u v _ hvu hv
        rw [hr]
        exact fun heq => he (Option.some.inj heq).symm

theorem SliceOk.step (h : s.SliceOk) (hg : s.SliceGuard a) (hs : s.step a = some (e, s')) :
    s'.SliceOk := by
  have hb := h.boost.step hg.1 hs
  by_cases ha : ∀ sp, a ≠ .tick sp
  · have hx := fun u => step_reslice u hs ha
    exact ⟨hb, fun u hu => (h.reslice (hx u) hu).1, fun u hu => (h.reslice (hx u) hu).2,
      fun u v hne hvu hv => h.room_of_reslice hg hx (mt (step_runPtr hs ha) hne) hvu hv⟩
  · simp only [not_forall, not_not] at ha
    obtain ⟨sp, rfl⟩ := ha
    obtain ⟨hx, hroom⟩ := h.tick hg hs
    exact ⟨hb, fun u hu => (hx u hu).1, fun u hu => (hx u hu).2, hroom⟩

theorem boot_sliceOk (vals : Nat → Nat) : (boot vals).SliceOk := by
  have hidle : (boot vals).k.slices .idle = Slice.fresh 1 := rfl
  have hlive : ∀ u, (boot vals).Live u → u = .idle := fun u hu => hu.resolve_right fun hn => hn rfl
  have hfull : ∀ u, ((boot vals).k.slices u).Full := by
    intro u
    cases u <;> rfl
  refine ⟨boot_boostOk vals, fun u hu => ?_, fun u hu => ?_, fun u v _ _ hv => ?_⟩
  · rw [hlive u hu, hidle]
    exact Slice.fresh_fits 1 (by decide)
  · rw [hlive u hu, hidle]
    exact Nat.one_pos
  · rw [hlive v hv, hidle]
    exact ⟨(hfull u).boostFits (by decide), (hfull u).boostFits (by decide)⟩

theorem run_sliceOk (hr : (system vals).Run SliceGuard h s) : s.SliceOk := by
  refine hr.invariant (P := fun _ s => s.SliceOk) ?_ ?_
  · rintro s rfl
    exact boot_sliceOk vals
  · exact fun _ _ _ _ _ hok hg hs => hok.step hg hs

/-- Neither the additions of `mtx_lock` to a time slice nor the decrements of `os_next` wrap. -/
theorem slices_never_wrap (hr : (system vals).Run SliceGuard h s) :
    (∀ t, s.Live t → 1 ≤ (s.k.slices t).working ∧ 1 ≤ (s.k.slices t).fixed) ∧
    (∀ t m u, s.k.runPtr = some t → (s.k.mtxs m).holder = some u →
      (s.k.slices u).fixed < (s.k.slices t).fixed →
        (s.k.slices u).working + ((s.k.slices t).fixed - (s.k.slices u).fixed) < wordSize) ∧
    ∀ t sp, s.k.runPtr = some t → 1 ≤ ((save s.k sp).osUpdate.thrds t).workingPrio := by
  have hok := run_sliceOk hr
  have hrun : ∀ t, s.k.runPtr = some t → s.Live t := hok.boost.within.runPtr
  refine ⟨fun t ht => ⟨hok.pos t ht, (hok.fits t ht).fixed_pos⟩, ?_, ?_⟩
  · intro t m u ht _ hlt
    have hut : u ≠ t := by
      rintro rfl
      exact absurd hlt (Nat.lt_irrefl _)
    have hne : s.k.runPtr ≠ some u := by
      rw [ht]
      exact fun he => hut (Option.some.inj he).symm
    exact ((hok.room u t hne hut.symm (hrun t ht)).2.working hlt).1
  · intro t sp ht
    have hx : (save s.k sp).osUpdate.slices t = s.k.slices t :=
      congrFun (Kernel.osUpdate_slices (save s.k sp)) t
    exact Nat.lt_of_lt_of_eq (hok.pos t (hrun t ht)) (congrArg Slice.working hx).symm

/-- The holder of a mutex has blocked as the last thread that could run, with five ticks left and
priority 1. There is room for a boost by the thread that runs now. -/
theorem slices_never_wrap_three_threads :
    ∃ h s, (system fun _ => 0).Run SliceGuard h s ∧ (s.k.mtxs 0).holder = some (.slot 15) ∧
      s.k.runPtr = some (.slot 13) ∧ (s.k.slices (.slot 15)).working = 5 ∧
      (s.k.slices (.slot 15)).fixed < (s.k.slices (.slot 13)).fixed ∧
      (s.k.slices (.slot 15)).working +
        ((s.k.slices (.slot 13)).fixed - (s.k.slices (.slot 15)).fixed) < wordSize ∧
      1 ≤ (s.k.slices (.slot 15)).working := by
  rcases exists_run (fun _ => 0) (G := SliceGuard)
    [.create 1 1, .create 1 5, .create 1 2, .launch, .call (.mtxLock 0), .call (.mtxLock 1), .tick 0,
      .call (.mtxLock 0), .tick 0, .call (.thrdSleep 3), .resume, .tick 0, .call (.mtxUnlock 1),
      .call (.semWait 0), .tick 0, .tick 0, .resume]
    (P := fun _ s => (s.k.mtxs 0).holder = some (.slot 15) ∧ s.k.runPtr = some (.slot 13) ∧
      (s.k.slices (.slot 15)).working = 5 ∧
      (s.k.slices (.slot 15)).fixed < (s.k.slices (.slot 13)).fixed ∧ s.pc (.slot 15) ≠ .none)
    (by decide +kernel) with ⟨h, s, hr, hh, hrun, hw, hlt, hpc⟩
  obtain ⟨hpos, hboost, -⟩ := slices_never_wrap hr
  exact ⟨h, s, hr, hh, hrun, hw, hlt, hboost _ _ _ hrun hh hlt, (hpos _ (.inr hpc)).1⟩

/-- A thread with 65535 ticks left and priority 1 blocks as the last one. Nothing reloads its slice,
and the next boost wraps it to 0. -/
theorem boost_wraps :
    ∃ h s e s', (system fun _ => 0).Run (fun _ _ => True) h s ∧
      s.k.runPtr = some (.slot 13) ∧ (s.k.mtxs 0).holder = some (.slot 15) ∧
      (s.k.slices (.slot 15)).working +
        ((s.k.slices (.slot 13)).fixed - (s.k.slices (.slot 15)).fixed) = wordSize ∧
      s.step (.call (.mtxLock 0)) = some (e, s') ∧ s'.pc (.slot 15) ≠ .none ∧
      (s'.k.slices (.slot 15)).working = 0 := by
  rcases exists_step (fun _ => 0) (G := fun _ _ => True)
    [.create 1 1, .create 1 65535, .create 1 2, .launch, .call (.mtxLock 0), .call (.mtxLock 1),
      .tick 0, .call (.mtxLock 0), .tick 0, .call (.thrdSleep 3), .resume, .tick 0,
      .call (.mtxUnlock 1), .call (.semWait 0), .tick 0, .tick 0, .resume]
    (.call (.mtxLock 0))
    (P := fun s => s.k.runPtr = some (.slot 13) ∧ (s.k.mtxs 0).holder = some (.slot 15) ∧
      (s.k.slices (.slot 15)).working +
        ((s.k.slices (.slot 13)).fixed - (s.k.slices (.slot 15)).fixed) = wordSize)
    (Q := fun _ s' => s'.pc (.slot 15) ≠ .none ∧ (s'.k.slices (.slot 15)).working = 0)
    (by decide +kernel) with ⟨h, s, e, s', hr, ⟨hrun, hh, hsum⟩, hs, hpc, hw⟩
  exact ⟨h, s, e, s', hr, hrun, hh, hsum, hs, hpc, hw⟩

end Sys

end MsTos
