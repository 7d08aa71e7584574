-- SUMMARY: The two modes of a barrier, filling and draining: how its counter and the values of its turnstiles follow from where the threads stand.
import MsTos.Barrier
import MsTos.Lib.Tally

namespace MsTos

namespace BarrierPc

/-! ## Weights -/

/-- Past the second turnstile of a round, and not counted in the next one yet. -/
def before : BarrierPc → ℤ
  | .outside | .lock .phase1 | .locking .phase1 | .count .phase1 | .ret => 1
  | _ => 0

/-- Counted in the phase, and not past its turnstile. -/
def waits (q : Phase) : BarrierPc → ℤ
  | .release p _ | .unlock p | .pass p | .passing p => if p = q then 1 else 0
  | _ => 0

/-- Between the turnstiles, and not counted in the second phase yet. -/
def inside : BarrierPc → ℤ
  | .lock .phase2 | .locking .phase2 | .count .phase2 => 1
  | _ => 0

/-- Counted in the phase, and `sem_wait` on its turnstile is still to come. -/
def early (q : Phase) : BarrierPc → ℤ
  | .release p _ | .unlock p | .pass p => if p = q then 1 else 0
  | _ => 0

/-- In the loop of the phase. -/
def releasing (q : Phase) : BarrierPc → ℤ
  | .release p _ => if p = q then 1 else 0
  | _ => 0

/-- The posts that the loop of the phase has still to make. -/
def owed (value : Nat) (q : Phase) : BarrierPc → ℤ
  | .release p i => if p = q then ((value - i : Nat) : ℤ) else 0
  | _ => 0

/-- Between the two operations on the mutex. -/
def critical : BarrierPc → ℤ
  | .count _ | .release _ _ | .unlock _ => 1
  | _ => 0

/-- In the first phase of a round, up to the turnstile. -/
def late : BarrierPc → Nat
  | .lock .phase1 | .locking .phase1 | .count .phase1 => 1
  | .release p _ | .unlock p | .pass p | .passing p => if p = .phase1 then 1 else 0
  | _ => 0

section

variable (value : Nat) (q : Phase) (a : BarrierPc)

theorem before_nonneg : 0 ≤ before a := by
  unfold before
  split <;> simp

theorem waits_nonneg : 0 ≤ waits q a := by
  cases a <;> simp [waits] <;> split <;> simp

theorem inside_nonneg : 0 ≤ inside a := by
  unfold inside
  split <;> simp

theorem early_nonneg : 0 ≤ early q a := by
  cases a <;> simp [early] <;> split <;> simp

theorem releasing_nonneg : 0 ≤ releasing q a := by
  unfold releasing
  split
  · split <;> simp
  · simp

theorem owed_nonneg : 0 ≤ owed value q a := by
  unfold owed
  split
  · split <;> simp
  · simp

theorem critical_nonneg : 0 ≤ critical a := by
  unfold critical
  split <;> simp

theorem early_le_waits : early q a ≤ waits q a := by
  cases a <;> simp [early, waits]
  split <;> simp

theorem early_le_one : early q a ≤ 1 := by
  cases a <;> simp [early] <;> split <;> simp

theorem releasing_le_early : releasing q a ≤ early q a := by
  cases a <;> simp [releasing, early] <;> split <;> simp

theorem late_eq_one (h : waits .phase1 a = 1) : late a = 1 := by
  cases a with
  | release p i | unlock p | pass p | passing p =>
      cases p with
      | phase1 => rfl
      | phase2 => cases h
  | _ => cases h

theorem late_eq_zero (hb : before a = 0) (hw : waits .phase1 a = 0) : late a = 0 := by
  cases a with
  | release p i | unlock p | pass p | passing p =>
      cases p with
      | phase1 => cases hw
      | phase2 => rfl
  | lock p | locking p | count p =>
      cases p with
      | phase1 => cases hb
      | phase2 => rfl
  | _ => rfl

/-- Outside `barrier_wait`, a thread has made no call that it has not returned from. -/
theorem late_le : late a ≤ if a = .outside then 0 else 1 := by
  cases a with
  | outside | ret => exact Nat.zero_le _
  | lock p | locking p | count p | release p i | unlock p | pass p | passing p =>
      cases p with
      | phase1 => exact Nat.le_refl 1
      | phase2 => exact Nat.zero_le 1

/-- Every thread is in one of the four stages of a round. -/
theorem stages : before a + waits .phase1 a + inside a + waits .phase2 a = 1 := by
  rcases a with - | p | p | p | ⟨p, i⟩ | p | p | p | - <;> try cases p
  all_goals rfl

end

end BarrierPc

open BarrierPc

/-! ## Modes -/

section

variable (parts : Finset TaskId) (value G : Nat) (pc : TaskId → BarrierPc) (cnt : Nat) (v₁ v₂ : ℤ)
  (ent : TaskId → Nat)

/-- Round `G` is over, and threads gather for the next one; some may still have to pass the second
turnstile of round `G`. -/
structure Fill : Prop where
  noneInside : tally parts inside pc = 0
  noneReleasing : tally parts (releasing .phase1) pc = 0
  count : (cnt : ℤ) = tally parts (waits .phase1) pc
  lt : cnt < value
  turnstile1 : v₁ = tally parts (early .phase1) pc - tally parts (waits .phase1) pc
  turnstile2 : v₂ = tally parts (early .phase2) pc - tally parts (owed value .phase2) pc
  rounds : ∀ t ∈ parts, ent t = G + late (pc t)

/-- All threads are in round `G + 1`, and none can leave it. -/
structure Drain : Prop where
  noneBefore : tally parts before pc = 0
  noneReleasing : tally parts (releasing .phase2) pc = 0
  count : (cnt : ℤ) = tally parts (waits .phase1) pc + tally parts inside pc
  pos : 0 < cnt
  turnstile1 : v₁ = tally parts (early .phase1) pc - tally parts (owed value .phase1) pc
  turnstile2 : v₂ = tally parts (early .phase2) pc - tally parts (waits .phase2) pc
  rounds : ∀ t ∈ parts, ent t = G + 1

/-- The barrier is in one of its modes. -/
def InMode : Prop := Fill parts value G pc cnt v₁ v₂ ent ∨ Drain parts value G pc cnt v₁ v₂ ent

end

variable {parts : Finset TaskId} {value G : Nat} {pc : TaskId → BarrierPc} {cnt : Nat} {v₁ v₂ : ℤ}
  {ent : TaskId → Nat} {t : TaskId} {a b : BarrierPc}

/-- The stages of all threads. -/
theorem tally_stages (pc : TaskId → BarrierPc) (hc : parts.card = value) :
    tally parts before pc + tally parts (waits .phase1) pc + tally parts inside pc +
      tally parts (waits .phase2) pc = value := by
  rw [← tally_add, ← tally_add, ← tally_add, tally_const stages, hc]

/-- Without threads in the loop of a phase, no posts are owed. -/
theorem tally_owed {q : Phase} (h : tally parts (releasing q) pc = 0) :
    tally parts (owed value q) pc = 0 := by
  apply tally_eq_zero
  intro u hu
  have hr := eq_zero_of_tally (releasing_nonneg q) h hu
  cases hp : pc u <;> simp_all [releasing, owed]

/-- The two points count the same in every respect. -/
structure Alike (value : Nat) (a b : BarrierPc) : Prop where
  before : before a = before b
  inside : inside a = inside b
  waits : ∀ q, waits q a = waits q b
  early : ∀ q, early q a = early q b
  owed : ∀ q, owed value q a = owed value q b
  releasing : ∀ q, releasing q a = releasing q b
  late : late a = late b

/-- A thread that moves between points that count the same leaves the mode alone. -/
theorem InMode.alike (h : InMode parts value G pc cnt v₁ v₂ ent) (ht : t ∈ parts) (hpc : pc t = a)
    (hab : Alike value a b) : InMode parts value G (Function.update pc t b) cnt v₁ v₂ ent := by
  have hw : ∀ {w : BarrierPc → ℤ}, w a = w b →
      tally parts w (Function.update pc t b) = tally parts w pc := by
    intro w hw
    rw [tally_update ht, hpc, hw]
    omega
  have hl : ∀ u, late (Function.update pc t b u) = late (pc u) := by
    intro u
    rw [Function.update_apply]
    split
    · rename_i hu
      rw [hu, hpc, hab.late]
    · rfl
  rcases h with h | h
  · left
    constructor
    · rw [hw hab.inside, h.noneInside]
    · rw [hw (hab.releasing _), h.noneReleasing]
    · rw [hw (hab.waits _), h.count]
    · exact h.lt
    · rw [hw (hab.early _), hw (hab.waits _), h.turnstile1]
    · rw [hw (hab.early _), hw (hab.owed _), h.turnstile2]
    · intro u hu
      rw [hl, h.rounds u hu]
  · right
    constructor
    · rw [hw hab.before, h.noneBefore]
    · rw [hw (hab.releasing _), h.noneReleasing]
    · rw [hw (hab.waits _), hw hab.inside, h.count]
    · exact h.pos
    · rw [hw (hab.early _), hw (hab.owed _), h.turnstile1]
    · rw [hw (hab.early _), hw (hab.waits _), h.turnstile2]
    · exact h.rounds

/-! ## Moves -/

/-- A thread that is still to be counted is in a round that fills. -/
theorem InMode.fill (h : InMode parts value G pc cnt v₁ v₂ ent) (ht : t ∈ parts)
    (hb : before (pc t) = 1) : Fill parts value G pc cnt v₁ v₂ ent := by
  rcases h with h | h
  · exact h
  · have := eq_zero_of_tally before_nonneg h.noneBefore ht
    omega

theorem InMode.drain (h : InMode parts value G pc cnt v₁ v₂ ent) (ht : t ∈ parts)
    (hb : inside (pc t) = 1) : Drain parts value G pc cnt v₁ v₂ ent := by
  rcases h with h | h
  · have := eq_zero_of_tally inside_nonneg h.noneInside ht
    omega
  · exact h

/-- A thread that enters `barrier_wait`. -/
theorem Fill.enter (h : Fill parts value G pc cnt v₁ v₂ ent) (ht : t ∈ parts)
    (hpc : pc t = .outside) : Fill parts value G (Function.update pc t (.lock .phase1)) cnt v₁ v₂
      (Function.update ent t (ent t + 1)) := by
  constructor
  · rw [tally_update ht, hpc, h.noneInside]
    rfl
  · rw [tally_update ht, hpc, h.noneReleasing]
    rfl
  · rw [tally_update ht, hpc, h.count]
    simp [waits]
  · exact h.lt
  · simp [tally_update ht, hpc, h.turnstile1, waits, early]
  · simp [tally_update ht, hpc, h.turnstile2, early, owed]
  · intro u hu
    have hr := h.rounds u hu
    rcases eq_or_ne u t with rfl | hne
    · rw [hpc] at hr
      simp [hr, late]
    · simp [hne, hr]

/-- A thread that is counted in the first phase, and is not the last one. -/
theorem Fill.arrive (h : Fill parts value G pc cnt v₁ v₂ ent) (ht : t ∈ parts)
    (hpc : pc t = .count .phase1) (hlt : cnt + 1 < value) :
    Fill parts value G (Function.update pc t (.unlock .phase1)) (cnt + 1) v₁ v₂ ent := by
  have hc := h.count
  have h₁ := h.turnstile1
  have h₂ := h.turnstile2
  constructor
  · rw [tally_update ht, hpc, h.noneInside]
    rfl
  · rw [tally_update ht, hpc, h.noneReleasing]
    rfl
  · simp [tally_update ht, hpc, waits, hc]
  · exact hlt
  · simp [tally_update ht, hpc, waits, early]
    omega
  · simp [tally_update ht, hpc, early, owed, h₂]
  · intro u hu
    have hr := h.rounds u hu
    rcases eq_or_ne u t with rfl | hne
    · rw [hpc] at hr
      simp [hr, late]
    · simp [hne, hr]

/-- The last thread that is counted in the first phase. -/
theorem Fill.complete (h : Fill parts value G pc cnt v₁ v₂ ent) (hc : parts.card = value)
    (ht : t ∈ parts) (hpc : pc t = .count .phase1) (hlast : cnt + 1 = value) :
    Drain parts value G (Function.update pc t (.release .phase1 0)) (cnt + 1) v₁ v₂ ent := by
  have hstages := tally_stages pc hc
  have hcount := h.count
  have hb := le_tally before_nonneg (f := pc) ht
  have h0 := h.noneInside
  rw [hpc] at hb
  have hb : 1 ≤ tally parts before pc := hb
  have hz : 0 ≤ tally parts (waits .phase2) pc := tally_nonneg (waits_nonneg _)
  -- the thread itself is the only one that had not been counted
  have hbefore : tally parts before pc = 1 := by omega
  have hwaits : tally parts (waits .phase2) pc = 0 := by omega
  have hzero : ∀ {w : BarrierPc → ℤ}, (∀ b, 0 ≤ w b) → (∀ b, w b ≤ waits .phase2 b) →
      tally parts w pc = 0 := by
    intro w hw hle
    have h₁ : tally parts w pc ≤ _ := tally_mono hle
    have h₂ : 0 ≤ tally parts w pc := tally_nonneg hw
    omega
  have hearly := hzero (early_nonneg .phase2) (early_le_waits .phase2)
  have hrel := hzero (releasing_nonneg .phase2) fun b =>
    le_trans (releasing_le_early .phase2 b) (early_le_waits .phase2 b)
  have howed : tally parts (owed value .phase2) pc = 0 := tally_owed hrel
  constructor
  · rw [tally_update ht, hpc, hbefore]
    rfl
  · rw [tally_update ht, hpc, hrel]
    rfl
  · simp [tally_update ht, hpc, waits, inside, h0, hcount]
  · exact Nat.succ_pos cnt
  · have h₁ := h.turnstile1
    have howed₁ : tally parts (owed value .phase1) pc = 0 := tally_owed h.noneReleasing
    simp [tally_update ht, hpc, early, owed, howed₁]
    omega
  · have h₂ := h.turnstile2
    simp [tally_update ht, hpc, early, waits]
    omega
  · intro u hu
    have hr := h.rounds u hu
    have hl : late (pc u) = 1 := by
      rcases eq_or_ne u t with rfl | hne
      · rw [hpc]
        rfl
      · -- all others have been counted
        have h₁ : before (pc u) = 0 := by
          have hu' := eq_zero_of_tally (s := parts) (f := Function.update pc t (.release .phase1 0))
            before_nonneg (by rw [tally_update ht, hpc, hbefore]; rfl) hu
          rwa [Function.update_of_ne hne] at hu'
        have h₂ := eq_zero_of_tally inside_nonneg h0 hu
        have h₃ := eq_zero_of_tally (waits_nonneg .phase2) hwaits hu
        have h₄ := stages (pc u)
        have h₅ : waits .phase1 (pc u) = 1 := by omega
        exact late_eq_one _ h₅
    rw [hr, hl]

/-- The counter of a barrier that drains is at most the number of threads. -/
theorem Drain.le (h : Drain parts value G pc cnt v₁ v₂ ent) (hc : parts.card = value) :
    cnt ≤ value := by
  have hstages := tally_stages pc hc
  have hcount := h.count
  have hb : 0 ≤ tally parts before pc := tally_nonneg before_nonneg
  have hz : 0 ≤ tally parts (waits .phase2) pc := tally_nonneg (waits_nonneg _)
  omega

/-- A thread that leaves the second phase, and is not the last one. -/
theorem Drain.depart (h : Drain parts value G pc (cnt + 1) v₁ v₂ ent) (ht : t ∈ parts)
    (hpc : pc t = .count .phase2) (hpos : 0 < cnt) :
    Drain parts value G (Function.update pc t (.unlock .phase2)) cnt v₁ v₂ ent := by
  have hc := h.count
  have h₁ := h.turnstile1
  have h₂ := h.turnstile2
  constructor
  · rw [tally_update ht, hpc, h.noneBefore]
    rfl
  · rw [tally_update ht, hpc, h.noneReleasing]
    rfl
  · simp [tally_update ht, hpc, waits, inside]
    push_cast at hc
    omega
  · exact hpos
  · simp [tally_update ht, hpc, early, owed, h₁]
  · simp [tally_update ht, hpc, early, waits]
    omega
  · exact h.rounds

/-- The last thread that leaves the second phase. -/
theorem Drain.complete (h : Drain parts value G pc 1 v₁ v₂ ent) (hc : parts.card = value)
    (ht : t ∈ parts) (hpc : pc t = .count .phase2) :
    Fill parts value (G + 1) (Function.update pc t (.release .phase2 0)) 0 v₁ v₂ ent := by
  have hstages := tally_stages pc hc
  have hcount := h.count
  have hi := le_tally inside_nonneg (f := pc) ht
  have h0 := h.noneBefore
  rw [hpc] at hi
  have hi : 1 ≤ tally parts inside pc := hi
  have hx : 0 ≤ tally parts (waits .phase1) pc := tally_nonneg (waits_nonneg _)
  push_cast at hcount
  -- the thread itself is the only one that had not been counted
  have hinside : tally parts inside pc = 1 := by omega
  have hwaits : tally parts (waits .phase1) pc = 0 := by omega
  have hzero : ∀ {w : BarrierPc → ℤ}, (∀ b, 0 ≤ w b) → (∀ b, w b ≤ waits .phase1 b) →
      tally parts w pc = 0 := by
    intro w hw hle
    have h₁ : tally parts w pc ≤ _ := tally_mono hle
    have h₂ : 0 ≤ tally parts w pc := tally_nonneg hw
    omega
  have hearly := hzero (early_nonneg .phase1) (early_le_waits .phase1)
  have hrel := hzero (releasing_nonneg .phase1) fun b =>
    le_trans (releasing_le_early .phase1 b) (early_le_waits .phase1 b)
  have howed : tally parts (owed value .phase1) pc = 0 := tally_owed hrel
  constructor
  · rw [tally_update ht, hpc, hinside]
    rfl
  · rw [tally_update ht, hpc, hrel]
    rfl
  · simp [tally_update ht, hpc, waits, hwaits]
  · rw [← hc]
    exact Finset.card_pos.2 ⟨t, ht⟩
  · have h₁ := h.turnstile1
    simp [tally_update ht, hpc, early, waits]
    omega
  · have h₂ := h.turnstile2
    have howed₂ : tally parts (owed value .phase2) pc = 0 := tally_owed h.noneReleasing
    simp [tally_update ht, hpc, early, owed, howed₂]
    omega
  · intro u hu
    have hr := h.rounds u hu
    have hl : late (Function.update pc t (.release .phase2 0) u) = 0 := by
      rcases eq_or_ne u t with rfl | hne
      · rw [Function.update_self]
        rfl
      · -- all others have left the first phase
        rw [Function.update_of_ne hne]
        have h₁ := eq_zero_of_tally before_nonneg h0 hu
        have h₃ := eq_zero_of_tally (waits_nonneg .phase1) hwaits hu
        exact late_eq_zero _ h₁ h₃
    rw [hr, hl]

/-! ## Turnstiles -/

/-- A thread that is blocked at a turnstile. -/
theorem InMode.block (h : InMode parts value G pc cnt v₁ v₂ ent) (ht : t ∈ parts) {q : Phase}
    (hpc : pc t = .pass q) : InMode parts value G (Function.update pc t (.passing q)) cnt
      (if q = .phase1 then v₁ - 1 else v₁) (if q = .phase2 then v₂ - 1 else v₂) ent := by
  have hl : ∀ u, late (Function.update pc t (.passing q) u) = late (pc u) := by
    intro u
    rw [Function.update_apply]
    split
    · rename_i hu
      rw [hu, hpc]
      rfl
    · rfl
  rcases h with h | h
  · left
    have h₁ := h.turnstile1
    have h₂ := h.turnstile2
    constructor
    · rw [tally_update ht, hpc, h.noneInside]
      rfl
    · rw [tally_update ht, hpc, h.noneReleasing]
      rfl
    · simp [tally_update ht, hpc, waits, h.count]
    · exact h.lt
    · cases q <;> simp [tally_update ht, hpc, waits, early] <;> omega
    · cases q <;> simp [tally_update ht, hpc, early, owed] <;> omega
    · intro u hu
      rw [hl, h.rounds u hu]
  · right
    have h₁ := h.turnstile1
    have h₂ := h.turnstile2
    constructor
    · rw [tally_update ht, hpc, h.noneBefore]
      rfl
    · rw [tally_update ht, hpc, h.noneReleasing]
      rfl
    · simp [tally_update ht, hpc, waits, inside, h.count]
    · exact h.pos
    · cases q <;> simp [tally_update ht, hpc, early, owed] <;> omega
    · cases q <;> simp [tally_update ht, hpc, waits, early] <;> omega
    · exact h.rounds

/-- The first turnstile is shut while the barrier fills. -/
theorem Fill.shut (h : Fill parts value G pc cnt v₁ v₂ ent) : v₁ ≤ 0 := by
  have hle : tally parts (early .phase1) pc ≤ tally parts (waits .phase1) pc :=
    tally_mono (early_le_waits _)
  have := h.turnstile1
  omega

/-- The second turnstile is shut while the barrier drains. -/
theorem Drain.shut (h : Drain parts value G pc cnt v₁ v₂ ent) : v₂ ≤ 0 := by
  have hle : tally parts (early .phase2) pc ≤ tally parts (waits .phase2) pc :=
    tally_mono (early_le_waits _)
  have := h.turnstile2
  omega

/-- A turnstile has at most one permit for every thread. -/
theorem InMode.turnstile_le (h : InMode parts value G pc cnt v₁ v₂ ent) :
    v₁ ≤ parts.card ∧ v₂ ≤ parts.card := by
  have hcard : tally parts (fun _ => 1) pc = parts.card := tally_const fun _ => rfl
  have hle : ∀ q, tally parts (early q) pc ≤ parts.card := by
    intro q
    rw [← hcard]
    exact tally_mono (early_le_one q)
  have h₁ := hle .phase1
  have h₂ := hle .phase2
  have hpos : ∀ {w : BarrierPc → ℤ}, (∀ b, 0 ≤ w b) → 0 ≤ tally parts w pc := tally_nonneg
  rcases h with h | h
  · have hv₁ := h.shut
    have hv₂ := h.turnstile2
    have := hpos (owed_nonneg value .phase2)
    omega
  · have hv₁ := h.turnstile1
    have hv₂ := h.shut
    have := hpos (owed_nonneg value .phase1)
    omega

/-- A thread that gets through the first turnstile, with a permit (`d = 1`) or woken up. -/
theorem Drain.through (h : Drain parts value G pc cnt v₁ v₂ ent) (ht : t ∈ parts) {d : ℤ}
    (hpc : pc t = .pass .phase1 ∧ d = 1 ∨ pc t = .passing .phase1 ∧ d = 0) :
    Drain parts value G (Function.update pc t (.lock .phase2)) cnt (v₁ - d) v₂ ent := by
  have hw : before (pc t) = 0 ∧ releasing .phase2 (pc t) = 0 ∧ waits .phase1 (pc t) = 1 ∧
      inside (pc t) = 0 ∧ early .phase1 (pc t) = d ∧ owed value .phase1 (pc t) = 0 ∧
      early .phase2 (pc t) = 0 ∧ waits .phase2 (pc t) = 0 := by
    rcases hpc with ⟨hpc, rfl⟩ | ⟨hpc, rfl⟩ <;> rw [hpc] <;> exact ⟨rfl, rfl, rfl, rfl, rfl, rfl, rfl, rfl⟩
  obtain ⟨hb, hr, hx, hi, he, ho, he₂, hz⟩ := hw
  have h₁ := h.turnstile1
  have h₂ := h.turnstile2
  have hc := h.count
  constructor
  case noneBefore =>
    rw [tally_update ht, hb, h.noneBefore]
    rfl
  case noneReleasing =>
    rw [tally_update ht, hr, h.noneReleasing]
    rfl
  case pos => exact h.pos
  case rounds => exact h.rounds
  all_goals
    simp only [tally_update ht, hx, hi, he, ho, he₂, hz]
    simp [waits, inside, early, owed]
    omega

/-- A thread that gets through the second turnstile, with a permit (`d = 1`) or woken up. -/
theorem Fill.through (h : Fill parts value G pc cnt v₁ v₂ ent) (ht : t ∈ parts) {d : ℤ}
    (hpc : pc t = .pass .phase2 ∧ d = 1 ∨ pc t = .passing .phase2 ∧ d = 0) :
    Fill parts value G (Function.update pc t .ret) cnt v₁ (v₂ - d) ent := by
  have h₁ := h.turnstile1
  have h₂ := h.turnstile2
  have hc := h.count
  have hl : ∀ u, late (Function.update pc t .ret u) = late (pc u) := by
    intro u
    rw [Function.update_apply]
    split
    · rename_i hu
      rw [hu]
      rcases hpc with ⟨hpc, -⟩ | ⟨hpc, -⟩ <;> rw [hpc] <;> rfl
    · rfl
  have hrounds : ∀ u ∈ parts, ent u = G + late (Function.update pc t .ret u) := by
    intro u hu
    rw [hl, h.rounds u hu]
  have hw : inside (pc t) = 0 ∧ releasing .phase1 (pc t) = 0 ∧ waits .phase1 (pc t) = 0 ∧
      early .phase1 (pc t) = 0 ∧ early .phase2 (pc t) = d ∧ owed value .phase2 (pc t) = 0 := by
    rcases hpc with ⟨hpc, rfl⟩ | ⟨hpc, rfl⟩ <;> rw [hpc] <;> exact ⟨rfl, rfl, rfl, rfl, rfl, rfl⟩
  obtain ⟨hi, hr, hx, he₁, he, ho⟩ := hw
  constructor
  case noneInside =>
    rw [tally_update ht, hi, h.noneInside]
    rfl
  case noneReleasing =>
    rw [tally_update ht, hr, h.noneReleasing]
    rfl
  case lt => exact h.lt
  case rounds => exact hrounds
  all_goals
    simp only [tally_update ht, hx, he₁, he, ho]
    simp [waits, early, owed]
    omega

/-- A thread in the loop of a phase opens the turnstile of this phase. -/
theorem InMode.releases (h : InMode parts value G pc cnt v₁ v₂ ent) (ht : t ∈ parts) {q : Phase}
    {i : Nat} (hpc : pc t = .release q i) :
    q = .phase1 ∧ Drain parts value G pc cnt v₁ v₂ ent ∨
      q = .phase2 ∧ Fill parts value G pc cnt v₁ v₂ ent := by
  rcases h with h | h
  · cases q with
    | phase1 =>
        have := eq_zero_of_tally (releasing_nonneg _) h.noneReleasing ht
        rw [hpc] at this
        cases this
    | phase2 => exact .inr ⟨rfl, h⟩
  · cases q with
    | phase1 => exact .inl ⟨rfl, h⟩
    | phase2 =>
        have := eq_zero_of_tally (releasing_nonneg _) h.noneReleasing ht
        rw [hpc] at this
        cases this

theorem Drain.release (h : Drain parts value G pc cnt v₁ v₂ ent) (ht : t ∈ parts) {i : Nat}
    (hpc : pc t = .release .phase1 i) (hi : i < value) :
    Drain parts value G (Function.update pc t (.release .phase1 (i + 1))) cnt (v₁ + 1) v₂ ent := by
  have h₁ := h.turnstile1
  have h₂ := h.turnstile2
  have hc := h.count
  constructor
  case pos => exact h.pos
  case rounds => exact h.rounds
  all_goals
    simp [tally_update ht, hpc, before, releasing, waits, inside, early, owed, h.noneBefore,
      h.noneReleasing]
    try omega

theorem Fill.release (h : Fill parts value G pc cnt v₁ v₂ ent) (ht : t ∈ parts) {i : Nat}
    (hpc : pc t = .release .phase2 i) (hi : i < value) :
    Fill parts value G (Function.update pc t (.release .phase2 (i + 1))) cnt v₁ (v₂ + 1) ent := by
  have h₁ := h.turnstile1
  have h₂ := h.turnstile2
  have hc := h.count
  constructor
  case lt => exact h.lt
  case rounds =>
    intro u hu
    rw [h.rounds u hu, Function.update_apply]
    split
    · rename_i hu
      rw [hu, hpc]
      rfl
    · rfl
  all_goals
    simp [tally_update ht, hpc, releasing, waits, inside, early, owed, h.noneInside,
      h.noneReleasing]
    try omega

/-- A thread leaves the loop of a phase. -/
theorem InMode.released (h : InMode parts value G pc cnt v₁ v₂ ent) (ht : t ∈ parts) {q : Phase}
    {i : Nat} (hpc : pc t = .release q i) (hi : ¬ i < value) :
    InMode parts value G (Function.update pc t (.unlock q)) cnt v₁ v₂ ent := by
  have h0 : value - i = 0 := by omega
  rcases h.releases ht hpc with ⟨rfl, h⟩ | ⟨rfl, h⟩
  · right
    have h₁ := h.turnstile1
    have h₂ := h.turnstile2
    have hc := h.count
    constructor
    case pos => exact h.pos
    case rounds => exact h.rounds
    all_goals
      simp [tally_update ht, hpc, before, releasing, waits, inside, early, owed, h.noneBefore,
        h.noneReleasing, h0]
      try omega
  · left
    have h₁ := h.turnstile1
    have h₂ := h.turnstile2
    have hc := h.count
    constructor
    case lt => exact h.lt
    case rounds =>
      intro u hu
      rw [h.rounds u hu, Function.update_apply]
      split
      · rename_i hu
        rw [hu, hpc]
        rfl
      · rfl
    all_goals
      simp [tally_update ht, hpc, releasing, waits, inside, early, owed, h.noneInside,
        h.noneReleasing, h0]
      try omega

end MsTos
