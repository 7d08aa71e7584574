-- SUMMARY: The invariant of a barrier and its participants, with rendezvous, reset and the absence of deadlock.
import MsTos.BarrierModes

namespace MsTos

open BarrierPc

/-! ## The threads blocked at a barrier -/

/-- The participants at a point that satisfies `Q` are the threads blocked on the semaphore. -/
def Sem.BlocksAt (sem : Sem) (parts : Finset TaskId) (pc : TaskId → BarrierPc)
    (Q : BarrierPc → Prop) : Prop :=
  sem.Blocks fun t => t ∈ parts ∧ Q (pc t)

/-- Blocked on the mutex of the barrier. -/
def OnMutex (a : BarrierPc) : Prop := ∃ p, a = .locking p

/-- Blocked at the turnstile of a phase. -/
def OnTurnstile (p : Phase) (a : BarrierPc) : Prop := a = .passing p

theorem not_onMutex {a : BarrierPc} (h : a.blocked = false) : ¬ OnMutex a := by
  rintro ⟨p, rfl⟩
  cases h

theorem not_onTurnstile (p : Phase) {a : BarrierPc} (h : a.blocked = false) :
    ¬ OnTurnstile p a := by
  rintro rfl
  cases h

namespace Sem.BlocksAt

variable {sem : Sem} {parts : Finset TaskId} {pc : TaskId → BarrierPc} {Q : BarrierPc → Prop}
  {t u : TaskId} {a b : BarrierPc}

/-- A thread that is not blocked on the semaphore moves to a point where it is not. -/
theorem frame (h : sem.BlocksAt parts pc Q) (ha : ¬ Q (pc t)) (hb : ¬ Q b) :
    sem.BlocksAt parts (Function.update pc t b) Q := by
  refine Sem.Blocks.congr h fun u => ?_
  rcases eq_or_ne u t with rfl | hne
  · simp [ha, hb]
  · rw [Function.update_of_ne hne]

theorem not_blocked (h : sem.BlocksAt parts pc Q) (hv : 0 ≤ sem.val) (ht : t ∈ parts) :
    ¬ Q (pc t) := fun hQ => Sem.Blocks.not_of_nonneg h hv ⟨ht, hQ⟩

/-- A participant that calls `sem_wait`, and goes to `b` if it blocks. -/
theorem wait (h : sem.BlocksAt parts pc Q) (hc : parts.card ≤ numThreads) (ht : t ∈ parts)
    (ha : ¬ Q (pc t)) (hle : sem.val ≤ 32767) (hQ : Q b) :
    0 < sem.val ∧ sem.wait t = (false, { sem with val := sem.val - 1 }) ∧
        Sem.BlocksAt { sem with val := sem.val - 1 } parts pc Q ∨
      sem.val ≤ 0 ∧ ∃ wq, sem.wait t = (true, ⟨sem.val - 1, wq⟩) ∧
        Sem.BlocksAt ⟨sem.val - 1, wq⟩ parts (Function.update pc t b) Q := by
  rcases lt_or_ge 0 sem.val with hv | hv
  · exact .inl ⟨hv, Sem.Blocks.wait_pass h hv hle⟩
  · right
    have hlen : sem.wq.toList.length ≤ (parts.erase t).card := by
      apply Sem.Blocks.length_le h
      rintro u ⟨hu, hQu⟩
      refine Finset.mem_erase.2 ⟨?_, hu⟩
      rintro rfl
      exact ha hQu
    have hlt := Finset.card_erase_lt_of_mem ht
    obtain ⟨wq, hw, hB⟩ := Sem.Blocks.wait_block h hv (fun hB => ha hB.2) (by omega)
    refine ⟨hv, wq, hw, hB.congr fun u => ?_⟩
    rcases eq_or_ne u t with rfl | hne
    · simp [ht, hQ]
    · simp [hne]

/-- A `sem_post`, whose woken thread goes on at `b`. -/
theorem post (h : sem.BlocksAt parts pc Q) (hlt : sem.val < 32767) :
    0 ≤ sem.val ∧ sem.post = (none, { sem with val := sem.val + 1 }) ∧
        Sem.BlocksAt { sem with val := sem.val + 1 } parts pc Q ∨
      sem.val < 0 ∧ ∃ u wq, u ∈ parts ∧ Q (pc u) ∧ sem.post = (some u, ⟨sem.val + 1, wq⟩) ∧
        ∀ b, ¬ Q b → Sem.BlocksAt ⟨sem.val + 1, wq⟩ parts (Function.update pc u b) Q := by
  rcases lt_or_ge sem.val 0 with hv | hv
  · right
    obtain ⟨u, wq, -, ⟨hu, hQu⟩, hp, hB⟩ := Sem.Blocks.post_wake h hv
    refine ⟨hv, u, wq, hu, hQu, hp, fun b hb => hB.congr fun x => ?_⟩
    rcases eq_or_ne x u with rfl | hne
    · simp [hb]
    · simp [hne]
  · exact .inl ⟨hv, Sem.Blocks.post_free h hv hlt⟩

end Sem.BlocksAt

/-! ## The invariant -/

/-- The calls of `barrier_wait` that `t` has made. -/
def entered (t : TaskId) (h : List (Option BarrierEvent)) : Nat := h.count (some (.enters t))

/-- The calls of `barrier_wait` that have returned to `t`. -/
def returned (t : TaskId) (h : List (Option BarrierEvent)) : Nat := h.count (some (.returns t))

/-- A step that no event belongs to. -/
theorem entered_none (h : List (Option BarrierEvent)) :
    (fun t => entered t (none :: h)) = fun t => entered t h := by
  funext t
  simp [entered]

namespace BarrierSys

@[simp] theorem setPc_barrier (s : BarrierSys) (t : TaskId) (a : BarrierPc) :
    (s.setPc t a).barrier = s.barrier := rfl

@[simp] theorem setPc_pc (s : BarrierSys) (t : TaskId) (a : BarrierPc) :
    (s.setPc t a).pc = Function.update s.pc t a := rfl

/-- What holds of a barrier for `value` threads at every time. -/
structure Inv (parts : Finset TaskId) (value : Nat) (h : List (Option BarrierEvent))
    (s : BarrierSys) : Prop where
  val : s.barrier.val = value
  mutex : s.barrier.mutex.BlocksAt parts s.pc OnMutex
  turnstile : ∀ p, (s.barrier.turnstile p).BlocksAt parts s.pc (OnTurnstile p)
  /-- The mutex is free, or one thread has it. -/
  owner : tally parts critical s.pc = 0 ∧ s.barrier.mutex.val = 1 ∨
    tally parts critical s.pc = 1 ∧ s.barrier.mutex.val ≤ 0
  mode : ∃ G, InMode parts value G s.pc s.barrier.count s.barrier.turnstile1.val
    s.barrier.turnstile2.val fun t => entered t h
  calls : ∀ t ∈ parts, entered t h = returned t h + if s.pc t = .outside then 0 else 1

variable {parts : Finset TaskId} {value : Nat} {h : List (Option BarrierEvent)} {s : BarrierSys}
  {t u : TaskId} {a b : BarrierPc} {p : Phase} {i : Nat}

section

variable (hs : s.Inv parts value h) (ht : t ∈ parts)

include hs ht

/-- A thread that is in `barrier_wait` and stays there. -/
theorem Inv.calls_move (hb : b ≠ .outside) (ha : s.pc t ≠ .outside) :
    ∀ u ∈ parts, entered u (none :: h) = returned u (none :: h) +
      if Function.update s.pc t b u = .outside then 0 else 1 := by
  intro u hu
  have hr := hs.calls u hu
  have h₁ : entered u (none :: h) = entered u h := by simp [entered]
  have h₂ : returned u (none :: h) = returned u h := by simp [returned]
  rw [h₁, h₂, hr]
  rcases eq_or_ne u t with rfl | hne
  · simp [hb, ha]
  · rw [Function.update_of_ne hne]

/-- A thread moves between points at which it is not blocked, and has the mutex at both or at
neither. -/
theorem Inv.move {n : Nat} (ha : (s.pc t).blocked = false) (hb : b.blocked = false)
    (hc : critical (s.pc t) = critical b) (hao : s.pc t ≠ .outside) (hbo : b ≠ .outside)
    (hm : ∃ G, InMode parts value G (Function.update s.pc t b) n s.barrier.turnstile1.val
      s.barrier.turnstile2.val fun t => entered t h) :
    ({ s with barrier := { s.barrier with count := n } }.setPc t b).Inv parts value (none :: h) where
  val := hs.val
  mutex := hs.mutex.frame (not_onMutex ha) (not_onMutex hb)
  turnstile q := by
    have := (hs.turnstile q).frame (t := t) (not_onTurnstile q ha) (not_onTurnstile q hb)
    cases q <;> exact this
  owner := by
    have ho := hs.owner
    rw [setPc_pc, tally_update ht, hc, sub_add_cancel]
    exact ho
  mode := by
    rw [entered_none]
    exact hm
  calls := hs.calls_move ht hbo hao

/-- A thread calls `barrier_wait`. -/
theorem Inv.enter (hpc : s.pc t = .outside) :
    (s.setPc t (.lock .phase1)).Inv parts value (some (.enters t) :: h) where
  val := hs.val
  mutex := hs.mutex.frame (by simp [hpc, OnMutex]) (by simp [OnMutex])
  turnstile p := (hs.turnstile p).frame (by simp [hpc, OnTurnstile]) (by simp [OnTurnstile])
  owner := by
    have hc := hs.owner
    rw [setPc_pc, setPc_barrier, tally_update ht, hpc]
    simpa [critical] using hc
  mode := by
    obtain ⟨G, hm⟩ := hs.mode
    refine ⟨G, .inl ?_⟩
    have he : (fun u => entered u (some (.enters t) :: h)) =
        Function.update (fun u => entered u h) t (entered t h + 1) := by
      funext u
      rcases eq_or_ne u t with rfl | hne
      · simp [entered]
      · rw [Function.update_of_ne hne]
        simp [entered, hne.symm]
    rw [he]
    exact (hm.fill ht (by rw [hpc]; rfl)).enter ht hpc
  calls := by
    intro u hu
    have hr := hs.calls u hu
    show _ = _ + if Function.update s.pc t _ u = _ then 0 else 1
    rcases eq_or_ne u t with rfl | hne
    · simp_all [entered, returned]
    · simpa [entered, returned, hne, hne.symm] using hr

/-- A thread returns from `barrier_wait`. -/
theorem Inv.leave (hpc : s.pc t = .ret) :
    (s.setPc t .outside).Inv parts value (some (.returns t) :: h) where
  val := hs.val
  mutex := hs.mutex.frame (by simp [hpc, OnMutex]) (by simp [OnMutex])
  turnstile p := (hs.turnstile p).frame (by simp [hpc, OnTurnstile]) (by simp [OnTurnstile])
  owner := by
    have hc := hs.owner
    rw [setPc_pc, setPc_barrier, tally_update ht, hpc]
    simpa [critical] using hc
  mode := by
    obtain ⟨G, hm⟩ := hs.mode
    have he : (fun u => entered u (some (.returns t) :: h)) = fun u => entered u h := by
      funext u
      simp [entered]
    refine ⟨G, ?_⟩
    rw [he]
    exact hm.alike ht hpc ⟨rfl, rfl, fun _ => rfl, fun _ => rfl, fun _ => rfl, fun _ => rfl, rfl⟩
  calls := by
    intro u hu
    have hr := hs.calls u hu
    show _ = _ + if Function.update s.pc t _ u = _ then 0 else 1
    rcases eq_or_ne u t with rfl | hne
    · simp_all [entered, returned]
    · simpa [entered, returned, hne, hne.symm] using hr

/-- A thread that calls `sem_wait(&barrier->mutex)`. -/
theorem Inv.waitMutex (hc : parts.card ≤ numThreads) (hpc : s.pc t = .lock p) :
    (s.waitMutex t p).Inv parts value (none :: h) := by
  have hle : s.barrier.mutex.val ≤ 32767 := by
    rcases hs.owner with ⟨-, ho⟩ | ⟨-, ho⟩ <;> omega
  have hlock : Alike value (.lock p) (.count p) ∧ Alike value (.lock p) (.locking p) := by
    cases p <;> exact ⟨⟨rfl, rfl, fun _ => rfl, fun _ => rfl, fun _ => rfl, fun _ => rfl, rfl⟩,
      ⟨rfl, rfl, fun _ => rfl, fun _ => rfl, fun _ => rfl, fun _ => rfl, rfl⟩⟩
  have ha : s.pc t ≠ .outside := by
    rw [hpc]
    simp
  obtain ⟨G, hm⟩ := hs.mode
  rcases hs.mutex.wait hc ht (by simp [hpc, OnMutex]) hle (b := .locking p) ⟨p, rfl⟩ with
    ⟨hv, hw, hB⟩ | ⟨hv, wq, hw, hB⟩
  · -- the mutex is free
    have ho : tally parts critical s.pc = 0 ∧ s.barrier.mutex.val = 1 := by
      rcases hs.owner with ho | ⟨-, ho⟩
      · exact ho
      · omega
    unfold BarrierSys.waitMutex
    rw [hw]
    exact {
      val := hs.val
      mutex := hB.frame (by simp [hpc, OnMutex]) (by simp [OnMutex, BarrierPc.resume])
      turnstile := fun q => (hs.turnstile q).frame (by simp [hpc, OnTurnstile])
        (by simp [OnTurnstile, BarrierPc.resume])
      owner := by
        right
        rw [setPc_pc, setPc_barrier, tally_update ht, hpc, ho.1]
        exact ⟨rfl, by dsimp only; omega⟩
      mode := ⟨G, by rw [entered_none]; exact hm.alike ht hpc hlock.1⟩
      calls := hs.calls_move ht (by simp [BarrierPc.resume]) ha }
  · -- another thread has the mutex
    have ho : tally parts critical s.pc = 1 := by
      rcases hs.owner with ⟨-, ho⟩ | ho
      · omega
      · exact ho.1
    unfold BarrierSys.waitMutex
    rw [hw]
    exact {
      val := hs.val
      mutex := hB
      turnstile := fun q => (hs.turnstile q).frame (by simp [hpc, OnTurnstile])
        (by simp [OnTurnstile])
      owner := by
        right
        rw [setPc_pc, setPc_barrier, tally_update ht, hpc, ho]
        exact ⟨rfl, by dsimp only; omega⟩
      mode := ⟨G, by rw [entered_none]; exact hm.alike ht hpc hlock.2⟩
      calls := hs.calls_move ht (by simp) ha }

/-- A thread that calls `sem_post(&barrier->mutex)`. -/
theorem Inv.postMutex (hpc : s.pc t = .unlock p) :
    (s.setPc t (.pass p)).postMutex.Inv parts value (none :: h) := by
  have hle : s.barrier.mutex.val < 32767 := by
    rcases hs.owner with ⟨-, ho⟩ | ⟨-, ho⟩ <;> omega
  have ha : s.pc t ≠ .outside := by
    rw [hpc]
    simp
  -- the thread has the mutex
  have hown := le_tally critical_nonneg (f := s.pc) ht
  rw [hpc] at hown
  have hown : 1 ≤ tally parts critical s.pc := hown
  have ho : tally parts critical s.pc = 1 ∧ s.barrier.mutex.val ≤ 0 := by
    rcases hs.owner with ⟨ho, -⟩ | ho
    · omega
    · exact ho
  have hrest : tally parts critical (Function.update s.pc t (.pass p)) = 0 := by
    rw [tally_update ht, hpc, ho.1]
    rfl
  have hm' : s.barrier.mutex.BlocksAt parts (Function.update s.pc t (.pass p)) OnMutex :=
    hs.mutex.frame (by simp [hpc, OnMutex]) (by simp [OnMutex])
  have ht' : ∀ q, (s.barrier.turnstile q).BlocksAt parts (Function.update s.pc t (.pass p))
      (OnTurnstile q) := fun q =>
    (hs.turnstile q).frame (by simp [hpc, OnTurnstile]) (by simp [OnTurnstile])
  obtain ⟨G, hm⟩ := hs.mode
  have hmode : InMode parts value G (Function.update s.pc t (.pass p)) s.barrier.count
      s.barrier.turnstile1.val s.barrier.turnstile2.val fun u => entered u (none :: h) := by
    rw [entered_none]
    exact hm.alike ht hpc ⟨rfl, rfl, fun _ => rfl, fun _ => rfl, fun _ => rfl, fun _ => rfl, rfl⟩
  have hcalls := hs.calls_move ht (b := .pass p) (by simp) ha
  rcases hm'.post hle with ⟨hv, hp, hB⟩ | ⟨hv, u, wq, hu, ⟨q, hq⟩, hp, hB⟩
  · unfold BarrierSys.postMutex
    rw [show (s.setPc t (.pass p)).barrier.mutex.post = _ from hp]
    exact {
      val := hs.val
      mutex := hB
      turnstile := ht'
      owner := .inl ⟨hrest, by show s.barrier.mutex.val + 1 = 1; omega⟩
      mode := ⟨G, hmode⟩
      calls := hcalls }
  · unfold BarrierSys.postMutex
    rw [show (s.setPc t (.pass p)).barrier.mutex.post = _ from hp]
    have hres : ((s.setPc t (.pass p)).pc u).resume = .count q := by
      rw [setPc_pc, hq]
      rfl
    have hlike : Alike value (.locking q) (.count q) := by
      cases q <;> exact ⟨rfl, rfl, fun _ => rfl, fun _ => rfl, fun _ => rfl, fun _ => rfl, rfl⟩
    unfold wake
    dsimp only
    rw [hres]
    exact {
      val := hs.val
      mutex := hB _ (by simp [OnMutex])
      turnstile := fun r => (ht' r).frame (by simp [hq, OnTurnstile]) (by simp [OnTurnstile])
      owner := by
        right
        refine ⟨?_, by show s.barrier.mutex.val + 1 ≤ 0; omega⟩
        show tally parts critical (Function.update (Function.update s.pc t _) u _) = 1
        rw [tally_update hu, hrest, hq]
        rfl
      mode := ⟨G, hmode.alike hu hq hlike⟩
      calls := by
        intro x hx
        show _ = _ + if Function.update (Function.update s.pc t _) u _ x = _ then 0 else 1
        rw [hcalls x hx]
        rcases eq_or_ne x u with rfl | hne
        · simp [hq]
        · rw [Function.update_of_ne hne] }

/-- A thread that counts itself in the first phase. -/
theorem Inv.countFirst (hc : parts.card = value) (hle : value ≤ numThreads)
    (hpc : s.pc t = .count .phase1) :
    ({ s with barrier := (s.barrier.last .phase1).2 }.setPc t
      (if (s.barrier.last .phase1).1 then .release .phase1 0 else .unlock .phase1)).Inv parts value
        (none :: h) := by
  obtain ⟨G, hm⟩ := hs.mode
  have hf := hm.fill ht (by rw [hpc]; rfl)
  have hlt := hf.lt
  simp only [numThreads] at hle
  have hcnt : (s.barrier.last .phase1).2 = { s.barrier with count := s.barrier.count + 1 } := by
    unfold Barrier.last
    dsimp only
    rw [Nat.mod_eq_of_lt (by simp only [wordSize]; omega)]
  have hlast : (s.barrier.last .phase1).1 = decide (s.barrier.count + 1 = value) := by
    unfold Barrier.last
    dsimp only
    rw [Nat.mod_eq_of_lt (by simp only [wordSize]; omega), hs.val]
  have ha : s.pc t ≠ .outside := by
    rw [hpc]
    simp
  rw [hcnt, hlast]
  by_cases hv : s.barrier.count + 1 = value
  · rw [if_pos (decide_eq_true hv)]
    exact hs.move ht (by rw [hpc]; rfl) rfl (by rw [hpc]; rfl) ha (by simp)
      ⟨G, .inr (hf.complete hc ht hpc hv)⟩
  · rw [decide_eq_false hv, if_neg Bool.false_ne_true]
    exact hs.move ht (by rw [hpc]; rfl) rfl (by rw [hpc]; rfl) ha (by simp)
      ⟨G, .inl (hf.arrive ht hpc (by omega))⟩

/-- A thread that counts itself out in the second phase. -/
theorem Inv.countSecond (hc : parts.card = value) (hle : value ≤ numThreads)
    (hpc : s.pc t = .count .phase2) :
    ({ s with barrier := (s.barrier.last .phase2).2 }.setPc t
      (if (s.barrier.last .phase2).1 then .release .phase2 0 else .unlock .phase2)).Inv parts value
        (none :: h) := by
  obtain ⟨G, hm⟩ := hs.mode
  have hd := hm.drain ht (by rw [hpc]; rfl)
  have hcount := hd.le hc
  obtain ⟨n, hn⟩ : ∃ n, s.barrier.count = n + 1 := ⟨_, (Nat.succ_pred hd.pos.ne').symm⟩
  simp only [numThreads] at hle
  have hmod : (s.barrier.count + (wordSize - 1)) % wordSize = n := by
    simp only [wordSize]
    omega
  have hcnt : (s.barrier.last .phase2).2 = { s.barrier with count := n } := by
    unfold Barrier.last
    dsimp only
    rw [hmod]
  have hlast : (s.barrier.last .phase2).1 = decide (n = 0) := by
    unfold Barrier.last
    dsimp only
    rw [hmod]
  have ha : s.pc t ≠ .outside := by
    rw [hpc]
    simp
  rw [hcnt, hlast]
  rw [hn] at hd
  by_cases hv : n = 0
  · subst hv
    rw [if_pos (decide_eq_true rfl)]
    exact hs.move ht (by rw [hpc]; rfl) rfl (by rw [hpc]; rfl) ha (by simp)
      ⟨G + 1, .inl (hd.complete hc ht hpc)⟩
  · rw [decide_eq_false hv, if_neg Bool.false_ne_true]
    exact hs.move ht (by rw [hpc]; rfl) rfl (by rw [hpc]; rfl) ha (by simp)
      ⟨G, .inr (hd.depart ht hpc (Nat.pos_of_ne_zero hv))⟩

/-- A thread leaves the loop of a phase. -/
theorem Inv.released (hpc : s.pc t = .release p i) (hi : ¬ i < value) :
    (s.setPc t (.unlock p)).Inv parts value (none :: h) := by
  obtain ⟨G, hm⟩ := hs.mode
  exact hs.move ht (n := s.barrier.count) (by rw [hpc]; rfl) rfl (by rw [hpc]; rfl)
    (by rw [hpc]; simp) (by simp) ⟨G, hm.released ht hpc hi⟩

/-- A thread that calls `sem_wait` on the turnstile of a phase. -/
theorem Inv.waitTurnstile (hc : parts.card ≤ numThreads) (hpc : s.pc t = .pass p) :
    (s.waitTurnstile t p).Inv parts value (none :: h) := by
  have ha : s.pc t ≠ .outside := by
    rw [hpc]
    simp
  have hcrit : ∀ a, critical a = 0 → tally parts critical (Function.update s.pc t a) =
      tally parts critical s.pc := by
    intro a ha
    rw [tally_update ht, hpc, ha]
    show _ - 0 + 0 = _
    omega
  obtain ⟨G, hm⟩ := hs.mode
  have hle : (s.barrier.turnstile p).val ≤ 32767 := by
    have := hm.turnstile_le
    have : parts.card ≤ 16 := hc
    cases p
    · show s.barrier.turnstile1.val ≤ _
      omega
    · show s.barrier.turnstile2.val ≤ _
      omega
  rcases (hs.turnstile p).wait hc ht (by simp [hpc, OnTurnstile]) hle (b := .passing p) rfl with
    ⟨hv, hw, hB⟩ | ⟨hv, wq, hw, hB⟩
  · -- the turnstile is open
    unfold BarrierSys.waitTurnstile
    rw [hw]
    have hres : (BarrierPc.passing p).resume.blocked = false ∧
        critical (BarrierPc.passing p).resume = 0 ∧ (BarrierPc.passing p).resume ≠ .outside := by
      cases p <;> exact ⟨rfl, rfl, by simp [BarrierPc.resume]⟩
    exact {
      val := by cases p <;> exact hs.val
      mutex := by
        have := hs.mutex.frame (t := t) (b := (BarrierPc.passing p).resume)
          (by simp [hpc, OnMutex]) (not_onMutex hres.1)
        cases p <;> exact this
      turnstile := fun q => by
        have h₁ := (hs.turnstile q).frame (t := t) (b := (BarrierPc.passing p).resume)
          (by simp [hpc, OnTurnstile]) (not_onTurnstile q hres.1)
        have h₂ := hB.frame (t := t) (b := (BarrierPc.passing p).resume)
          (by simp [hpc, OnTurnstile]) (not_onTurnstile p hres.1)
        cases p <;> cases q <;> first | exact h₁ | exact h₂
      owner := by
        have ho := hs.owner
        rw [← hcrit _ hres.2.1] at ho
        cases p <;> exact ho
      mode := by
        rw [entered_none]
        rcases hm with hf | hd
        · cases p with
          | phase1 =>
              have : s.barrier.turnstile1.val ≤ 0 := hf.shut
              exact absurd hv (not_lt.2 this)
          | phase2 => exact ⟨G, .inl (hf.through ht (.inl ⟨hpc, rfl⟩))⟩
        · cases p with
          | phase1 => exact ⟨G, .inr (hd.through ht (.inl ⟨hpc, rfl⟩))⟩
          | phase2 =>
              have : s.barrier.turnstile2.val ≤ 0 := hd.shut
              exact absurd hv (not_lt.2 this)
      calls := hs.calls_move ht hres.2.2 ha }
  · unfold BarrierSys.waitTurnstile
    rw [hw]
    exact {
      val := by cases p <;> exact hs.val
      mutex := by
        have := hs.mutex.frame (t := t) (b := .passing p) (by simp [hpc, OnMutex]) (by simp [OnMutex])
        cases p <;> exact this
      turnstile := fun q => by
        rcases eq_or_ne q p with rfl | hne
        · cases q <;> exact hB
        · have h₁ := (hs.turnstile q).frame (t := t) (b := .passing p)
            (by simp [hpc, OnTurnstile]) (by simp [OnTurnstile, hne.symm])
          cases p <;> cases q <;> first | exact h₁ | exact absurd rfl hne
      owner := by
        have ho := hs.owner
        rw [← hcrit (.passing p) rfl] at ho
        cases p <;> exact ho
      mode := by
        rw [entered_none]
        have hb := hm.block ht hpc
        cases p <;> exact ⟨G, hb⟩
      calls := hs.calls_move ht (by simp) ha }

/-- A thread in the loop of a phase calls `sem_post` on the turnstile. -/
theorem Inv.postTurnstile (hc : parts.card ≤ numThreads) (hpc : s.pc t = .release p i)
    (hi : i < value) :
    ((s.setPc t (.release p (i + 1))).postTurnstile p).Inv parts value (none :: h) := by
  have ha : s.pc t ≠ .outside := by
    rw [hpc]
    simp
  obtain ⟨G, hm⟩ := hs.mode
  have hm₁ : InMode parts value G (Function.update s.pc t (.release p (i + 1))) s.barrier.count
      (if p = .phase1 then s.barrier.turnstile1.val + 1 else s.barrier.turnstile1.val)
      (if p = .phase2 then s.barrier.turnstile2.val + 1 else s.barrier.turnstile2.val)
      fun u => entered u h := by
    rcases hm.releases ht hpc with ⟨rfl, hd⟩ | ⟨rfl, hf⟩
    · exact .inr (hd.release ht hpc hi)
    · exact .inl (hf.release ht hpc hi)
  have hlt : (s.barrier.turnstile p).val < 32767 := by
    have hle := hm₁.turnstile_le
    have : parts.card ≤ 16 := hc
    cases p
    · show s.barrier.turnstile1.val < _
      simp at hle
      omega
    · show s.barrier.turnstile2.val < _
      simp at hle
      omega
  have hcalls := hs.calls_move ht (b := .release p (i + 1)) (by simp) ha
  have howner : tally parts critical (Function.update s.pc t (.release p (i + 1))) =
      tally parts critical s.pc := by
    rw [tally_update ht, hpc]
    show _ - 1 + 1 = _
    omega
  have hmutex : s.barrier.mutex.BlocksAt parts (Function.update s.pc t (.release p (i + 1)))
      OnMutex := hs.mutex.frame (by simp [hpc, OnMutex]) (by simp [OnMutex])
  have hturn : ∀ q, (s.barrier.turnstile q).BlocksAt parts
      (Function.update s.pc t (.release p (i + 1))) (OnTurnstile q) := fun q =>
    (hs.turnstile q).frame (by simp [hpc, OnTurnstile]) (by simp [OnTurnstile])
  rcases (hturn p).post hlt with ⟨hv, hp, hB⟩ | ⟨hv, u, wq, hu, hq, hp, hB⟩
  · unfold BarrierSys.postTurnstile
    rw [show ((s.setPc t (.release p (i + 1))).barrier.turnstile p).post = _ from hp]
    exact {
      val := by cases p <;> exact hs.val
      mutex := by cases p <;> exact hmutex
      turnstile := fun q => by
        have h₁ := hturn q
        cases p <;> cases q <;> first | exact h₁ | exact hB
      owner := by
        have ho := hs.owner
        rw [← howner] at ho
        cases p <;> exact ho
      mode := by
        rw [entered_none]
        cases p <;> exact ⟨G, hm₁⟩
      calls := hcalls }
  · unfold BarrierSys.postTurnstile
    rw [show ((s.setPc t (.release p (i + 1))).barrier.turnstile p).post = _ from hp]
    have hq : Function.update s.pc t (.release p (i + 1)) u = .passing p := hq
    have hres : ((s.setPc t (.release p (i + 1))).pc u).resume = (BarrierPc.passing p).resume :=
      congrArg BarrierPc.resume hq
    have hpass : (BarrierPc.passing p).resume.blocked = false ∧
        critical (BarrierPc.passing p).resume = 0 ∧ (BarrierPc.passing p).resume ≠ .outside := by
      cases p <;> exact ⟨rfl, rfl, by simp [BarrierPc.resume]⟩
    unfold wake
    dsimp only
    rw [hres]
    exact {
      val := by cases p <;> exact hs.val
      mutex := by
        have := hmutex.frame (t := u) (b := (BarrierPc.passing p).resume) (by simp [hq, OnMutex])
          (not_onMutex hpass.1)
        cases p <;> exact this
      turnstile := fun q => by
        rcases eq_or_ne q p with rfl | hne
        · have := hB _ (not_onTurnstile q hpass.1)
          cases q <;> exact this
        · have h₁ := (hturn q).frame (t := u) (b := (BarrierPc.passing p).resume)
            (by simp [hq, OnTurnstile, hne.symm]) (not_onTurnstile q hpass.1)
          cases p <;> cases q <;> first | exact h₁ | exact absurd rfl hne
      owner := by
        have ho := hs.owner
        have he : tally parts critical (Function.update (Function.update s.pc t
            (.release p (i + 1))) u (BarrierPc.passing p).resume) = tally parts critical s.pc := by
          rw [tally_update hu, howner, hq, hpass.2.1]
          show _ - 0 + 0 = _
          omega
        rw [← he] at ho
        cases p <;> exact ho
      mode := by
        rw [entered_none]
        rcases hm.releases ht hpc with ⟨rfl, hd⟩ | ⟨rfl, hf⟩
        · have := (hd.release ht hpc hi).through hu (.inr ⟨hq, rfl⟩)
          rw [sub_zero] at this
          exact ⟨G, .inr this⟩
        · have := (hf.release ht hpc hi).through hu (.inr ⟨hq, rfl⟩)
          rw [sub_zero] at this
          exact ⟨G, .inl this⟩
      calls := by
        intro x hx
        show _ = _ + if Function.update (Function.update s.pc t _) u _ x = _ then 0 else 1
        rw [hcalls x hx]
        rcases eq_or_ne x u with rfl | hne
        · rw [Function.update_self, hq, if_neg hpass.2.2, if_neg (by simp)]
        · rw [Function.update_of_ne hne] }

end

/-! ## Runs -/

/-- Every step of a participant keeps the invariant. -/
theorem step_inv {s' : BarrierSys} {e : Option BarrierEvent} (hc : parts.card = value)
    (hle : value ≤ numThreads) (hi : s.Inv parts value h)
    (hs : (barrierSystem parts value).step s t = some (e, s')) : s'.Inv parts value (e :: h) := by
  obtain ⟨ht, hs⟩ := Option.ite_none_right_eq_some.1 hs
  have hcard : parts.card ≤ numThreads := hc.le.trans hle
  unfold stepThread at hs
  cases hpc : s.pc t with
  | outside =>
      rw [hpc] at hs
      cases hs
      exact hi.enter ht hpc
  | lock p =>
      rw [hpc] at hs
      cases hs
      exact hi.waitMutex ht hcard hpc
  | locking p | passing p =>
      rw [hpc] at hs
      cases hs
  | count p =>
      rw [hpc] at hs
      cases hs
      cases p with
      | phase1 => exact hi.countFirst ht hc hle hpc
      | phase2 => exact hi.countSecond ht hc hle hpc
  | release p i =>
      rw [hpc] at hs
      dsimp only at hs
      split at hs <;> rename_i hlt <;> rw [hi.val] at hlt <;> cases hs
      · exact hi.postTurnstile ht hcard hpc hlt
      · exact hi.released ht hpc hlt
  | unlock p =>
      rw [hpc] at hs
      cases hs
      exact hi.postMutex ht hpc
  | pass p =>
      rw [hpc] at hs
      cases hs
      exact hi.waitTurnstile ht hcard hpc
  | ret =>
      rw [hpc] at hs
      cases hs
      exact hi.leave ht hpc

theorem init_inv (hpos : 1 ≤ value) (hs : (barrierSystem parts value).init s) :
    s.Inv parts value [] := by
  obtain ⟨⟨b, hb⟩, hpc⟩ := hs
  unfold barrierInit at hb
  split at hb
  · cases hb
  · have hb : _ = s.barrier := congrArg Prod.snd hb
    have hzero : ∀ {w : BarrierPc → ℤ}, w .outside = 0 → tally parts w s.pc = 0 := by
      intro w hw
      apply tally_eq_zero
      intro u _
      rw [hpc, hw]
    have hsem : ∀ {n : Nat} {Q : BarrierPc → Prop}, n ≤ numThreads → ¬ Q .outside →
        (Sem.init n).BlocksAt parts s.pc Q := by
      intro n Q hn hQ
      refine (Sem.Blocks.init hn).congr fun u => ?_
      rw [hpc]
      simp [hQ]
    constructor
    case val => rw [← hb]
    case mutex =>
      rw [← hb]
      exact hsem (by decide) (by simp [OnMutex])
    case turnstile =>
      intro p
      rw [← hb]
      cases p <;> exact hsem (by decide) (by simp [OnTurnstile])
    case owner =>
      left
      refine ⟨hzero rfl, ?_⟩
      rw [← hb]
      rfl
    case mode =>
      refine ⟨0, .inl ?_⟩
      rw [← hb]
      constructor
      case lt => exact hpos
      case rounds =>
        intro u _
        rw [hpc]
        rfl
      case noneInside | noneReleasing => exact hzero rfl
      case count =>
        rw [hzero rfl]
        rfl
      all_goals
        rw [hzero rfl, hzero rfl]
        rfl
    case calls =>
      intro u _
      rw [hpc]
      rfl

theorem run_inv {G : BarrierSys → TaskId → Prop} (hc : parts.card = value) (hpos : 1 ≤ value)
    (hle : value ≤ numThreads) (hr : (barrierSystem parts value).Run G h s) :
    s.Inv parts value h :=
  hr.invariant (P := fun h s => s.Inv parts value h) (fun _ => init_inv hpos)
    fun _ _ _ _ _ hi _ hs => step_inv hc hle hi hs

/-- No thread returns from its `r`-th `barrier_wait` before all threads have called it `r` times,
and the counter stays between 0 and the number of threads. -/
theorem rendezvous {G : BarrierSys → TaskId → Prop} (hc : parts.card = value) (hpos : 1 ≤ value)
    (hle : value ≤ numThreads) (hr : (barrierSystem parts value).Run G h s) :
    (∀ t ∈ parts, ∀ u ∈ parts, returned t h ≤ entered u h) ∧ s.barrier.count ≤ value := by
  have hi := run_inv hc hpos hle hr
  rcases hi.mode with ⟨R, hf | hd⟩
  · refine ⟨?_, hf.lt.le⟩
    intro t ht u hu
    have h₁ := hf.rounds t ht
    have h₂ := hf.rounds u hu
    have h₃ := hi.calls t ht
    have hl := late_le (s.pc t)
    omega
  · refine ⟨?_, hd.le hc⟩
    intro t ht u hu
    have h₁ := hd.rounds t ht
    have h₂ := hd.rounds u hu
    have h₃ := hi.calls t ht
    omega

/-- Two threads `A` and `B` use a barrier for one round each, if the list of their steps allows it.
-/
theorem exists_round {P : List (Option BarrierEvent) → BarrierSys → Prop} (as : List TaskId)
    [∀ h s, Decidable (P h s)]
    (he : ((barrierSystem {.slot 15, .slot 14} 2).exec (fun _ _ => True)
      ⟨⟨0, 2, Sem.init 1, Sem.init 0, Sem.init 0⟩, fun _ => .outside⟩ [] as).any (fun r =>
        decide (P r.1 r.2)) = true) :
    ∃ h s, (barrierSystem {.slot 15, .slot 14} 2).Run (fun _ _ => True) h s ∧ P h s :=
  TransitionSystem.exists_run_of_exec (M := barrierSystem {.slot 15, .slot 14} 2)
    ⟨⟨⟨0, 0, Sem.init 0, Sem.init 0, Sem.init 0⟩, rfl⟩, fun _ => rfl⟩ as he

/-- `A` returns from its first `barrier_wait`. -/
theorem rendezvous_two_threads :
    ∃ h s, (barrierSystem {.slot 15, .slot 14} 2).Run (fun _ _ => True) h s ∧
      returned (.slot 15) h = 1 ∧ 1 ≤ entered (.slot 14) h := by
  rcases exists_round (P := fun h _ => returned (.slot 15) h = 1)
    (List.replicate 5 (.slot 15) ++ List.replicate 8 (.slot 14) ++ List.replicate 4 (.slot 15) ++
      List.replicate 7 (.slot 14) ++ [.slot 15]) (by decide +kernel) with ⟨h, s, hr, h1⟩
  have hle := (rendezvous rfl (by decide) (by decide) hr).1 (.slot 15) (by decide) (.slot 14)
    (by decide)
  exact ⟨h, s, hr, h1, h1 ▸ hle⟩

/-- Where no participant has the mutex, its value is 1 and nobody is blocked on it. -/
theorem Inv.mutex_free (hi : s.Inv parts value h) (hcrit : ∀ t ∈ parts, critical (s.pc t) = 0) :
    s.barrier.mutex.val = 1 := by
  rcases hi.owner with ⟨-, ho⟩ | ⟨ho, -⟩
  · exact ho
  · rw [tally_eq_zero hcrit] at ho
    cases ho

/-- A participant that is blocked while all are is blocked at a turnstile. -/
theorem Inv.all_passing (hi : s.Inv parts value h) (hb : ∀ t ∈ parts, (s.pc t).blocked = true) :
    ∀ t ∈ parts, ∃ p, s.pc t = .passing p := by
  intro t ht
  have hfree : s.barrier.mutex.val = 1 := by
    apply hi.mutex_free
    intro u hu
    have := hb u hu
    cases hp : s.pc u <;> simp_all [blocked, critical]
  have hn := hi.mutex.not_blocked (by omega) ht
  have := hb t ht
  cases hp : s.pc t <;> simp_all [blocked, OnMutex]

/-- Some participant is not blocked. -/
theorem Inv.not_all_blocked (hi : s.Inv parts value h) (hc : parts.card = value) :
    ¬ ∀ t ∈ parts, (s.pc t).blocked = true := by
  intro hb
  have hpass := hi.all_passing hb
  have hearly : ∀ q, tally parts (early q) s.pc = 0 := by
    intro q
    apply tally_eq_zero
    intro u hu
    obtain ⟨p, hp⟩ := hpass u hu
    rw [hp]
    rfl
  have howed : ∀ q, tally parts (owed value q) s.pc = 0 := by
    intro q
    apply tally_eq_zero
    intro u hu
    obtain ⟨p, hp⟩ := hpass u hu
    rw [hp]
    rfl
  -- the turnstile that is open has let everybody through
  have hother : ∀ p q, p ≠ q → (s.barrier.turnstile p).val = 0 →
      ∀ t ∈ parts, s.pc t = .passing q := by
    intro p q hne hv t ht
    obtain ⟨r, hr⟩ := hpass t ht
    have hn : ¬ OnTurnstile p (s.pc t) := (hi.turnstile p).not_blocked hv.ge ht
    rw [hr, OnTurnstile] at hn
    rw [hr]
    cases p <;> cases q <;> cases r <;> simp_all
  rcases hi.mode with ⟨R, hf | hd⟩
  · have hv := hf.turnstile2
    rw [hearly, howed] at hv
    have hall := hother .phase2 .phase1 (by simp) hv
    have hw : tally parts (waits .phase1) s.pc = parts.card := by
      rw [← tally_const (s := parts) (f := s.pc) (w := fun _ => 1) fun _ => rfl]
      apply Finset.sum_congr rfl
      intro u hu
      rw [hall u hu]
      rfl
    have := hf.count
    have := hf.lt
    omega
  · have hv := hd.turnstile1
    rw [hearly, howed] at hv
    have hall := hother .phase1 .phase2 (by simp) hv
    have hx : tally parts (waits .phase1) s.pc = 0 := tally_eq_zero fun u hu => by
      rw [hall u hu]
      rfl
    have hy : tally parts inside s.pc = 0 := tally_eq_zero fun u hu => by
      rw [hall u hu]
      rfl
    have := hd.count
    have := hd.pos
    omega

/-- Where no participant is in `barrier_wait`, the barrier is as `barrier_init` has left it. -/
theorem Inv.reset (hi : s.Inv parts value h) (hc : parts.card = value) (hpos : 1 ≤ value)
    (ho : ∀ t ∈ parts, s.pc t = .outside) :
    s.barrier.count = 0 ∧ s.barrier.mutex.val = 1 ∧
      s.barrier.turnstile1.val = 0 ∧ s.barrier.turnstile2.val = 0 ∧
      s.barrier.mutex.wq.count = 0 ∧ s.barrier.turnstile1.wq.count = 0 ∧
      s.barrier.turnstile2.wq.count = 0 := by
  have hzero : ∀ {w : BarrierPc → ℤ}, w .outside = 0 → tally parts w s.pc = 0 := by
    intro w hw
    apply tally_eq_zero
    intro u hu
    rw [ho u hu, hw]
  have hfree : s.barrier.mutex.val = 1 := hi.mutex_free fun u hu => by
    rw [ho u hu]
    rfl
  have hempty : ∀ {sem : Sem} {Q : BarrierPc → Prop}, sem.BlocksAt parts s.pc Q → 0 ≤ sem.val →
      sem.wq.count = 0 := by
    intro sem Q hB hv
    have := Sem.Blocks.len hB
    rw [Queue.length_toList] at this
    omega
  obtain ⟨R, hm⟩ := hi.mode
  obtain ⟨t, ht⟩ : parts.Nonempty := Finset.card_pos.1 (by omega)
  have hf := hm.fill ht (by rw [ho t ht]; rfl)
  have hc0 := hf.count
  have h₁ := hf.turnstile1
  have h₂ := hf.turnstile2
  rw [hzero rfl] at hc0
  rw [hzero rfl, hzero rfl] at h₁ h₂
  exact ⟨by omega, hfree, h₁, h₂, hempty hi.mutex (by omega),
    hempty (hi.turnstile .phase1) h₁.ge, hempty (hi.turnstile .phase2) h₂.ge⟩

/-- Not all participants are blocked, and where none of them is in `barrier_wait`, the barrier is
as `barrier_init` has left it. -/
theorem not_stuck {G : BarrierSys → TaskId → Prop} (hc : parts.card = value) (hpos : 1 ≤ value)
    (hle : value ≤ numThreads) (hr : (barrierSystem parts value).Run G h s) :
    (¬ ∀ t ∈ parts, (s.pc t).blocked = true) ∧
    ((∀ t ∈ parts, s.pc t = .outside) → s.barrier.count = 0 ∧ s.barrier.mutex.val = 1 ∧
      s.barrier.turnstile1.val = 0 ∧ s.barrier.turnstile2.val = 0 ∧
      s.barrier.mutex.wq.count = 0 ∧ s.barrier.turnstile1.wq.count = 0 ∧
      s.barrier.turnstile2.wq.count = 0) :=
  have hi := run_inv hc hpos hle hr
  ⟨hi.not_all_blocked hc, hi.reset hc hpos⟩

/-- Both threads have returned, and the barrier is reset. -/
theorem not_stuck_two_threads :
    ∃ h s, (barrierSystem {.slot 15, .slot 14} 2).Run (fun _ _ => True) h s ∧
      returned (.slot 15) h = 1 ∧ s.barrier.count = 0 ∧ s.barrier.turnstile2.val = 0 := by
  rcases exists_round
    (P := fun h s => returned (.slot 15) h = 1 ∧
      ∀ t ∈ ({.slot 15, .slot 14} : Finset TaskId), s.pc t = .outside)
    (List.replicate 5 (.slot 15) ++ List.replicate 8 (.slot 14) ++ List.replicate 4 (.slot 15) ++
      List.replicate 8 (.slot 14) ++ [.slot 15]) (by decide +kernel) with ⟨h, s, hr, h1, ho⟩
  have hreset := (not_stuck rfl (by decide) (by decide) hr).2 ho
  exact ⟨h, s, hr, h1, hreset.1, hreset.2.2.2.1⟩

end BarrierSys

end MsTos
