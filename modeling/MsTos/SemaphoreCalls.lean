-- SUMMARY: One semaphore under any sequence of calls: its value counts the calls exactly, until it overflows.
import MsTos.Conditions
import MsTos.SemaphoreQueue

namespace MsTos

/-! ## What the calls do to the threads -/

namespace Kernel

variable {k : Kernel} {t u : TaskId} {s : SemId}

theorem semWait_state (hr : k.runPtr = some t) (u : TaskId) : ((k.semWait s).thrds u).state =
    if k.SemBlocks s ∧ u = t then .BLOCKING else (k.thrds u).state := by
  have hc : (k.startCritical.semDown s).osTaskCurrent.1 = some t := hr
  have hval : ((k.startCritical.semDown s).sems s).val = toInt ((k.sems s).val - 1) := semDown_val
  unfold semWait SemBlocks
  dsimp only
  rw [hc, hval]
  split
  · rename_i hb
    show (Function.update k.thrds t { k.thrds t with state := .BLOCKING } u).state = _
    rcases eq_or_ne u t with rfl | hut
    · simp [hb]
    · simp [hut]
  · rename_i hb
    rw [if_neg (fun h => hb h.1)]
    rfl

/-- `sem_post` is about to wake up a thread. -/
def PostWakes (k : Kernel) (s : SemId) : Prop := toInt ((k.sems s).val + 1) ≤ 0

instance (k : Kernel) (s : SemId) : Decidable (k.PostWakes s) := inferInstanceAs (Decidable (_ ≤ _))

theorem semPost_state (u : TaskId) : ((k.semPost s).thrds u).state =
    if (k.sems s).post.1 = some u then .ACTIVE else (k.thrds u).state := by
  have hval : toInt ((k.startCritical.sems s).val + 1) = toInt ((k.sems s).val + 1) := rfl
  unfold semPost Sem.post
  simp only [setSem, Function.update_self, hval]
  split
  · cases hw : (k.sems s).wq.pop.1.join with
    | none =>
        rw [show (k.startCritical.sems s).wq.pop.1.join = none from hw]
        rfl
    | some w =>
        rw [show (k.startCritical.sems s).wq.pop.1.join = some w from hw]
        show (Function.update k.thrds w { k.thrds w with state := .ACTIVE } u).state = _
        rcases eq_or_ne u w with rfl | huw
        · simp
        · simp [huw, huw.symm]
  · rfl

theorem semTrywait_eq : k.semTrywait s =
    if (k.sems s).val > 0 then (0, (k.startCritical.semDown s).endCritical)
    else (-1, k.startCritical.endCritical) := by
  unfold semTrywait
  dsimp only
  rw [show (k.startCritical.sems s).val = (k.sems s).val from rfl]
  split <;> rfl

theorem semTrywait_thrds : (k.semTrywait s).2.thrds = k.thrds := by
  rw [semTrywait_eq]
  split <;> rfl

end Kernel

/-! ## Sequences of calls -/

/-- The calls that take no timeout. -/
inductive SemCall where
  | wait
  | trywait
  | post
  deriving DecidableEq

/-- A thread that is not blocked calls one of them, and the result is observed. -/
def Kernel.semCall (k : Kernel) (sem : SemId) (t : TaskId) (c : SemCall) : Int × Kernel :=
  let k := { k with runPtr := some t }
  match c with
  | .wait => (0, k.semWait sem)
  | .trywait => k.semTrywait sem
  | .post => (0, k.semPost sem)

/-- From `sem_init` on, the threads call in any order; a thread that is blocked does not call. -/
def semSystem (sem : SemId) (value : Nat) :
    TransitionSystem Kernel (Fin numThreads × SemCall) (SemCall × Int) where
  init k := ∃ k₀ : Kernel, (k₀.semInit sem value).1 = 0 ∧ k = (k₀.semInit sem value).2 ∧
    ∀ t, (k₀.thrds t).state ≠ .BLOCKING
  step k a :=
    let (i, c) := a
    if (k.thrds (.slot i)).state = .BLOCKING then none
    else
      let (r, k) := k.semCall sem (.slot i) c
      some ((c, r), k)

/-- The initial value and the posts, less the waits and the successful attempts. -/
def exactVal (value : Nat) (h : List (SemCall × Int)) : Int :=
  value + h.count (.post, 0) - h.count (.wait, 0) - h.count (.trywait, 0)

/-- The value is exact, it counts the blocked threads when it is negative, and exactly these are in
the wait queue. -/
structure Exact (sem : SemId) (value : Nat) (h : List (SemCall × Int)) (k : Kernel) : Prop where
  val : (k.sems sem).val = exactVal value h
  le : (k.sems sem).val ≤ 32767
  blocks : (k.sems sem).Blocks fun t => (k.thrds t).state = .BLOCKING
  slot : (k.thrds .idle).state ≠ .BLOCKING

/-- Before a `sem_post` there is room for one more permit. -/
def PostFits (sem : SemId) (k : Kernel) (a : Fin numThreads × SemCall) : Prop :=
  a.2 = .post → (k.sems sem).val < 32767

instance (sem : SemId) (k : Kernel) (a : Fin numThreads × SemCall) : Decidable (PostFits sem k a) :=
  inferInstanceAs (Decidable (_ → _))

namespace Exact

variable {k : Kernel} {sem : SemId} {value : Nat} {h : List (SemCall × Int)} {i : Fin numThreads}

/-- A thread that is not blocked finds room in the wait queue. -/
theorem room (he : Exact sem value h k) (hi : (k.thrds (.slot i)).state ≠ .BLOCKING) :
    (k.sems sem).wq.toList.length < numThreads := by
  have hle := he.blocks.length_le (s := (Finset.univ.erase .idle).erase (.slot i)) (by
    intro t ht
    rw [Finset.mem_erase, Finset.mem_erase]
    refine ⟨?_, ?_, Finset.mem_univ t⟩
    · rintro rfl
      exact hi ht
    · rintro rfl
      exact he.slot ht)
  rw [Finset.card_erase_of_mem (by simp), Finset.card_erase_of_mem (Finset.mem_univ _),
    Finset.card_univ, RunQueue.card_taskId] at hle
  simp only [numThreads] at hle ⊢
  omega

/-- A call that leaves the semaphore as `sem'`. -/
theorem next {k' : Kernel} {c : SemCall} {r : Int} {sem' : Sem} (hsems : k'.sems sem = sem')
    (hval : sem'.val = exactVal value ((c, r) :: h)) (hle : sem'.val ≤ 32767)
    (hb : sem'.Blocks fun t => (k'.thrds t).state = .BLOCKING)
    (hidle : (k'.thrds .idle).state ≠ .BLOCKING) : Exact sem value ((c, r) :: h) k' := by
  subst hsems
  exact ⟨hval, hle, hb, hidle⟩

theorem wait (he : Exact sem value h k) (hi : (k.thrds (.slot i)).state ≠ .BLOCKING) :
    Exact sem value ((.wait, 0) :: h) (k.semCall sem (.slot i) .wait).2 := by
  have hsems : ((k.semCall sem (.slot i) .wait).2.sems sem) = ((k.sems sem).wait (.slot i)).2 := by
    show (Kernel.semWait { k with runPtr := some (.slot i) } sem).sems sem = _
    rw [Kernel.semWait_sems (t := .slot i) rfl, Function.update_self]
  have hstate : ∀ t, ((k.semCall sem (.slot i) .wait).2.thrds t).state =
      if k.SemBlocks sem ∧ t = .slot i then .BLOCKING else (k.thrds t).state :=
    Kernel.semWait_state (k := { k with runPtr := some (.slot i) }) rfl
  have hexact : exactVal value ((.wait, 0) :: h) = exactVal value h - 1 := by
    simp only [exactVal, List.count_cons]
    simp
    omega
  have hidle : ((k.semCall sem (.slot i) .wait).2.thrds .idle).state ≠ .BLOCKING := by
    rw [hstate, if_neg (fun h => by cases h.2)]
    exact he.slot
  have hle := he.le
  rcases lt_or_ge 0 (k.sems sem).val with hv | hv
  · obtain ⟨hw, hb⟩ := he.blocks.wait_pass (t := .slot i) hv hle
    rw [hw] at hsems
    have hnb : ¬ k.SemBlocks sem := by
      unfold Kernel.SemBlocks
      rw [toInt_of_mem (by omega) (by omega)]
      omega
    refine next hsems (by rw [hexact, ← he.val]) (by dsimp only; omega) ?_ hidle
    refine hb.congr fun t => ?_
    rw [hstate, if_neg (fun h => hnb h.1)]
  · obtain ⟨wq, hw, hb⟩ := he.blocks.wait_block hv hi (he.room hi)
    rw [hw] at hsems
    have hroom := he.room hi
    have hlen := he.blocks.len
    simp only [numThreads] at hroom
    have hb' : k.SemBlocks sem := by
      unfold Kernel.SemBlocks
      rw [toInt_of_mem (by omega) (by omega)]
      omega
    refine next hsems (by rw [hexact, ← he.val]) (by dsimp only; omega) ?_ hidle
    refine hb.congr fun t => ?_
    rw [hstate]
    rcases eq_or_ne t (.slot i) with rfl | ht
    · simp [hb']
    · simp [ht]

theorem trywait (he : Exact sem value h k) :
    Exact sem value ((.trywait, (k.semCall sem (.slot i) .trywait).1) :: h)
      (k.semCall sem (.slot i) .trywait).2 := by
  have hthrds : (k.semCall sem (.slot i) .trywait).2.thrds = k.thrds := Kernel.semTrywait_thrds
  have hle := he.le
  rcases lt_or_ge 0 (k.sems sem).val with hv | hv
  · have hcall : k.semCall sem (.slot i) .trywait =
        (0, (({ k with runPtr := some (.slot i) } : Kernel).startCritical.semDown sem).endCritical) := by
      show Kernel.semTrywait _ sem = _
      rw [Kernel.semTrywait_eq]
      exact if_pos hv
    have hsems : (k.semCall sem (.slot i) .trywait).2.sems sem =
        { k.sems sem with val := (k.sems sem).val - 1 } := by
      rw [hcall]
      show Function.update k.sems sem _ sem = _
      rw [Function.update_self]
      show Sem.mk (toInt ((k.sems sem).val - 1)) _ = _
      rw [toInt_of_mem (by omega) (by omega)]
      rfl
    have hexact : exactVal value ((.trywait, 0) :: h) = exactVal value h - 1 := by
      simp only [exactVal, List.count_cons]
      simp
      omega
    have hr : (k.semCall sem (.slot i) .trywait).1 = 0 := by rw [hcall]
    rw [hr]
    refine next hsems (by rw [hexact, ← he.val]) (by dsimp only; omega) ?_ ?_
    · rw [hthrds]
      exact (he.blocks.wait_pass (t := .slot i) hv hle).2
    · rw [hthrds]
      exact he.slot
  · have hcall : k.semCall sem (.slot i) .trywait =
        (-1, (({ k with runPtr := some (.slot i) } : Kernel).startCritical).endCritical) := by
      show Kernel.semTrywait _ sem = _
      rw [Kernel.semTrywait_eq]
      exact if_neg (not_lt.2 hv)
    have hsems : (k.semCall sem (.slot i) .trywait).2.sems sem = k.sems sem := by
      rw [hcall]
      rfl
    have hexact : exactVal value ((.trywait, -1) :: h) = exactVal value h := by
      simp [exactVal]
    have hr : (k.semCall sem (.slot i) .trywait).1 = -1 := by rw [hcall]
    rw [hr]
    refine next hsems (by rw [hexact, he.val]) hle ?_ ?_
    · rw [hthrds]
      exact he.blocks
    · rw [hthrds]
      exact he.slot

theorem post (he : Exact sem value h k) (hfits : (k.sems sem).val < 32767) :
    Exact sem value ((.post, 0) :: h) (k.semCall sem (.slot i) .post).2 := by
  have hsems : (k.semCall sem (.slot i) .post).2.sems sem = (k.sems sem).post.2 := by
    show (Kernel.semPost { k with runPtr := some (.slot i) } sem).sems sem = _
    rw [Kernel.semPost_sems, Function.update_self]
  have hstate : ∀ t, ((k.semCall sem (.slot i) .post).2.thrds t).state =
      if (k.sems sem).post.1 = some t then .ACTIVE else (k.thrds t).state :=
    Kernel.semPost_state (k := { k with runPtr := some (.slot i) })
  have hexact : exactVal value ((.post, 0) :: h) = exactVal value h + 1 := by
    simp only [exactVal, List.count_cons]
    simp
    omega
  have hidle : ((k.semCall sem (.slot i) .post).2.thrds .idle).state ≠ .BLOCKING := by
    rw [hstate]
    split
    · simp
    · exact he.slot
  rcases lt_or_ge (k.sems sem).val 0 with hv | hv
  · obtain ⟨u, wq, -, -, hp, hb⟩ := he.blocks.post_wake hv
    rw [hp] at hsems hstate
    refine next hsems (by rw [hexact, ← he.val]) (by dsimp only; omega) ?_ hidle
    refine hb.congr fun t => ?_
    rw [hstate]
    rcases eq_or_ne t u with rfl | ht
    · simp
    · simp [ht, ht.symm]
  · obtain ⟨hp, hb⟩ := he.blocks.post_free hv hfits
    rw [hp] at hsems hstate
    refine next hsems (by rw [hexact, ← he.val]) (by dsimp only; omega) ?_ hidle
    refine hb.congr fun t => ?_
    rw [hstate, if_neg (by simp)]

/-- A call keeps the count exact if a `sem_post` does not overflow the value. -/
theorem step {k' : Kernel} {a : Fin numThreads × SemCall} {e : SemCall × Int}
    (he : Exact sem value h k) (hfits : PostFits sem k a)
    (hs : (semSystem sem value).step k a = some (e, k')) : Exact sem value (e :: h) k' := by
  obtain ⟨i, c⟩ := a
  simp only [semSystem] at hs
  split at hs
  · cases hs
  · rename_i hi
    obtain ⟨rfl, rfl⟩ := Prod.mk.inj (Option.some.inj hs)
    cases c with
    | wait => exact he.wait hi
    | trywait => exact he.trywait
    | post => exact he.post (hfits rfl)

end Exact

/-! ## Runs -/

section Runs

variable {k : Kernel} {sem : SemId} {value : Nat} {h : List (SemCall × Int)}

theorem exact_init (hk : (semSystem sem value).init k) : Exact sem value [] k := by
  obtain ⟨k₀, h0, rfl, hstate⟩ := hk
  unfold Kernel.semInit at h0 ⊢
  split at h0
  · cases h0
  · rename_i hv
    rw [if_neg hv]
    have hinit := Sem.Blocks.init (not_lt.1 hv)
    have hval : toInt value = value := by
      simp only [numThreads] at hv
      exact toInt_of_mem (by omega) (by omega)
    have hsems : ((k₀.startCritical.setSem sem (Sem.init value)).endCritical.sems sem) =
        Sem.init value := by
      show Function.update k₀.sems sem (Sem.init value) sem = _
      rw [Function.update_self]
    refine ⟨?_, ?_, ?_, hstate .idle⟩
    · rw [hsems]
      simp [Sem.init, exactVal, hval]
    · rw [hsems]
      exact (toInt_mem value).2
    · rw [hsems]
      exact hinit.congr fun t => ⟨False.elim, hstate t⟩

theorem run_exact (hr : (semSystem sem value).Run (PostFits sem) h k) : Exact sem value h k :=
  hr.invariant (fun _ hk => exact_init hk) fun _ _ _ _ _ he hfits hs => he.step hfits hs

/-- Where the next permit does not fit, `sem_post` pops from an empty wait queue. -/
theorem run_overflow (hr : (semSystem sem value).Run (PostFits sem) h k)
    (hv : (k.sems sem).val = 32767) :
    k.PostWakes sem ∧ (k.sems sem).wq.count = 0 ∧ (k.sems sem).wq.pop.1 = none ∧
      (∀ t, (k.thrds t).state ≠ .BLOCKING) ∧
      ∀ t, ((k.semCall sem t .post).2.sems sem).val ≠ exactVal value ((.post, 0) :: h) := by
  have he := run_exact hr
  have hlen := he.blocks.len
  rw [hv] at hlen
  have hnil : (k.sems sem).wq.toList = [] := List.length_eq_zero_iff.1 hlen
  have hpop := Queue.pop_of_nil hnil
  have hw : k.PostWakes sem := by
    unfold Kernel.PostWakes
    rw [hv]
    decide
  refine ⟨hw, ?_, ?_, ?_, ?_⟩
  · rw [← Queue.length_toList, hnil, List.length_nil]
  · rw [hpop]
  · intro t
    exact he.blocks.not_of_nonneg (by omega)
  · intro t
    have hexact : exactVal value ((.post, 0) :: h) = 32768 := by
      have := he.val
      rw [hv] at this
      simp only [exactVal, List.count_cons] at this ⊢
      simp
      omega
    show ((Kernel.semPost { k with runPtr := some t } sem).sems sem).val ≠ _
    rw [Kernel.semPost_sems, Function.update_self, hexact]
    unfold Sem.post
    dsimp only
    rw [hv, if_pos (by decide)]
    show toInt (32767 + 1) ≠ 32768
    decide

/-- As long as no post overflows it, the value counts the calls exactly, and `sem_post` wakes up only
a blocked thread whose handle it has just popped. -/
theorem val_exact (hr : (semSystem sem value).Run (PostFits sem) h k) :
    (k.sems sem).val = exactVal value h ∧
      ((k.sems sem).val < 32767 → k.PostWakes sem → (k.sems sem).wq.count > 0 ∧
        ∃ u, (k.sems sem).wq.pop.1 = some (some u) ∧ (k.thrds u).state = .BLOCKING) := by
  have he := run_exact hr
  refine ⟨he.val, ?_⟩
  intro hfits hw
  have hle := he.le
  have hlen := he.blocks.len
  have hlt : (k.sems sem).val < 0 := by
    by_contra hge
    unfold Kernel.PostWakes at hw
    rw [toInt_of_mem (by omega) (by omega)] at hw
    omega
  obtain ⟨u, wq, hl, hu, -, -⟩ := he.blocks.post_wake hlt
  refine ⟨?_, u, (Queue.toList_pop hl).1, hu⟩
  rw [← Queue.length_toList, hlen]
  omega

/-- Two threads block and are woken by the next posts, and a third post finds nobody. The permit that
it leaves is taken, so that the last thread blocks again. -/
theorem val_exact_six_threads : ∃ h k, (semSystem (.app 0) 1).Run (PostFits (.app 0)) h k ∧
    h = [(.wait, 0), (.trywait, 0), (.post, 0), (.post, 0), (.post, 0), (.wait, 0), (.wait, 0),
      (.trywait, -1), (.wait, 0)] ∧
    k.PostWakes (.app 0) ∧ (k.sems (.app 0)).val = exactVal 1 h ∧ (k.sems (.app 0)).wq.count > 0 ∧
    ∃ u, (k.sems (.app 0)).wq.pop.1 = some (some u) ∧ (k.thrds u).state = .BLOCKING := by
  have hinit : (semSystem (.app 0) 1).init ((Sys.ram fun _ => 0).semInit (.app 0) 1).2 :=
    ⟨_, rfl, rfl, by decide⟩
  rcases TransitionSystem.exists_run_of_exec (G := PostFits (.app 0)) hinit
    [(0, .wait), (1, .trywait), (1, .wait), (2, .wait), (0, .post), (3, .post), (3, .post),
      (4, .trywait), (5, .wait)]
    (P := fun h k => h = [(.wait, 0), (.trywait, 0), (.post, 0), (.post, 0), (.post, 0), (.wait, 0),
        (.wait, 0), (.trywait, -1), (.wait, 0)] ∧
      k.PostWakes (.app 0) ∧ (k.sems (.app 0)).val < 32767)
    (by decide +kernel) with ⟨h, k, hr, hh, hw, hlt⟩
  obtain ⟨hv, hwakes⟩ := val_exact hr
  exact ⟨h, k, hr, hh, hw, hv, hwakes hlt hw⟩

/-- Posts alone, up to the largest value. -/
theorem run_posts (n : Nat) (hn : n ≤ 32767) :
    ∃ k, (semSystem (.app 0) 0).Run (PostFits (.app 0)) (List.replicate n (.post, 0)) k ∧
      (k.sems (.app 0)).val = n := by
  induction n with
  | zero =>
      have hinit : (semSystem (.app 0) 0).init ((Sys.ram fun _ => 0).semInit (.app 0) 0).2 :=
        ⟨_, rfl, rfl, by decide⟩
      exact ⟨_, .init hinit, rfl⟩
  | succ n ih =>
      obtain ⟨k, hr, hv⟩ := ih (by omega)
      have hfits : (k.sems (.app 0)).val < 32767 := by omega
      have hstate : (k.thrds (.slot 0)).state ≠ .BLOCKING :=
        (run_exact hr).blocks.not_of_nonneg (by omega)
      have hr' := hr.step (a := (0, .post)) (fun _ => hfits)
        (show (semSystem (.app 0) 0).step k (0, .post) = some (_, _) from if_neg hstate)
      rw [List.replicate_succ]
      refine ⟨_, hr', ?_⟩
      rw [(run_exact hr').val, ← List.replicate_succ]
      simp [exactVal, List.count_replicate]

/-- The 32768th post to a semaphore without a permit makes its value negative, and tries to wake up
a thread although none waits. -/
theorem post_wakes_nobody : ∃ h k k', (semSystem (.app 0) 0).Run (fun _ _ => True) h k ∧
    h = List.replicate 32767 (.post, 0) ∧ k.PostWakes (.app 0) ∧ (k.sems (.app 0)).wq.count = 0 ∧
    (k.sems (.app 0)).wq.pop.1 = none ∧
    (semSystem (.app 0) 0).step k (0, .post) = some ((.post, 0), k') ∧
    (k'.sems (.app 0)).val ≠ exactVal 0 ((.post, 0) :: h) := by
  obtain ⟨k, hr, hv⟩ := run_posts 32767 le_rfl
  generalize List.replicate 32767 (SemCall.post, (0 : Int)) = h at hr
  obtain ⟨hw, hc, hp, hstate, hne⟩ := run_overflow hr hv
  exact ⟨h, k, _, hr.mono fun _ _ _ => trivial, rfl, hw, hc, hp, if_neg (hstate (.slot 0)),
    hne (.slot 0)⟩

end Runs

end MsTos
