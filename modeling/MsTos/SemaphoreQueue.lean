-- SUMMARY: A semaphore on its own: what waiting and posting do to its value and to the threads that are blocked on it.
import MsTos.QueueList
import MsTos.Semaphore

namespace MsTos

/-! ## Waiting and posting -/

namespace Sem

/-- `sem_wait` by `t`, as far as the semaphore goes, and whether it blocks the caller. -/
def wait (sem : Sem) (t : TaskId) : Bool × Sem :=
  let sem := { sem with val := toInt (sem.val - 1) }
  if sem.val < 0 then (true, { sem with wq := (sem.wq.push (some t)).2 }) else (false, sem)

/-- `sem_post`, as far as the semaphore goes, and the thread that it wakes up. -/
def post (sem : Sem) : ThrdPtr × Sem :=
  let sem := { sem with val := toInt (sem.val + 1) }
  if sem.val ≤ 0 then
    let (wakeup, wq) := sem.wq.pop
    (wakeup.join, { sem with wq })
  else (none, sem)

end Sem

namespace Kernel

variable {k : Kernel} {t : TaskId} {s : SemId}

theorem endCritical_sems : k.endCritical.sems = k.sems := rfl

theorem store_sems (p : ThrdPtr) (f : Thrd → Thrd) : (k.store p f).sems = k.sems := by
  cases p <;> rfl

theorem osTaskPause_sems (p : ThrdPtr) : (k.osTaskPause p).sems = k.sems := by
  cases p <;> rfl

theorem osTaskBlock_sems (p : ThrdPtr) : (k.osTaskBlock p).sems = k.sems := by
  rw [osTaskBlock, endCritical_sems, osTaskPause_sems, store_sems]
  rfl

theorem osTaskUnpause_sems (p : ThrdPtr) : (k.osTaskUnpause p).sems = k.sems := by
  cases p <;> rfl

theorem osTaskTimedwait_sems (p : ThrdPtr) (n : Nat) : (k.osTaskTimedwait p n).sems = k.sems := by
  unfold osTaskTimedwait
  split
  · rfl
  · rw [osTaskPause_sems, endCritical_sems, store_sems]
    rfl

/-- `sem_wait` changes the semaphore as `Sem.wait` does. -/
theorem semWait_sems (hr : k.runPtr = some t) :
    (k.semWait s).sems = Function.update k.sems s ((k.sems s).wait t).2 := by
  have hc : (k.startCritical.semDown s).osTaskCurrent.1 = some t := hr
  have hs : (k.startCritical.semDown s).sems =
    Function.update k.sems s { k.sems s with val := toInt ((k.sems s).val - 1) } := rfl
  have hs' : (k.startCritical.semDown s).osTaskCurrent.2.sems =
    Function.update k.sems s { k.sems s with val := toInt ((k.sems s).val - 1) } := rfl
  unfold semWait Sem.wait
  dsimp only
  rw [endCritical_sems, hc, hs, Function.update_self]
  dsimp only
  split
  · rw [osTaskBlock_sems, semEnqueue, setSem]
    dsimp only
    rw [hs', Function.update_self, Function.update_idem]
  · rw [hs]

/-- `sem_post` changes the semaphore as `Sem.post` does. -/
theorem semPost_sems : (k.semPost s).sems = Function.update k.sems s (k.sems s).post.2 := by
  unfold semPost Sem.post setSem
  simp only [endCritical_sems, Function.update_self, Function.update_idem]
  rw [show k.startCritical.sems = k.sems from rfl]
  split
  · rw [osTaskUnpause_sems]
  · rfl

end Kernel

/-! ## The value and the wait queue -/

namespace Sem

variable {sem : Sem} {t : TaskId} {p : ThrdPtr} {l : List ThrdPtr}

/-- A negative value counts the handles in the wait queue. -/
structure Counted (sem : Sem) : Prop where
  ok : sem.wq.Ok
  le : sem.val ≤ 32767
  len : sem.wq.toList.length = (-sem.val).toNat

namespace Counted

theorem length_le (h : sem.Counted) : sem.wq.toList.length ≤ 16 := by
  rw [Queue.length_toList]
  exact h.ok.count_le

theorem init {value : Nat} (hv : value ≤ numThreads) : (Sem.init value).Counted := by
  refine ⟨Queue.ok_init (by decide), (toInt_mem value).2, ?_⟩
  simp only [numThreads] at hv
  show 0 = (-toInt value).toNat
  unfold toInt
  omega

/-- A wait for a permit that is there. -/
theorem wait_pass (h : sem.Counted) (hv : 0 < sem.val) :
    sem.wait t = (false, { sem with val := sem.val - 1 }) ∧
      Counted { sem with val := sem.val - 1 } := by
  have hle := h.le
  have hlen := h.len
  have hval : toInt (sem.val - 1) = sem.val - 1 := toInt_of_mem (by omega) (by omega)
  refine ⟨?_, h.ok, ?_, ?_⟩
  · unfold Sem.wait
    dsimp only
    rw [hval, if_neg (by omega)]
  · dsimp only
    omega
  · dsimp only
    omega

/-- A wait that blocks, with room in the wait queue. -/
theorem wait_block (h : sem.Counted) (hv : sem.val ≤ 0)
    (hroom : sem.wq.toList.length < numThreads) :
    ∃ wq, sem.wait t = (true, ⟨sem.val - 1, wq⟩) ∧ wq.toList = sem.wq.toList ++ [some t] ∧
      Counted ⟨sem.val - 1, wq⟩ := by
  have hlen := h.len
  have hroom' := hroom
  simp only [numThreads] at hroom'
  have hval : toInt (sem.val - 1) = sem.val - 1 := toInt_of_mem (by omega) (by omega)
  have hpush := h.ok.push_list (some t)
  rw [if_pos hroom] at hpush
  refine ⟨(sem.wq.push (some t)).2, ?_, hpush.2, hpush.1, ?_, ?_⟩
  · unfold Sem.wait
    dsimp only
    rw [hval, if_pos (by omega)]
  · dsimp only
    omega
  · dsimp only
    rw [hpush.2, List.length_append, List.length_singleton]
    omega

/-- A post that pops the first handle. -/
theorem post_pop (h : sem.Counted) (hl : sem.wq.toList = p :: l) :
    ∃ wq, sem.post = (p, ⟨sem.val + 1, wq⟩) ∧ wq.toList = l ∧ Counted ⟨sem.val + 1, wq⟩ := by
  have hlen := h.len
  have hle := h.length_le
  rw [hl, List.length_cons] at hlen hle
  have hval : toInt (sem.val + 1) = sem.val + 1 := toInt_of_mem (by omega) (by omega)
  have hpop := Queue.toList_pop hl
  refine ⟨sem.wq.pop.2, ?_, hpop.2, h.ok.pop, ?_, ?_⟩
  · unfold Sem.post
    dsimp only
    rw [hval, if_pos (by omega), hpop.1]
    rfl
  · dsimp only
    omega
  · dsimp only
    rw [hpop.2]
    omega

/-- A post where nobody waits. -/
theorem post_free (h : sem.Counted) (hl : sem.wq.toList = []) (hfits : sem.val < 32767) :
    sem.post = (none, { sem with val := sem.val + 1 }) ∧
      Counted { sem with val := sem.val + 1 } := by
  have hlen := h.len
  rw [hl, List.length_nil] at hlen
  have hval : toInt (sem.val + 1) = sem.val + 1 := toInt_of_mem (by omega) (by omega)
  refine ⟨?_, h.ok, ?_, ?_⟩
  · unfold Sem.post
    dsimp only
    rw [hval, if_neg (by omega)]
  · dsimp only
    omega
  · dsimp only
    rw [hl, List.length_nil]
    omega

end Counted

end Sem

/-! ## The threads blocked on a semaphore -/

/-- The wait queue of a semaphore holds the threads of `B`, each once, and a negative value counts
them. -/
structure Sem.Blocks (sem : Sem) (B : TaskId → Prop) : Prop where
  ok : sem.wq.Ok
  nodup : sem.wq.toList.Nodup
  mem : ∀ r, r ∈ sem.wq.toList ↔ ∃ t, r = some t ∧ B t
  len : sem.wq.toList.length = (-sem.val).toNat

namespace Sem.Blocks

variable {sem : Sem} {B B' : TaskId → Prop} {t : TaskId}

theorem congr (h : sem.Blocks B) (hB : ∀ t, B t ↔ B' t) : sem.Blocks B' where
  ok := h.ok
  nodup := h.nodup
  mem r := by
    rw [h.mem]
    exact exists_congr fun t => and_congr_right fun _ => hB t
  len := h.len

theorem length_le (h : sem.Blocks B) {s : Finset TaskId} (hs : ∀ t, B t → t ∈ s) :
    sem.wq.toList.length ≤ s.card := by
  have hsub : sem.wq.toList.toFinset ⊆ s.image some := by
    intro r hr
    obtain ⟨t, rfl, ht⟩ := (h.mem r).1 (List.mem_toFinset.1 hr)
    exact Finset.mem_image_of_mem some (hs t ht)
  calc sem.wq.toList.length = sem.wq.toList.toFinset.card :=
        (List.toFinset_card_of_nodup h.nodup).symm
    _ ≤ (s.image some).card := Finset.card_le_card hsub
    _ ≤ s.card := Finset.card_image_le

/-- Nobody is blocked on a semaphore whose value is not negative. -/
theorem not_of_nonneg (h : sem.Blocks B) (hv : 0 ≤ sem.val) : ¬ B t := by
  intro ht
  have hm := (h.mem (some t)).2 ⟨t, rfl, ht⟩
  have hl := List.length_pos_of_mem hm
  have := h.len
  omega

theorem counted (h : sem.Blocks B) (hle : sem.val ≤ 32767) : sem.Counted := ⟨h.ok, hle, h.len⟩

theorem init {value : Nat} (hv : value ≤ numThreads) : (Sem.init value).Blocks fun _ => False where
  ok := (Counted.init hv).ok
  nodup := List.nodup_nil
  mem r := by simp [Sem.init]
  len := (Counted.init hv).len

/-- Waiting for a permit that is there. -/
theorem wait_pass (h : sem.Blocks B) (hv : 0 < sem.val) (hle : sem.val ≤ 32767) :
    sem.wait t = (false, { sem with val := sem.val - 1 }) ∧
      Sem.Blocks { sem with val := sem.val - 1 } B := by
  obtain ⟨hw, hc⟩ := (h.counted hle).wait_pass (t := t) hv
  exact ⟨hw, h.ok, h.nodup, h.mem, hc.len⟩

/-- Waiting for a permit that is not there. -/
theorem wait_block (h : sem.Blocks B) (hv : sem.val ≤ 0) (ht : ¬ B t)
    (hroom : sem.wq.toList.length < numThreads) :
    ∃ wq, sem.wait t = (true, ⟨sem.val - 1, wq⟩) ∧
      Sem.Blocks ⟨sem.val - 1, wq⟩ fun u => B u ∨ u = t := by
  obtain ⟨wq, hw, hl, hc⟩ := (h.counted (by omega)).wait_block (t := t) hv hroom
  refine ⟨wq, hw, hc.ok, ?_, ?_, hc.len⟩
  · rw [hl, ← List.concat_eq_append]
    apply h.nodup.concat
    rw [h.mem]
    rintro ⟨u, hu, hB⟩
    cases hu
    exact ht hB
  · intro r
    dsimp only
    rw [hl, List.mem_append, h.mem, List.mem_singleton]
    constructor
    · rintro (⟨u, rfl, hu⟩ | rfl)
      · exact ⟨u, rfl, .inl hu⟩
      · exact ⟨t, rfl, .inr rfl⟩
    · rintro ⟨u, rfl, hu | rfl⟩
      · exact .inl ⟨u, rfl, hu⟩
      · exact .inr rfl

/-- Posting where nobody is blocked. -/
theorem post_free (h : sem.Blocks B) (hv : 0 ≤ sem.val) (hle : sem.val < 32767) :
    sem.post = (none, { sem with val := sem.val + 1 }) ∧
      Sem.Blocks { sem with val := sem.val + 1 } B := by
  have hnil : sem.wq.toList = [] := by
    apply List.length_eq_zero_iff.1
    have := h.len
    omega
  obtain ⟨hp, hc⟩ := (h.counted (by omega)).post_free hnil hle
  exact ⟨hp, h.ok, h.nodup, h.mem, hc.len⟩

/-- Posting wakes the thread that has been blocked the longest. -/
theorem post_wake (h : sem.Blocks B) (hv : sem.val < 0) :
    ∃ u wq, sem.wq.toList = some u :: wq.toList ∧ B u ∧ sem.post = (some u, ⟨sem.val + 1, wq⟩) ∧
      Sem.Blocks ⟨sem.val + 1, wq⟩ fun x => B x ∧ x ≠ u := by
  have hlen := h.len
  cases hl : sem.wq.toList with
  | nil =>
      rw [hl, List.length_nil] at hlen
      omega
  | cons r l =>
      obtain ⟨u, rfl, hu⟩ := (h.mem r).1 (by rw [hl]; exact List.mem_cons_self)
      obtain ⟨wq, hp, hpop, hc⟩ := (h.counted (by omega)).post_pop hl
      have hnd := h.nodup
      rw [hl] at hnd
      refine ⟨u, wq, by rw [hpop], hu, hp, hc.ok, ?_, ?_, hc.len⟩
      · rw [hpop]
        exact (List.nodup_cons.1 hnd).2
      · intro r
        have hmem := h.mem r
        rw [hl, List.mem_cons] at hmem
        dsimp only
        rw [hpop]
        constructor
        · intro hr
          obtain ⟨x, rfl, hx⟩ := hmem.1 (.inr hr)
          refine ⟨x, rfl, hx, ?_⟩
          rintro rfl
          exact (List.nodup_cons.1 hnd).1 hr
        · rintro ⟨x, rfl, hx, hne⟩
          cases hmem.2 ⟨x, rfl, hx⟩ with
          | inl he => exact absurd (Option.some.inj he) hne
          | inr hr => exact hr

end Sem.Blocks

end MsTos
