-- SUMMARY: Critical sections: how deep the calls nest them, and which calls bring the nesting counter back to its value.
import MsTos.Frame
import MsTos.Lib.Nesting
import MsTos.PoolSafety

namespace MsTos

namespace Kernel

variable {k k₁ k' : Kernel} {d e : Nat} {p : ThrdPtr} {t : TaskId} {s : SemId} {m : Nat}

/-! ## Nested code -/

/-- Code whose sections nest to depth `d` leads from `k` to `k'`. -/
structure Nested (d : Nat) (k k' : Kernel) : Prop where
  lt : k'.irq.nest < wordSize
  nest : Nests wordSize d k.irq.nest k'.irq.nest
  /-- Code that is entered with interrupts enabled leaves them enabled. -/
  gie : k.irq.nest = 0 → k.irq.gie = true → k'.irq.gie = true

@[simp] theorem startCritical_nest : k.startCritical.irq.nest = (k.irq.nest + 1) % wordSize := rfl

@[simp] theorem endCritical_nest : k.endCritical.irq.nest = k.irq.nest - 1 := by
  unfold endCritical Irq.stop
  dsimp only
  split
  · split <;> rfl
  · rename_i h
    rw [Nat.eq_zero_of_not_pos h]

theorem endCritical_gie (h : k.irq.nest = 1) : k.endCritical.irq.gie = true := by
  unfold endCritical Irq.stop
  rw [h]
  rfl

namespace Nested

/-- Code without sections. -/
theorem none (hn : k.irq.nest < wordSize) (h : k'.irq.nest = k.irq.nest)
    (hg : k'.irq.gie = k.irq.gie) : Nested 0 k k' where
  lt := h ▸ hn
  nest := by
    rw [h]
    exact .zero hn
  gie _ hk := hg.trans hk

theorem refl (hn : k.irq.nest < wordSize) : Nested 0 k k := none hn rfl rfl

/-- Only the state of the interrupts matters. -/
theorem congr (h : Nested d k k₁) (he : k'.irq = k₁.irq) : Nested d k k' :=
  ⟨he ▸ h.lt, he ▸ h.nest, he ▸ h.gie⟩

/-- A critical section. -/
theorem enclose (hn : k.irq.nest < wordSize)
    (h : k.startCritical.irq.nest < wordSize → Nested d k.startCritical k') (hd : d < 16) :
    Nested (d + 1) k k'.endCritical := by
  have hs : k.startCritical.irq.nest < wordSize := Nat.mod_lt _ (by decide)
  have hk := h hs
  refine ⟨?_, ?_, ?_⟩
  · rw [endCritical_nest]
    exact Nat.lt_of_le_of_lt (Nat.sub_le _ _) hk.lt
  · rw [endCritical_nest]
    exact hk.nest.enclose hn (by simp only [wordSize]; omega)
  · intro h0 _
    apply endCritical_gie
    have h1 : k.startCritical.irq.nest = 1 := by
      rw [startCritical_nest, h0]
      rfl
    rw [hk.nest.keeps (by rw [h1]; simp only [wordSize]; omega), h1]

theorem after (h : Nested d k₁ k') (he : k₁.irq = k.irq) : Nested d k k' :=
  ⟨h.lt, he ▸ h.nest, he ▸ h.gie⟩

theorem seq (h : Nested d k k₁) (h' : k₁.irq.nest < wordSize → Nested e k₁ k') (hd : d < 16)
    (he : e < 16) : Nested (max d e) k k' := by
  have hk := h' h.lt
  refine ⟨hk.lt, h.nest.seq hk.nest (by simp only [wordSize]; omega), ?_⟩
  intro h0 hg
  have hroom : k.irq.nest + d < wordSize := by
    rw [h0]
    simp only [wordSize]
    omega
  exact hk.gie ((h.nest.keeps hroom).trans h0) (h.gie h0 hg)

/-- The second block is no deeper. -/
theorem seq_left (h : Nested d k k₁) (h' : k₁.irq.nest < wordSize → Nested e k₁ k') (hd : d < 16)
    (hle : e ≤ d) : Nested d k k' := by
  have hs := h.seq h' hd (Nat.lt_of_le_of_lt hle hd)
  rwa [Nat.max_eq_left hle] at hs

/-- The first block is no deeper. -/
theorem seq_right (h : Nested d k k₁) (h' : k₁.irq.nest < wordSize → Nested e k₁ k') (he : e < 16)
    (hle : d ≤ e) : Nested e k k' := by
  have hs := h.seq h' (Nat.lt_of_le_of_lt hle he) he
  rwa [Nat.max_eq_right hle] at hs

end Nested

/-! ## Tasks -/

theorem osTaskYield_nested (hn : k.irq.nest < wordSize) : Nested 0 k k.osTaskYield :=
  .none hn rfl rfl

theorem osTaskCurrent_nested (hn : k.irq.nest < wordSize) : Nested 1 k k.osTaskCurrent.2 :=
  .enclose hn .refl (by decide)

@[simp] theorem osAddTaskMmang_irq : (k.osAddTaskMmang p).2.irq = k.irq := by
  cases p <;> rfl

@[simp] theorem osDelTaskMmang_irq : (k.osDelTaskMmang p).2.irq = k.irq := by
  cases p <;> rfl

@[simp] theorem store_irq (f : Thrd → Thrd) : (k.store p f).irq = k.irq := by
  cases p <;> rfl

theorem osAddTask_nested (hn : k.irq.nest < wordSize) : Nested 1 k (k.osAddTask p).2 :=
  .enclose hn (fun h => (Nested.refl h).congr osAddTaskMmang_irq) (by decide)

theorem osDelTask_nested (hn : k.irq.nest < wordSize) : Nested 1 k (k.osDelTask p).2 :=
  .enclose hn (fun h => (Nested.refl h).congr osDelTaskMmang_irq) (by decide)

theorem osTaskPause_nested (hn : k.irq.nest < wordSize) : Nested 2 k (k.osTaskPause p) := by
  refine .enclose hn (fun h => ?_) (by decide)
  exact (osDelTask_nested h).seq_left osTaskYield_nested (by decide) (by decide)

theorem osTaskUnpause_nested (hn : k.irq.nest < wordSize) : Nested 2 k (k.osTaskUnpause p) := by
  refine .enclose hn (fun h => ?_) (by decide)
  exact (osAddTask_nested (by rwa [store_irq])).after (store_irq _)

theorem osTaskBlock_nested (hn : k.irq.nest < wordSize) : Nested 3 k (k.osTaskBlock p) := by
  refine .enclose hn (fun h => ?_) (by decide)
  exact (osTaskPause_nested (by rwa [store_irq])).after (store_irq _)

theorem osTaskSleepEnter_nested (hn : k.irq.nest < wordSize) (n : Nat) :
    Nested 1 k (k.osTaskSleepEnter p n) :=
  .enclose hn (fun h => (Nested.refl h).congr (store_irq _)) (by decide)

theorem osTaskTimedwait_nested (hn : k.irq.nest < wordSize) (n : Nat) :
    Nested (if n = 0 then 0 else 2) k (k.osTaskTimedwait p n) := by
  unfold osTaskTimedwait
  split
  · exact osTaskYield_nested hn
  · refine Nested.seq_right (d := 1) (.enclose hn (fun h => ?_) (by decide)) osTaskPause_nested
      (by decide) (by decide)
    exact (Nested.refl h).congr (store_irq _)

/-! ## Semaphores -/

theorem semInit_nested (hn : k.irq.nest < wordSize) (value : Nat) :
    Nested (if value > numThreads then 0 else 1) k (k.semInit s value).2 := by
  unfold semInit
  split
  · exact .refl hn
  · refine .enclose hn (fun h => ?_) (by decide)
    exact .none h rfl rfl

/-- How deep `sem_wait` nests its sections. -/
def semWaitDepth (k : Kernel) (s : SemId) : Nat := if toInt ((k.sems s).val - 1) < 0 then 4 else 1

theorem semWait_nested (hn : k.irq.nest < wordSize) : Nested (k.semWaitDepth s) k (k.semWait s) := by
  have hv : ((k.startCritical.semDown s).sems s).val = toInt ((k.sems s).val - 1) := semDown_val
  unfold semWait semWaitDepth
  dsimp only
  rw [hv]
  split
  · refine .enclose hn (fun h => ?_) (by decide)
    have hcur : Nested 1 k.startCritical ((k.startCritical.semDown s).osTaskCurrent.2.semEnqueue s
        (k.startCritical.semDown s).osTaskCurrent.1) := (osTaskCurrent_nested h).congr rfl
    exact hcur.seq_right osTaskBlock_nested (by decide) (by decide)
  · refine .enclose hn (fun h => ?_) (by decide)
    exact .none h rfl rfl

/-- The value that `sem_post` compares with 0. -/
theorem semPost_val : ((k.startCritical.setSem s { k.startCritical.sems s with
    val := toInt ((k.startCritical.sems s).val + 1) }).sems s).val =
    toInt ((k.sems s).val + 1) := by
  unfold setSem
  dsimp only
  rw [Function.update_self]
  rfl

/-- How deep `sem_post` nests its sections. -/
def semPostDepth (k : Kernel) (s : SemId) : Nat := if toInt ((k.sems s).val + 1) ≤ 0 then 3 else 1

theorem semPost_nested (hn : k.irq.nest < wordSize) : Nested (k.semPostDepth s) k (k.semPost s) := by
  unfold semPost semPostDepth
  dsimp only
  rw [semPost_val]
  split
  · refine .enclose hn (fun h => ?_) (by decide)
    exact .after (osTaskUnpause_nested (by exact h)) rfl
  · refine .enclose hn (fun h => ?_) (by decide)
    exact .none h rfl rfl

/-- How deep the first section of `sem_timedwait` nests others. -/
def semTimedwaitEnterDepth (k : Kernel) (s : SemId) (timeout : Nat) : Nat :=
  if toInt ((k.sems s).val - 1) < 0 then if timeout = 0 then 2 else 3 else 1

/-- Code that fetches the running thread and blocks it with a timeout. -/
theorem Nested.timedwait (h : Nested 1 k k₁) (n : Nat) :
    Nested (if n = 0 then 1 else 2) k (k₁.osTaskTimedwait p n) := by
  have ht := fun hn => osTaskTimedwait_nested (k := k₁) (p := p) hn n
  split at ht
  · rename_i h0
    rw [if_pos h0]
    exact h.seq_left ht (by decide) (by decide)
  · rename_i h0
    rw [if_neg h0]
    exact h.seq_right ht (by decide) (by decide)

theorem semTimedwaitEnter_nested (hn : k.irq.nest < wordSize) (n : Nat) :
    Nested (k.semTimedwaitEnterDepth s n) k (k.semTimedwaitEnter s n).2 := by
  have hv : ((k.startCritical.semDown s).sems s).val = toInt ((k.sems s).val - 1) := semDown_val
  unfold semTimedwaitEnter semTimedwaitEnterDepth
  dsimp only
  rw [hv]
  split
  · have hcur : k.startCritical.irq.nest < wordSize → Nested 1 k.startCritical
        ((k.startCritical.semDown s).osTaskCurrent.2.semEnqueue s
          (k.startCritical.semDown s).osTaskCurrent.1) := fun h => (osTaskCurrent_nested h).congr rfl
    have hsec := Nested.enclose hn (fun h => (hcur h).timedwait
      (p := (k.startCritical.semDown s).osTaskCurrent.1) n) (by split <;> decide)
    split at hsec
    · rename_i h0
      rw [if_pos h0]
      exact hsec
    · rename_i h0
      rw [if_neg h0]
      exact hsec
  · refine .enclose hn (fun h => ?_) (by decide)
    exact .none h rfl rfl

/-- How deep the second section of `sem_timedwait` nests others. -/
def semTimedwaitLeaveDepth (k : Kernel) (s : SemId) (t : TaskId) (locked : Bool) : Nat :=
  if !locked ∧ (k.thrds t).state = .SLEEPING then k.semPostDepth s + 1 else 1

theorem semPostDepth_le : k.semPostDepth s ≤ 3 := by
  unfold semPostDepth
  split <;> decide

theorem semTimedwaitLeave_nested (hn : k.irq.nest < wordSize) (locked : Bool) :
    Nested (k.semTimedwaitLeaveDepth s t locked) k (k.semTimedwaitLeave s t locked).2 := by
  have ht : k.startCritical.thrds = k.thrds := rfl
  unfold semTimedwaitLeave semTimedwaitLeaveDepth
  simp only [ht]
  split
  · refine .enclose hn (fun h => ?_) (Nat.lt_of_le_of_lt semPostDepth_le (by decide))
    have hpost := semPost_nested (s := s)
      (k := k.startCritical.store (some t) fun t => { t with state := .ACTIVE }) h
    exact hpost.after rfl
  · exact .enclose hn .refl (by decide)

theorem semTrywait_nested (hn : k.irq.nest < wordSize) : Nested 1 k (k.semTrywait s).2 := by
  unfold semTrywait
  dsimp only
  split
  · refine .enclose hn (fun h => ?_) (by decide)
    exact .none h rfl rfl
  · exact .enclose hn .refl (by decide)

/-! ## Mutexes -/

theorem mtxInit_nested (hn : k.irq.nest < wordSize) : Nested 1 k (k.mtxInit m).2 :=
  .enclose hn (fun h => .none h rfl rfl) (by decide)

@[simp] theorem mtxBoost_irq (u : TaskId) : (k.mtxBoost u t).irq = k.irq := by
  unfold mtxBoost
  dsimp only
  split <;> rfl

/-- How deep `mtx_lock` nests its sections. -/
def mtxLockDepth (k : Kernel) (m : Nat) : Nat := if (k.mtxs m).holder ≠ none then 4 else 2

theorem mtxLock_nested (hn : k.irq.nest < wordSize) (hr : k.runPtr = some t) :
    Nested (k.mtxLockDepth m) k (k.mtxLock m) := by
  have hc : k.startCritical.osTaskCurrent.1 = some t := hr
  have hm : k.startCritical.osTaskCurrent.2.mtxs = k.mtxs := rfl
  unfold mtxLock mtxLockDepth
  simp only [hc, hm]
  cases (k.mtxs m).holder with
  | some u =>
      refine .enclose hn (fun h => ?_) (by decide)
      have hcur : Nested 1 k.startCritical
          ((k.startCritical.osTaskCurrent.2.mtxBoost u t).mtxEnqueue m (some t)) :=
        (osTaskCurrent_nested h).congr (mtxBoost_irq u)
      exact hcur.seq_right osTaskBlock_nested (by decide) (by decide)
  | none =>
      refine .enclose hn (fun h => ?_) (by decide)
      exact (osTaskCurrent_nested h).congr rfl

/-- How deep the first section of `mtx_timedlock` nests others. -/
def mtxTimedlockEnterDepth (k : Kernel) (m timeout : Nat) : Nat :=
  if (k.mtxs m).holder ≠ none ∧ timeout ≠ 0 then 3 else 2

theorem mtxTimedlockEnter_nested (hn : k.irq.nest < wordSize) (hr : k.runPtr = some t) (n : Nat) :
    Nested (k.mtxTimedlockEnterDepth m n) k (k.mtxTimedlockEnter m n).2 := by
  have hc : k.startCritical.osTaskCurrent.1 = some t := hr
  have hm : k.startCritical.osTaskCurrent.2.mtxs = k.mtxs := rfl
  unfold mtxTimedlockEnter mtxTimedlockEnterDepth
  simp only [hc, hm]
  cases (k.mtxs m).holder with
  | some u =>
      have hcur : k.startCritical.irq.nest < wordSize → Nested 1 k.startCritical
          ((k.startCritical.osTaskCurrent.2.mtxBoost u t).mtxEnqueue m (some t)) :=
        fun h => (osTaskCurrent_nested h).congr (mtxBoost_irq u)
      have hsec := Nested.enclose hn (fun h => (hcur h).timedwait (p := some t) n)
        (by split <;> decide)
      rcases eq_or_ne n 0 with rfl | h0
      · exact hsec
      · rw [if_neg h0] at hsec
        rw [if_pos ⟨by simp, h0⟩]
        exact hsec
  | none =>
      rw [if_neg (by simp)]
      refine .enclose hn (fun h => ?_) (by decide)
      exact (osTaskCurrent_nested h).congr rfl

theorem mtxTrylock_nested (hn : k.irq.nest < wordSize) : Nested 2 k (k.mtxTrylock m).2 := by
  unfold mtxTrylock
  dsimp only
  split
  · refine .enclose hn (fun h => ?_) (by decide)
    exact (osTaskCurrent_nested h).congr rfl
  · exact .enclose hn osTaskCurrent_nested (by decide)

/-- How deep `mtx_unlock` nests its sections. -/
def mtxUnlockDepth (k : Kernel) (m : Nat) : Nat := if (k.mtxs m).wq.count > 0 then 3 else 2

theorem mtxRelease_nested (hn : k.irq.nest < wordSize) (u : TaskId) :
    Nested (if (k.mtxs m).wq.count > 0 then 2 else 0) k (k.mtxRelease m u) := by
  unfold mtxRelease
  dsimp only
  have hm : (k.setThrd u fun t => { t with fixedPrio := t.basePrio }).mtxs = k.mtxs := rfl
  rw [hm]
  split
  · exact (osTaskUnpause_nested (by rwa [store_irq])).after (store_irq _)
  · exact .none hn rfl rfl

/-- `mtx_unlock` returns to the holder only. -/
theorem mtxUnlock_nested (hn : k.irq.nest < wordSize) (hr : k.runPtr = some t) {r : Int}
    (hu : k.mtxUnlock m = (some r, k')) : Nested (k.mtxUnlockDepth m) k k' := by
  have hc : k.startCritical.osTaskCurrent.1 = some t := hr
  have hm : k.startCritical.osTaskCurrent.2.mtxs = k.mtxs := rfl
  unfold mtxUnlock at hu
  simp only [hc, hm] at hu
  split at hu
  · cases hu
  · rename_i hh
    rw [not_not.1 hh] at hu
    dsimp only at hu
    rw [← (Prod.mk.inj hu).2]
    have hrel := fun h => mtxRelease_nested (k := k.startCritical.osTaskCurrent.2) (m := m) h t
    unfold mtxUnlockDepth
    rw [hm] at hrel
    split at hrel
    · rename_i hw
      rw [if_pos hw]
      refine .enclose hn (fun h => ?_) (by decide)
      exact (osTaskCurrent_nested h).seq_right hrel (by decide) (by decide)
    · rename_i hw
      rw [if_neg hw]
      refine .enclose hn (fun h => ?_) (by decide)
      exact (osTaskCurrent_nested h).seq_left hrel (by decide) (by decide)

/-- The second section of `mtx_timedlock` returns unless the caller has to give back a mutex that
it does not hold. -/
theorem mtxTimedlockLeave_nested (hn : k.irq.nest < wordSize) (hr : k.runPtr = some t) {r : Int}
    {locked : Bool} (hl : k.mtxTimedlockLeave m t locked = (some r, k')) : Nested 1 k k' := by
  unfold mtxTimedlockLeave at hl
  dsimp only at hl
  split at hl
  · rename_i h
    have hu : ((k.startCritical.store (some t) fun t => { t with state := .ACTIVE }).mtxUnlock m).1 =
        none := by
      unfold mtxUnlock
      dsimp only
      rw [if_pos]
      intro he
      exact h.2 (he.trans hr)
    split at hl
    · cases hl
    · rename_i he
      rw [he] at hu
      cases hu
  · cases hl
    exact .enclose hn .refl (by decide)

/-! ## Creating threads -/

/-- The pool has a free slot, and the run queue has been initialised. -/
def CanCreate (k : Kernel) : Prop :=
  (itemAt k.taskMem.freeList).isSome = true ∧ k.runQueue.HeadLinked

instance (k : Kernel) : Decidable k.CanCreate := inferInstanceAs (Decidable (_ ∧ _ = true))

theorem poolAlloc_fst (pool : Pool) : (poolAlloc pool).1 = pool.freeList := by
  unfold poolAlloc slistRemoveHead
  split
  · rename_i h
    exact h.symm
  · rfl

theorem talloc_nested (hn : k.irq.nest < wordSize) : Nested 1 k k.talloc.2 :=
  .enclose hn (fun h => .none h rfl rfl) (by decide)

/-- Appending to a list that has not been initialised fails. -/
theorem osAddTaskMmang_of_head {q : RunQueue} (h : ¬ q.HeadLinked) (t : TaskId) :
    (q.osAddTaskMmang t).1 = -1 := by
  have hh : listElementInList q.links .head = false := Bool.eq_false_iff.2 h
  unfold RunQueue.osAddTaskMmang listAppend listElementInsertBefore
  dsimp only
  split <;> simp [hh]

/-- `os_task_create` returns a task if it can, and then leaves its section. -/
theorem osTaskCreate_nested (hn : k.irq.nest < wordSize) (hc : k.CanCreate) :
    Nested 2 k k.osTaskCreate.2 ∧ ∃ t, k.osTaskCreate.1 = some t := by
  obtain ⟨i, hi⟩ := Option.isSome_iff_exists.1 hc.1
  have ht : k.startCritical.talloc.1 = k.taskMem.freeList := poolAlloc_fst _
  have h0 : k.taskMem.freeList ≠ 0 := by
    intro h0
    rw [h0] at hi
    cases hi
  have hs : ¬ (Kernel.osAddTask
      { k.startCritical.talloc.2 with
        runQueue.links := listElementInit k.startCritical.talloc.2.runQueue.links (.elem (.slot i)) }
      (some (.slot i))).1 < 0 := not_lt.2 (le_of_eq (hc.2.add_elementInit (.slot i)).symm)
  unfold osTaskCreate
  simp only [ht, if_neg h0, hi]
  rw [if_neg hs]
  refine ⟨.enclose hn (fun h => ?_) (by decide), _, rfl⟩
  have hl : Nested 1 k.startCritical { k.startCritical.talloc.2 with
      runQueue.links := listElementInit k.startCritical.talloc.2.runQueue.links (.elem (.slot i)) } :=
    (talloc_nested h).congr rfl
  exact hl.seq_left osAddTask_nested (by decide) (by decide)

/-- Otherwise one of its early returns leaves the section open. -/
theorem osTaskCreate_leaks (hn : k.irq.nest < wordSize) (hc : ¬ k.CanCreate) :
    Leaks wordSize 2 k.irq.nest k.osTaskCreate.2.irq.nest ∧ k.osTaskCreate.1 = none := by
  have hs : k.startCritical.irq.nest < wordSize := Nat.mod_lt _ (by decide)
  have ht : k.startCritical.talloc.1 = k.taskMem.freeList := poolAlloc_fst _
  have ha := talloc_nested hs
  unfold osTaskCreate
  simp only [ht]
  split
  · exact ⟨.enter ha.nest hn (by decide), rfl⟩
  · split
    · exact ⟨.enter ha.nest hn (by decide), rfl⟩
    · rename_i i hi
      have hl : Nested 1 k.startCritical { k.startCritical.talloc.2 with
          runQueue.links := listElementInit k.startCritical.talloc.2.runQueue.links (.elem (.slot i)) } :=
        ha.congr rfl
      have hadd := hl.seq_left (osAddTask_nested (p := some (.slot i))) (by decide) (by decide)
      have hhead : ¬ RunQueue.HeadLinked { k.runQueue with
          links := listElementInit k.runQueue.links (.elem (.slot i)) } := by
        intro hh
        refine hc ⟨by rw [hi]; rfl, ?_⟩
        unfold RunQueue.HeadLinked listElementInList listElementInit at hh
        dsimp only at hh
        rwa [Function.update_of_ne (by simp)] at hh
      have hfail : (Kernel.osAddTask
          { k.startCritical.talloc.2 with
            runQueue.links := listElementInit k.startCritical.talloc.2.runQueue.links (.elem (.slot i)) }
          (some (.slot i))).1 < 0 := lt_of_eq_of_lt (osAddTaskMmang_of_head hhead (.slot i)) (by decide)
      rw [if_pos hfail]
      exact ⟨.enter hadd.nest hn (by decide), rfl⟩

theorem thrdInit_nested (hn : k.irq.nest < wordSize) {routine : Nat} (h0 : routine ≠ 0) (t : TaskId)
    (priority : Nat) : Nested 1 k (k.thrdInit t routine priority).2 := by
  unfold thrdInit
  rw [if_neg h0]
  cases t with
  | idle => exact (semInit_nested hn 0).congr rfl
  | slot i =>
      have hi := semInit_nested (s := .join (.slot i))
        (k := { k with taskMem := k.taskMem.setSp i (initialSp i) }) hn 0
      have hk : Nested 1 k _ := hi.after rfl
      exact hk.congr rfl

/-- How deep `thrd_create` nests its sections. -/
def thrdCreateDepth (routine priority : Nat) : Nat := if routine = 0 ∨ priority = 0 then 0 else 3

theorem thrdCreate_nested (hn : k.irq.nest < wordSize) {routine priority : Nat}
    (hc : routine = 0 ∨ priority = 0 ∨ k.CanCreate) :
    Nested (thrdCreateDepth routine priority) k (k.thrdCreate routine priority).2 := by
  unfold thrdCreate
  split
  · rename_i hr
    rw [thrdCreateDepth, if_pos (.inl hr)]
    exact .refl hn
  · split
    · rename_i hp
      rw [thrdCreateDepth, if_pos (.inr hp)]
      exact .refl hn
    · rename_i hr hp
      rw [thrdCreateDepth, if_neg (by simp [hr, hp])]
      have hc : k.startCritical.CanCreate := (hc.resolve_left hr).resolve_left hp
      dsimp only
      have hs : k.startCritical.irq.nest < wordSize := Nat.mod_lt _ (by decide)
      obtain ⟨hcreate, t, ht⟩ := osTaskCreate_nested hs hc
      rw [ht]
      refine .enclose hn (fun h => ?_) (by decide)
      exact hcreate.seq_left (fun h => thrdInit_nested h hr t priority) (by decide) (by decide)

theorem thrdCreate_leaks (hn : k.irq.nest < wordSize) {routine priority : Nat}
    (hr : routine ≠ 0) (hp : priority ≠ 0) (hc : ¬ k.CanCreate) :
    Leaks wordSize 3 k.irq.nest (k.thrdCreate routine priority).2.irq.nest := by
  have hs : k.startCritical.irq.nest < wordSize := Nat.mod_lt _ (by decide)
  obtain ⟨hl, ht⟩ := osTaskCreate_leaks hs hc
  unfold thrdCreate
  rw [if_neg hr, if_neg hp]
  dsimp only
  rw [ht, endCritical_nest]
  exact hl.enclose hn (by decide)

/-! ## The end of a thread -/

/-- What the loop of `os_task_exit` does to the counter: it goes back to its value if there is room,
or nobody is waiting, and it wraps around in the round that wakes a thread. -/
structure LoopNested (k : Kernel) (t : TaskId) (k' : Kernel) : Prop where
  lt : k'.irq.nest < wordSize
  keeps : k.irq.nest + 3 < wordSize → k'.irq.nest = k.irq.nest
  idle : (k.sems (.join t)).wq.count = 0 → k'.irq = k.irq
  wraps : wordSize ≤ k.irq.nest + 3 → 0 < (k.sems (.join t)).wq.count →
    (k'.sems (.join t)).wq.count = 0 → k'.irq.nest < 3
  gie : k.irq.nest = 0 → k.irq.gie = true → k'.irq.gie = true

theorem LoopNested.after (h : LoopNested k₁ t k') (hi : k₁.irq = k.irq) (hs : k₁.sems = k.sems) :
    LoopNested k t k' where
  lt := h.lt
  keeps := by
    rw [← hi]
    exact h.keeps
  idle := by
    rw [← hi, ← hs]
    exact h.idle
  wraps := by
    rw [← hi, ← hs]
    exact h.wraps
  gie := by
    rw [← hi]
    exact h.gie

/-- A `sem_post` that wakes nobody leaves the wait queue alone. -/
theorem semPost_count (h : ¬ toInt ((k.sems s).val + 1) ≤ 0) :
    ((k.semPost s).sems s).wq = (k.sems s).wq := by
  unfold semPost
  dsimp only
  rw [semPost_val, if_neg h]
  show (Function.update k.sems s _ s).wq = _
  rw [Function.update_self]
  rfl

theorem wakeJoiners_loop (hn : k.irq.nest < wordSize) (r : Int) (fuel : Nat) :
    LoopNested k t (wakeJoiners t r fuel k) := by
  induction fuel generalizing k with
  | zero =>
      exact ⟨hn, fun _ => rfl, fun _ => rfl, fun _ hc h0 => absurd h0 (Nat.ne_of_gt hc), fun _ hg => hg⟩
  | succ fuel ih =>
      unfold wakeJoiners
      dsimp only
      split
      · rename_i hc
        generalize (if (k.sems (.join t)).wq.backIndex < numThreads then
          (k.sems (.join t)).wq.back.join else none) = x
        have hi : (k.store x fun t => { t with mbox := r }).irq = k.irq := store_irq _
        have hx : (k.store x fun t => { t with mbox := r }).sems = k.sems := by
          cases x <;> rfl
        generalize k.store x (fun t => { t with mbox := r }) = k₀ at hi hx ⊢
        have hpost := semPost_nested (k := k₀) (s := .join t) (hi ▸ hn)
        have hloop := ih hpost.lt
        have hle : k₀.semPostDepth (.join t) ≤ 3 := semPostDepth_le
        rw [← hx] at hc
        refine LoopNested.after ?_ hi hx
        refine ⟨hloop.lt, ?_, fun h0 => absurd h0 (Nat.ne_of_gt hc), ?_, ?_⟩
        · intro hroom
          have hone := hpost.nest.keeps (by omega)
          rw [hloop.keeps (by omega), hone]
        · intro hfull _ hend
          rcases Nat.lt_or_ge (k₀.irq.nest + k₀.semPostDepth (.join t)) wordSize with hlt | hge
          · -- a round that wakes nobody, so that the loop goes on
            have hv : ¬ toInt ((k₀.sems (.join t)).val + 1) ≤ 0 := by
              intro hv
              unfold semPostDepth at hlt
              rw [if_pos hv] at hlt
              omega
            refine hloop.wraps ?_ ?_ hend
            · rw [hpost.nest.keeps hlt]
              exact hfull
            · rw [semPost_count hv]
              exact hc
          · have hw := hpost.nest.wraps hge
            rw [hloop.keeps (by simp only [wordSize]; omega)]
            omega
        · intro h0 hg
          have hroom : k₀.irq.nest + k₀.semPostDepth (.join t) < wordSize := by
            simp only [wordSize]
            omega
          exact hloop.gie ((hpost.nest.keeps hroom).trans h0) (hpost.gie h0 hg)
      · rename_i hc
        exact ⟨hn, fun _ => rfl, fun _ => rfl, fun _ h => absurd h hc, fun _ hg => hg⟩

/-- How deep `os_task_exit` nests its sections. -/
def osTaskExitDepth (k : Kernel) (t : TaskId) : Nat :=
  if (k.sems (.join t)).wq.count > 0 then 4 else 2

/-- `os_task_exit` returns when nobody waits any more. -/
theorem osTaskExit_nested (hn : k.irq.nest < wordSize) (hr : k.runPtr = some t) {r : Int}
    (he : ((k.osTaskExit r).sems (.join t)).wq.count = 0) :
    Nested (k.osTaskExitDepth t) k (k.osTaskExit r) := by
  have hr' : k.startCritical.osTaskCurrent.1 = some t := hr
  have hs : k.startCritical.irq.nest < wordSize := Nat.mod_lt _ (by decide)
  have hcur := osTaskCurrent_nested hs
  have hloop := wakeJoiners_loop (t := t) hcur.lt r (wordSize + numThreads)
  unfold osTaskExit at he ⊢
  simp only [hr'] at he ⊢
  unfold osTaskExitDepth
  split
  · rename_i hc
    refine .enclose hn (fun _ => ?_) (by decide)
    refine hcur.seq_right (e := 3) (fun _ => ?_) (by decide) (by decide)
    exact ⟨hloop.lt, ⟨hloop.keeps, fun hfull => hloop.wraps hfull hc he⟩, hloop.gie⟩
  · rename_i hc
    refine .enclose hn (fun _ => ?_) (by decide)
    exact hcur.congr (hloop.idle (Nat.eq_zero_of_not_pos hc))

/-- Whether the loop ends or not, it leaves interrupts enabled. -/
theorem osTaskExit_unmasked (hr : k.runPtr = some t) (h0 : k.irq.nest = 0) (r : Int) :
    (k.osTaskExit r).irq.nest = 0 ∧ (k.osTaskExit r).irq.gie = true := by
  have hr' : k.startCritical.osTaskCurrent.1 = some t := hr
  have hs : k.startCritical.irq.nest = 1 := by
    rw [startCritical_nest, h0]
    rfl
  have hcur := osTaskCurrent_nested (k := k.startCritical) (by rw [hs]; decide)
  have hone : k.startCritical.osTaskCurrent.2.irq.nest = 1 :=
    (hcur.nest.keeps (by rw [hs]; decide)).trans hs
  have hloop := wakeJoiners_loop (t := t) hcur.lt r (wordSize + numThreads)
  have hend := (hloop.keeps (by rw [hone]; decide)).trans hone
  unfold osTaskExit
  simp only [hr']
  exact ⟨by rw [endCritical_nest, hend], endCritical_gie hend⟩

/-! ## Time and barriers -/

theorem osTime_nested (hn : k.irq.nest < wordSize) : Nested 1 k k.osTime.2 :=
  .enclose hn .refl (by decide)

/-- The semaphores of a `barrier_t`. -/
structure BarrierSems where
  mutex : SemId
  turnstile1 : SemId
  turnstile2 : SemId

/-- What `barrier_init` does to the kernel. -/
def barrierInit (k : Kernel) (barrier : BarrierSems) (value : Nat) : Int × Kernel :=
  if value > numThreads then (-1, k)
  else
    let k := k.startCritical
    let k := (k.semInit barrier.mutex 1).2
    let k := (k.semInit barrier.turnstile1 0).2
    let k := (k.semInit barrier.turnstile2 0).2
    (0, k.endCritical)

theorem barrierInit_nested (hn : k.irq.nest < wordSize) (b : BarrierSems) (value : Nat) :
    Nested (if value > numThreads then 0 else 2) k (k.barrierInit b value).2 := by
  unfold barrierInit
  split
  · exact .refl hn
  · refine .enclose hn (fun h => ?_) (by decide)
    have hinit : ∀ {k : Kernel} {s : SemId} {v : Nat}, v ≤ 1 → k.irq.nest < wordSize →
        Nested 1 k (k.semInit s v).2 := by
      intro k s v hv hn
      have hi := semInit_nested (s := s) hn v
      rwa [if_neg (by simp only [numThreads]; omega)] at hi
    have h₁ := hinit (s := b.mutex) (Nat.le_refl 1) h
    have h₂ := h₁.seq_left (hinit (s := b.turnstile1) (Nat.zero_le 1)) (by decide) (by decide)
    exact h₂.seq_left (hinit (s := b.turnstile2) (Nat.zero_le 1)) (by decide) (by decide)

end Kernel

end MsTos
