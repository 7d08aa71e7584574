-- SUMMARY: The free list of the thread pool over whole runs: when it is exactly the slots without a thread, and how a context save breaks it.
import MsTos.Lib.Chain
import MsTos.RunQueueInvariant

namespace MsTos

/-! ## The pool -/

theorem itemAddr_ne_zero (i : Fin numThreads) : itemAddr i ≠ 0 := by
  show 0x2402 + 218 * i.val ≠ 0
  omega

theorem itemAddr_injective : Function.Injective itemAddr := by
  intro i j h
  replace h : 0x2402 + 218 * i.val = 0x2402 + 218 * j.val := h
  exact Fin.ext (by omega)

@[simp] theorem itemAt_itemAddr (i : Fin numThreads) : itemAt (itemAddr i) = some i := by
  have hi : i.val < 16 := i.isLt
  have h : itemsBase ≤ itemAddr i ∧ (itemAddr i - itemsBase) % itemSize = 0 ∧
      (itemAddr i - itemsBase) / itemSize < numThreads := by
    show 0x2402 ≤ 0x2402 + 218 * i.val ∧ (0x2402 + 218 * i.val - 0x2402) % 218 = 0 ∧
      (0x2402 + 218 * i.val - 0x2402) / 218 < 16
    omega
  have hq : (itemAddr i - itemsBase) / itemSize = i.val := by
    show (0x2402 + 218 * i.val - 0x2402) / 218 = i.val
    omega
  rw [itemAt, dif_pos h]
  exact congrArg some (Fin.ext hq)

namespace Pool

/-- The free list is a chain of the slots of `l`, without duplicates. -/
structure Free (pool : Pool) (l : List (Fin numThreads)) : Prop where
  chain : Chain pool.word 0 pool.freeList (l.map itemAddr)
  nodup : l.Nodup

variable {pool : Pool} {l : List (Fin numThreads)} {i : Fin numThreads} {v : Addr}

theorem notMem_map (hi : i ∉ l) : itemAddr i ∉ l.map itemAddr := by
  simpa [itemAddr_injective.eq_iff] using hi

/-- Writing the first word of a slot that is not free does not disturb the free list. -/
theorem Free.setSp (hf : pool.Free l) (hi : i ∉ l) : (pool.setSp i v).Free l :=
  ⟨hf.chain.update (notMem_map hi) v, hf.nodup⟩

theorem Free.prepend (hf : pool.Free l) (hi : i ∉ l) : (poolFree pool (itemAddr i)).Free (i :: l) := by
  simp only [poolFree, itemAddr_ne_zero, if_false]
  exact ⟨hf.chain.cons (notMem_map hi) (itemAddr_ne_zero i), List.nodup_cons.2 ⟨hi, hf.nodup⟩⟩

theorem Free.alloc_nil (hf : pool.Free []) : poolAlloc pool = (0, pool) := by
  have h0 : pool.freeList = 0 := hf.chain
  simp [poolAlloc, slistRemoveHead, h0]

theorem Free.alloc_cons (hf : pool.Free (i :: l)) :
    (poolAlloc pool).1 = itemAddr i ∧ (poolAlloc pool).2.Free l := by
  have hi : pool.freeList = itemAddr i := hf.chain.1
  have hne : pool.freeList ≠ 0 := hi ▸ itemAddr_ne_zero i
  have ha : poolAlloc pool = (itemAddr i, { pool with freeList := pool.word (itemAddr i) }) := by
    rw [poolAlloc, slistRemoveHead, if_neg hne, hi]
  rw [ha]
  exact ⟨rfl, hf.chain.2.2, (List.nodup_cons.1 hf.nodup).2⟩

theorem free_init (pool : Pool) : (poolInit pool).Free (List.finRange numThreads).reverse := by
  have hfold : ∀ (is : List (Fin numThreads)) (p : Pool) (l : List (Fin numThreads)), p.Free l →
      (is.reverse ++ l).Nodup →
      (is.foldl (fun p i => slistPrepend p (itemAddr i)) p).Free (is.reverse ++ l) := by
    intro is
    induction is with
    | nil => exact fun p l hf _ => hf
    | cons i is ih =>
        intro p l hf hnd
        simp only [List.reverse_cons, List.append_assoc, List.singleton_append] at hnd ⊢
        have hi : i ∉ l := (List.nodup_cons.1 (List.nodup_append.1 hnd).2.1).1
        refine ih _ _ ?_ hnd
        have hp := hf.prepend hi
        rwa [poolFree, if_neg (itemAddr_ne_zero i)] at hp
  have h := hfold (List.finRange numThreads) { pool with freeList := 0 } [] ⟨rfl, List.nodup_nil⟩
  rw [List.append_nil, List.nodup_reverse] at h
  exact h (List.nodup_finRange numThreads)

end Pool

/-! ## The head of the run queue -/

namespace RunQueue

/-- The pseudo head is linked, so that a task can be appended. -/
def HeadLinked (q : RunQueue) : Prop := listElementInList q.links .head = true

variable {q : RunQueue} {t : TaskId} {links : Links Node}

theorem head_listAppend (h : listElementInList links .head = true) (e : Node) :
    listElementInList (listAppend links .head e).2 .head = true := by
  unfold listAppend listElementInsertBefore
  split
  · exact h
  · split
    · exact h
    · simp [listElementInList, setPrev]

theorem head_listRemove (h : listElementInList links .head = true) (t : TaskId) :
    listElementInList (listRemove links (.elem t)).2 .head = true := by
  have hset : ∀ (links : Links Node) (p v : Option Node), v.isSome →
      listElementInList links .head = true →
      listElementInList (setPrev links p v) .head = true := by
    intro links p v hv hl
    cases p with
    | none => exact hl
    | some p =>
        show (prevOf (setPrev links (some p) v) .head).isSome = true
        rw [prevOf_setPrev, Function.update_apply]
        split
        · exact hv
        · exact hl
  have hnext : ∀ (links : Links Node) (p v : Option Node), prevOf (setNext links p v) = prevOf links := by
    intro links p v
    cases p with
    | none => rfl
    | some p => exact prevOf_setNext links p v
  unfold listRemove listElementRemove
  split
  · exact h
  · rename_i he
    show (prevOf (setPrev (setNext _ (some _) none) (some _) none) Node.head).isSome = true
    rw [prevOf_setPrev, Function.update_of_ne (by simp), hnext]
    apply hset
    · show (prevOf (setNext _ _ _) _).isSome = true
      rw [hnext]
      simpa [listElementInList, prevOf, Option.isSome_iff_ne_none] using he
    · show (prevOf (setNext _ _ _) _).isSome = true
      rw [hnext]
      exact h

theorem HeadLinked.add (h : q.HeadLinked) (t : TaskId) : (q.osAddTaskMmang t).2.HeadLinked := by
  have ha := head_listAppend h (.elem t)
  unfold osAddTaskMmang
  dsimp only
  split <;> split <;> exact ha

theorem HeadLinked.del (h : q.HeadLinked) (t : TaskId) : (q.osDelTaskMmang t).2.HeadLinked := by
  have hr := head_listRemove h t
  unfold osDelTaskMmang
  split
  · exact h
  · dsimp only
    split <;> exact hr

theorem HeadLinked.changeTask (h : q.HeadLinked) : q.osChangeTask.2.HeadLinked := by
  unfold osChangeTask
  split <;> exact h

theorem HeadLinked.elementInit (h : q.HeadLinked) (t : TaskId) :
    RunQueue.HeadLinked { q with links := listElementInit q.links (.elem t) } := by
  have hne : Node.head ≠ .elem t := by simp
  simpa [HeadLinked, listElementInList, listElementInit, Function.update_of_ne hne] using h

/-- A task whose links have just been cleared can be added. -/
theorem HeadLinked.add_elementInit (h : q.HeadLinked) (t : TaskId) :
    (RunQueue.osAddTaskMmang { q with links := listElementInit q.links (.elem t) } t).1 = 0 := by
  have hh : listElementInList (listElementInit q.links (.elem t)) .head = true := h.elementInit t
  have he : listElementInList (listElementInit q.links (.elem t)) (.elem t) = false := by
    simp [listElementInList, listElementInit]
  have hs : (listAppend (listElementInit q.links (.elem t)) .head (.elem t)).1 = 0 := by
    simp [listAppend, listElementInsertBefore, hh, he]
  unfold osAddTaskMmang
  dsimp only
  split <;> split <;> simp_all

end RunQueue

/-! ## Creation and the end of a thread -/

namespace Kernel

variable {k : Kernel} {l : List (Fin numThreads)}

theorem osTaskCreate_free (hf : k.taskMem.Free l) (hh : k.runQueue.HeadLinked) :
    k.osTaskCreate.1 = none ∧ k.osTaskCreate.2.taskMem = k.taskMem ∨
      ∃ i l', l = i :: l' ∧ k.osTaskCreate.1 = some (.slot i) ∧
        k.osTaskCreate.2.taskMem.Free l' := by
  have h₁ : k.startCritical.talloc.1 = (poolAlloc k.taskMem).1 := rfl
  have h₂ : k.startCritical.talloc.2.taskMem = (poolAlloc k.taskMem).2 := rfl
  unfold osTaskCreate
  dsimp only
  cases l with
  | nil =>
      left
      rw [h₁, hf.alloc_nil, if_pos rfl]
      exact ⟨rfl, by rw [h₂, hf.alloc_nil]⟩
  | cons i l =>
      right
      refine ⟨i, l, rfl, ?_⟩
      rw [h₁, hf.alloc_cons.1, if_neg (itemAddr_ne_zero i), itemAt_itemAddr]
      dsimp only
      have hs : (({ k.startCritical.talloc.2 with
          runQueue.links := listElementInit k.startCritical.talloc.2.runQueue.links
            (.elem (.slot i)) } : Kernel).osAddTask (some (.slot i))).1 = 0 :=
        hh.add_elementInit (.slot i)
      rw [hs, if_neg (by decide)]
      refine ⟨rfl, ?_⟩
      rw [endCritical_taskMem, osAddTask_taskMem]
      exact hf.alloc_cons.2

theorem thrdInit_free (hf : k.taskMem.Free l) {i : Fin numThreads} (hi : i ∉ l)
    (routine priority : Nat) : (k.thrdInit (.slot i) routine priority).2.taskMem.Free l := by
  unfold thrdInit semInit
  split
  · exact hf
  · exact hf.setSp hi

/-- What `thrd_create` does to the free list: it takes the first slot, or nothing. -/
theorem thrdCreate_free (hf : k.taskMem.Free l) (hh : k.runQueue.HeadLinked)
    (routine priority : Nat) :
    (k.thrdCreate routine priority).1.2 = none ∧
        (k.thrdCreate routine priority).2.taskMem = k.taskMem ∨
      ∃ i l', l = i :: l' ∧ (k.thrdCreate routine priority).1.2 = some (.slot i) ∧
        (k.thrdCreate routine priority).2.taskMem.Free l' := by
  have hf' : k.startCritical.taskMem.Free l := hf
  have hh' : k.startCritical.runQueue.HeadLinked := hh
  unfold thrdCreate
  split
  · exact .inl ⟨rfl, rfl⟩
  · split
    · exact .inl ⟨rfl, rfl⟩
    · dsimp only
      cases osTaskCreate_free hf' hh' with
      | inl hn =>
          rw [hn.1]
          exact .inl ⟨rfl, hn.2⟩
      | inr hs =>
          obtain ⟨i, l', rfl, ht, hl'⟩ := hs
          rw [ht]
          refine .inr ⟨i, l', rfl, rfl, ?_⟩
          exact thrdInit_free hl' (List.nodup_cons.1 hf.nodup).1 routine priority

theorem osTaskKill_free (hf : k.taskMem.Free l) {i : Fin numThreads} (hr : k.runPtr = some (.slot i))
    (hi : i ∉ l) : k.osTaskKill.taskMem.Free (i :: l) := by
  have he : k.osTaskKill.taskMem = poolFree k.taskMem (itemAddr i) := by
    simp [osTaskKill, tfree, show k.startCritical.runPtr = some (.slot i) from hr]
  rw [he]
  exact hf.prepend hi

end Kernel

/-! ## Runs -/

namespace Sys

variable {s s' : Sys} {a : Action} {e : Option Event} {t : TaskId}

/-- The context of a thread that has been killed is saved over the link of its slot. Saving the
link itself is the only harmless value. -/
def SaveGuard (s : Sys) (a : Action) : Prop :=
  match a with
  | .tick sp =>
      ∀ i, s.k.runPtr = some (.slot i) → s.pc (.slot i) = .none →
        sp = s.k.taskMem.word (itemAddr i)
  | _ => True

instance (s : Sys) (a : Action) : Decidable (s.SaveGuard a) := by
  unfold SaveGuard
  cases a <;> infer_instance

/-- The free list consists of the slots that belong to no thread. -/
structure PoolOk (s : Sys) : Prop where
  free : ∃ l, s.k.taskMem.Free l ∧ ∀ i, i ∈ l ↔ s.pc (.slot i) = .none
  headLinked : s.k.runQueue.HeadLinked

theorem boot_poolOk (vals : Nat → Nat) : (boot vals).PoolOk where
  free := by
    refine ⟨_, Pool.free_init _, ?_⟩
    simp [boot]
  headLinked := rfl

/-- The free slots while a thread that has been created starts. -/
theorem spawn_free {l : List (Fin numThreads)} (hf : s.k.taskMem.Free l)
    (hl : ∀ i, i ∈ l ↔ s.pc (.slot i) = .none) (hh : s.k.runQueue.HeadLinked)
    (routine priority : Nat) :
    ∃ l', (s.k.thrdCreate routine priority).2.taskMem.Free l' ∧
      ∀ i, i ∈ l' ↔ ({ s with k := (s.k.thrdCreate routine priority).2 }.spawn
        (s.k.thrdCreate routine priority).1.2).pc (.slot i) = .none := by
  cases Kernel.thrdCreate_free hf hh routine priority with
  | inl hn =>
      rw [hn.1, hn.2]
      exact ⟨l, hf, hl⟩
  | inr hs =>
      obtain ⟨i, l', rfl, ht, hl'⟩ := hs
      rw [ht]
      refine ⟨l', hl', fun j => ?_⟩
      have hi : i ∉ l' := (List.nodup_cons.1 hf.nodup).1
      cases eq_or_ne j i with
      | inl hj =>
          subst hj
          simp [spawn, setPc, hi]
      | inr hj =>
          have hne : TaskId.slot j ≠ .slot i := fun h => hj (TaskId.slot.inj h)
          have := hl j
          simpa [spawn, setPc, Function.update_of_ne hne, hj] using this

/-- The free slots while a thread moves on in its code. -/
theorem mem_free_update {l : List (Fin numThreads)} {pc : TaskId → Pc} {p : Pc}
    (hl : ∀ i, i ∈ l ↔ pc (.slot i) = .none) (ht : pc t ≠ .none) (hp : p ≠ .none)
    (i : Fin numThreads) : i ∈ l ↔ Function.update pc t p (.slot i) = .none := by
  rw [Function.update_apply]
  split
  · rename_i he
    rw [hl, he]
    exact ⟨fun h => absurd h ht, fun h => absurd h hp⟩
  · exact hl i

theorem stepCall_free {l : List (Fin numThreads)} (c : Call) (hf : s.k.taskMem.Free l)
    (hl : ∀ i, i ∈ l ↔ s.pc (.slot i) = .none) (hh : s.k.runQueue.HeadLinked)
    (hpc : s.pc t = .user) :
    ∃ l', (s.stepCall t c).2.k.taskMem.Free l' ∧
      ∀ i, i ∈ l' ↔ (s.stepCall t c).2.pc (.slot i) = .none := by
  by_cases hc : ∃ r p, c = .thrdCreate r p
  · obtain ⟨r, p, rfl⟩ := hc
    obtain ⟨l', hf', hl'⟩ := spawn_free hf hl hh r p
    have hu : ({ s with k := (s.k.thrdCreate r p).2 }.spawn (s.k.thrdCreate r p).1.2).pc t
        ≠ .none := spawn_pc (by simp [hpc]) _
    rcases complete_pc (s := { s with k := (s.k.thrdCreate r p).2 }.spawn
      (s.k.thrdCreate r p).1.2) t (.thrdCreate r p) (s.k.thrdCreate r p).1.1 with ⟨q, hq, he⟩
    refine ⟨l', ?_, fun i => ?_⟩
    · simp only [stepCall, complete_k, spawn_k]
      exact hf'
    · rw [stepCall, he]
      exact mem_free_update hl' hu hq i
  · have hne : ∀ r p, c ≠ .thrdCreate r p := fun r p h => hc ⟨r, p, h⟩
    obtain ⟨p, hp, he⟩ := stepCall_pc t c hne
    rw [stepCall_taskMem t c hne, he]
    exact ⟨l, hf, mem_free_update hl (by simp [hpc]) hp⟩

theorem stepResume_free {l : List (Fin numThreads)} (hf : s.k.taskMem.Free l)
    (hl : ∀ i, i ∈ l ↔ s.pc (.slot i) = .none) (hr : s.k.runPtr = some t)
    (hs : s.stepResume t = some (e, s')) :
    ∃ l', s'.k.taskMem.Free l' ∧ ∀ i, i ∈ l' ↔ s'.pc (.slot i) = .none := by
  have hpc : s.pc t ≠ .none := by
    intro hn
    simp [stepResume, hn] at hs
  cases eq_or_ne (s.pc t) .kill with
  | inl hk =>
      rw [stepResume_kill t hk] at hs
      cases hs
      cases t with
      | idle =>
          refine ⟨l, ?_, fun i => ?_⟩
          · have he : s.k.osTaskKill.taskMem = s.k.taskMem := by
              simp [Kernel.osTaskKill, Kernel.tfree, show s.k.startCritical.runPtr = some .idle from hr]
            exact he ▸ hf
          · simpa [setPc] using hl i
      | slot i =>
          have hi : i ∉ l := mt (hl i).1 hpc
          refine ⟨i :: l, Kernel.osTaskKill_free hf hr hi, fun j => ?_⟩
          rw [List.mem_cons, hl j]
          show j = i ∨ s.pc (.slot j) = .none ↔ Function.update s.pc (.slot i) .none (.slot j) = .none
          rw [Function.update_apply]
          split
          · simp_all
          · simp_all
  | inr hk =>
      obtain ⟨p, hp, he⟩ := stepResume_pc t hk hs
      have hm : s'.k.taskMem = s.k.taskMem := congrArg Base.taskMem (stepResume_base t hk hs)
      rw [hm, he]
      exact ⟨l, hf, mem_free_update hl hpc hp⟩

/-- Saving a context keeps the free list: the thread has its slot, or the link does not change. -/
theorem tick_free {l : List (Fin numThreads)} {sp : Addr} (hf : s.k.taskMem.Free l)
    (hl : ∀ i, i ∈ l ↔ s.pc (.slot i) = .none) (hg : s.SaveGuard (.tick sp)) :
    (osTick s.k sp).taskMem.Free l := by
  have ht : (osTick s.k sp).taskMem = (save s.k sp).taskMem := by simp [osTick]
  rw [ht, save]
  dsimp only
  split
  · rename_i i hr
    cases eq_or_ne (s.pc (.slot i)) .none with
    | inl hi =>
        rw [hg i hr hi, Pool.setSp, Function.update_eq_self]
        exact hf
    | inr hi => exact hf.setSp (mt (hl i).1 hi)
  · exact hf

theorem step_poolOk (hi : s.PoolOk) (hg : s.SaveGuard a) (hs : s.step a = some (e, s')) :
    s'.PoolOk := by
  obtain ⟨⟨l, hf, hl⟩, hh⟩ := hi
  refine ⟨?_, ?_⟩
  · cases (steps_of_step hs).2 with
    | create routine priority hr =>
        rw [spawn_k]
        exact spawn_free hf hl hh _ _
    | launch hr =>
        refine ⟨l, ?_, hl⟩
        have he : (osStart s.k).taskMem = s.k.taskMem := by
          unfold osStart Kernel.osFirstTask
          dsimp only
          split <;> rfl
        exact he ▸ hf
    | call c hr hpc hp => exact stepCall_free c hf hl hh hpc
    | resume hr hp hs => exact stepResume_free hf hl hr hs
    | tick sp hr hgie => exact ⟨l, tick_free hf hl hg, hl⟩
  · exact step_keeps ⟨fun _ t h => h.add t, fun h => h.changeTask⟩ hh
      (fun _ i _ => hh.elementInit (.slot i)) (fun t _ => hh.del t) hs

theorem run_poolOk {vals : Nat → Nat} {h : List (Option Event)}
    (hr : (system vals).Run SaveGuard h s) : s.PoolOk := by
  refine hr.invariant (P := fun _ s => s.PoolOk) ?_ ?_
  · rintro s rfl
    exact boot_poolOk vals
  · intro h s a e s' hi hg hs
    exact step_poolOk hi hg hs

/-- The free list is a chain, without duplicates, of exactly the slots of no thread, so that the
pool hands out `NULL` or such a slot. -/
theorem alloc_unowned {vals : Nat → Nat} {h : List (Option Event)}
    (hr : (system vals).Run SaveGuard h s) :
    (∃ l : List (Fin numThreads),
      Chain s.k.taskMem.word 0 s.k.taskMem.freeList (l.map itemAddr) ∧ l.Nodup ∧
        ∀ i, i ∈ l ↔ s.pc (.slot i) = .none) ∧
    ((poolAlloc s.k.taskMem).1 = 0 ∨
      ∃ i, (poolAlloc s.k.taskMem).1 = itemAddr i ∧ s.pc (.slot i) = .none) := by
  obtain ⟨l, hf, hl⟩ := (run_poolOk hr).free
  refine ⟨⟨l, hf.chain, hf.nodup, hl⟩, ?_⟩
  cases l with
  | nil => exact .inl (by rw [hf.alloc_nil])
  | cons i l => exact .inr ⟨i, hf.alloc_cons.1, (hl i).1 List.mem_cons_self⟩

/-- A thread has exited, and the tick that it has requested is still to come. -/
theorem alloc_unowned_after_exit :
    ∃ h s, (system fun _ => 0).Run SaveGuard h s ∧
      (∃ l : List (Fin numThreads),
        Chain s.k.taskMem.word 0 s.k.taskMem.freeList (l.map itemAddr) ∧ l.Nodup ∧
          ∀ i, i ∈ l ↔ s.pc (.slot i) = .none) ∧
      ((poolAlloc s.k.taskMem).1 = 0 ∨
        ∃ i, (poolAlloc s.k.taskMem).1 = itemAddr i ∧ s.pc (.slot i) = .none) := by
  rcases exists_run (fun _ => 0) (G := SaveGuard)
    [.create 1 1, .create 1 1, .launch, .tick 0x2500, .call (.thrdExit 0), .resume]
    (P := fun _ s => s.pc (.slot 14) = .none) (by decide +kernel) with ⟨h, s, hr, -⟩
  exact ⟨h, s, hr, alloc_unowned hr⟩

/-- The first thread exits. Its context is saved into its slot, which is free by then, so that
after the next creation the free list starts with the stack pointer that was saved. -/
theorem alloc_saved_sp :
    ∃ h s, (system fun _ => 0).Run (fun _ _ => True) h s ∧
      (poolAlloc s.k.taskMem).1 = itemAddr 15 + 100 ∧ itemAt (itemAddr 15 + 100) = none :=
  exists_run (fun _ => 0)
    [.create 1 1, .create 1 1, .launch, .call (.thrdExit 0), .resume, .tick (itemAddr 15 + 100),
      .call (.thrdCreate 1 1)]
    (by decide +kernel)

end Sys

end MsTos
