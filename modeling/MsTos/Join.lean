-- SUMMARY: Exit codes of joined threads: what the loop of `os_task_exit` delivers, and when it delivers what it should.
import MsTos.Cursor
import MsTos.Refinement

namespace MsTos

namespace Kernel

variable {k k' : Kernel} {this t u x : TaskId} {ws : List TaskId} {code : Int} {s : SemId}

/-! ## The threads that join -/

/-- The threads of `ws`, in this order, are blocked on `join_sem` of `this`. -/
structure Joined (k : Kernel) (this : TaskId) (ws : List TaskId) : Prop where
  list : ∃ l, k.runQueue.Holds l
  queue : (k.sems (.join this)).wq.Ok
  waiters : (k.sems (.join this)).wq.toList = ws.map some
  nodup : ws.Nodup
  val : (k.sems (.join this)).val = -ws.length
  unlinked : ∀ u ∈ ws, k.runQueue.linked u = false

/-- Every thread of `ws` has got the code in its `mbox`, nobody else has, each of them is in the run
queue, once, and the join queue is empty. -/
structure Delivered (k : Kernel) (this : TaskId) (ws : List TaskId) (code : Int) (k' : Kernel) :
    Prop where
  fault : k'.fault = false
  mbox : ∀ t, (k'.thrds t).mbox = if t ∈ ws then code else (k.thrds t).mbox
  linked : ∀ t, k'.runQueue.linked t = true ↔ k.runQueue.linked t = true ∨ t ∈ ws
  once : k'.runQueue.taskActiveCnt = k.runQueue.taskActiveCnt + ws.length
  empty : (k'.sems (.join this)).wq.toList = []

/-- The thread that a round of the loop writes to. -/
def wakeupThrd (k : Kernel) (this : TaskId) : ThrdPtr :=
  if (k.sems (.join this)).wq.backIndex < numThreads then (k.sems (.join this)).wq.back.join
  else none

theorem Joined.count (h : k.Joined this ws) : (k.sems (.join this)).wq.count = ws.length := by
  rw [← Queue.length_toList, h.waiters, List.length_map]

theorem Joined.length_le (h : k.Joined this ws) : ws.length ≤ numThreads :=
  h.count ▸ h.queue.count_le

/-! ## The loop -/

theorem wakeJoiners_succ (fuel : Nat) : wakeJoiners this code (fuel + 1) k =
    if (k.sems (.join this)).wq.count > 0 then
      wakeJoiners this code fuel
        ((k.store (k.wakeupThrd this) fun t => { t with mbox := code }).semPost (.join this))
    else k := rfl

@[simp] theorem wake_sems : (k.wake u).sems = k.sems := rfl

@[simp] theorem wake_runQueue : (k.wake u).runQueue = (k.runQueue.osAddTaskMmang u).2 := rfl

theorem osTaskUnpause_fault (hf : k.fault = true) (p : ThrdPtr) : (k.osTaskUnpause p).fault = true := by
  cases p with
  | none => rfl
  | some t => exact hf

/-- A fault stays. -/
theorem semPost_fault (hf : k.fault = true) : (k.semPost s).fault = true := by
  unfold semPost
  dsimp only
  show (if _ then _ else _ : Kernel).fault = true
  split
  · apply osTaskUnpause_fault
    exact hf
  · exact hf

theorem wakeJoiners_fault (hf : k.fault = true) (fuel : Nat) :
    (wakeJoiners this code fuel k).fault = true := by
  induction fuel generalizing k with
  | zero => rfl
  | succ fuel ih =>
      rw [wakeJoiners_succ]
      split
      · refine ih (semPost_fault ?_)
        cases k.wakeupThrd this with
        | none => rfl
        | some t => exact hf
      · exact hf

/-- One round: `x` gets the code, and `u` is woken. -/
structure JoinRound (k : Kernel) (this x u : TaskId) (code : Int) (k' : Kernel) : Prop where
  closed : k'.Closed
  thrds : k'.thrds = Function.update
    (Function.update k.thrds x { k.thrds x with mbox := code }) u
    { Function.update k.thrds x { k.thrds x with mbox := code } u with state := .ACTIVE }
  linked : k'.runQueue.linked = Function.update k.runQueue.linked u true
  fault : k'.fault = k.fault
  slots : (k'.sems (.join this)).wq.backIndex = (k.sems (.join this)).wq.backIndex ∧
    (k'.sems (.join this)).wq.storage = (k.sems (.join this)).wq.storage

theorem Joined.round (h : k.Joined this (u :: ws)) (hc : k.Closed) :
    k.JoinRound this x u code ((k.store (some x) fun t => { t with mbox := code }).semPost (.join this)) ∧
      Joined ((k.store (some x) fun t => { t with mbox := code }).semPost (.join this)) this ws := by
  have hw : (k.sems (.join this)).wq.toList = some u :: ws.map some := h.waiters
  have hpop := Queue.toList_pop hw
  have hle := h.length_le
  have hval : toInt ((k.sems (.join this)).val + 1) = -ws.length := by
    have := h.val
    simp only [List.length_cons, numThreads] at hle this
    rw [toInt_of_mem (by omega) (by omega)]
    omega
  have hneg : ¬ 0 < toInt ((k.sems (.join this)).val + 1) := by omega
  -- the store changes one `mbox` only
  obtain ⟨k₁, hk₁, hirq, hthrds, hrq, hfault, hsems⟩ : ∃ k₁,
      (k.store (some x) fun t => { t with mbox := code }) = k₁ ∧ k₁.irq = k.irq ∧
        k₁.thrds = Function.update k.thrds x { k.thrds x with mbox := code } ∧
        k₁.runQueue = k.runQueue ∧ k₁.fault = k.fault ∧ k₁.sems = k.sems :=
    ⟨_, rfl, rfl, rfl, rfl, rfl, rfl⟩
  rw [hk₁, semPost_of_some (.inr (hirq.trans hc)) (by rwa [hsems]) (by rw [hsems]; exact hpop.1)]
  obtain ⟨l, hl⟩ := h.list
  have hsem : (((k₁.semUp (.join this)).semDequeue (.join this)).wake u).sems (.join this) =
      { val := toInt ((k.sems (.join this)).val + 1), wq := (k.sems (.join this)).wq.pop.2 } := by
    rw [wake_sems, semDequeue, setSem, semUp, setSem, hsems]
    simp only [Function.update_self]
  have hrun : (((k₁.semUp (.join this)).semDequeue (.join this)).wake u).runQueue =
      (k.runQueue.osAddTaskMmang u).2 := by
    rw [wake_runQueue, ← hrq]
    rfl
  have hlinked := hl.linked_add u
  rw [← hrun] at hlinked
  have hlist := hl.exists_add u
  rw [← hrun] at hlist
  have hwoken : (((k₁.semUp (.join this)).semDequeue (.join this)).wake u).thrds =
      Function.update k₁.thrds u { k₁.thrds u with state := .ACTIVE } := rfl
  rw [hthrds] at hwoken
  refine ⟨⟨hirq.trans hc, hwoken, hlinked, hfault, ?_⟩,
    ⟨hlist, ?_, ?_, (List.nodup_cons.1 h.nodup).2, ?_, ?_⟩⟩
  · rw [hsem]
    unfold Queue.backIndex
    rw [Queue.pop_of_pos (by rw [h.count]; exact Nat.succ_pos _)]
    exact ⟨rfl, rfl⟩
  · rw [hsem]
    exact h.queue.pop
  · rw [hsem]
    exact hpop.2
  · rw [hsem]
    exact hval
  · intro y hy
    have hne : y ≠ u := by
      rintro rfl
      exact (List.nodup_cons.1 h.nodup).1 hy
    refine (congrFun hlinked y).trans ?_
    rw [Function.update_of_ne hne]
    exact h.unlinked y (List.mem_cons_of_mem _ hy)

theorem Joined.wakeupThrd_eq (h : k.Joined this ws) (hne : ws ≠ []) :
    k.wakeupThrd this = if (k.sems (.join this)).wq.backIndex < numThreads then
      (k.sems (.join this)).wq.storage (k.sems (.join this)).wq.backIndex else none := by
  have hpos : (k.sems (.join this)).wq.count > 0 := by
    rw [h.count]
    exact List.length_pos_iff.2 hne
  unfold wakeupThrd Queue.back
  rw [if_pos hpos]
  rfl

/-- What the loop has done when it ends: `x` has got the code if anybody was waiting. -/
structure Woken (k : Kernel) (this x : TaskId) (ws : List TaskId) (code : Int) (k' : Kernel) :
    Prop where
  fault : k'.fault = k.fault
  mbox : ∀ t, (k'.thrds t).mbox = if t = x ∧ ws ≠ [] then code else (k.thrds t).mbox
  linked : ∀ t, k'.runQueue.linked t = true ↔ k.runQueue.linked t = true ∨ t ∈ ws
  list : ∃ l, k'.runQueue.Holds l
  empty : (k'.sems (.join this)).wq.toList = []

/-- The loop peeks the same slot in every round. -/
theorem Joined.woken (h : k.Joined this ws) (hc : k.Closed)
    (hx : ws ≠ [] → k.wakeupThrd this = some x) {fuel : Nat} (hf : ws.length < fuel) :
    k.Woken this x ws code (wakeJoiners this code fuel k) := by
  induction ws generalizing k fuel with
  | nil =>
      rw [wakeJoiners_of_count h.count code fuel (Nat.ne_zero_of_lt hf)]
      refine ⟨rfl, by simp, by simp, h.list, h.waiters⟩
  | cons u ws ih =>
      obtain ⟨fuel, rfl⟩ := Nat.exists_eq_succ_of_ne_zero (Nat.ne_zero_of_lt hf)
      have hpos : (k.sems (.join this)).wq.count > 0 := by
        rw [h.count]
        exact Nat.succ_pos _
      rw [Nat.succ_eq_add_one, wakeJoiners_succ, if_pos hpos, hx (List.cons_ne_nil _ _)]
      have hround : k.JoinRound this x u code _ ∧ Joined _ this ws := h.round hc
      obtain ⟨hr, hj⟩ := hround
      have hpeek : ws ≠ [] → wakeupThrd ((k.store (some x) fun t =>
          { t with mbox := code }).semPost (.join this)) this = some x := by
        intro hne
        rw [hj.wakeupThrd_eq hne, hr.slots.1, hr.slots.2, ← h.wakeupThrd_eq (List.cons_ne_nil _ _)]
        exact hx (List.cons_ne_nil _ _)
      have hw := ih hj hr.closed hpeek (Nat.lt_of_succ_lt_succ hf)
      refine ⟨hw.fault.trans hr.fault, ?_, ?_, hw.list, hw.empty⟩
      · intro t
        rw [hw.mbox, hr.thrds]
        simp only [Function.update_apply]
        split
        · simp_all
        · split <;> split <;> simp_all
      · intro t
        rw [hw.linked, hr.linked, Function.update_apply, List.mem_cons]
        split <;> simp_all

/-! ## `os_task_exit` -/

/-- In its critical section. -/
theorem Joined.enter (h : k.Joined this ws) : k.startCritical.osTaskCurrent.2.Joined this ws :=
  ⟨h.list, h.queue, h.waiters, h.nodup, h.val, h.unlinked⟩

theorem osTaskExit_run (hr : k.runPtr = some this) : k.osTaskExit code =
    (wakeJoiners this code (wordSize + numThreads) k.startCritical.osTaskCurrent.2).endCritical := by
  have hr' : k.startCritical.osTaskCurrent.1 = some this := hr
  unfold osTaskExit
  simp only [hr']

theorem Joined.exit_woken (h : k.Joined this ws) (ho : k.Open) (hr : k.runPtr = some this)
    (hx : ws ≠ [] → k.wakeupThrd this = some x) : k.Woken this x ws code (k.osTaskExit code) := by
  have hc : k.startCritical.osTaskCurrent.2.Closed := by
    cases k
    subst ho
    rfl
  have hlt : ws.length < wordSize + numThreads := by
    have := h.length_le
    simp only [numThreads, wordSize] at *
    omega
  have hw : Woken _ this x ws code _ := h.enter.woken hc hx hlt
  rw [osTaskExit_run hr]
  exact ⟨hw.fault, hw.mbox, hw.linked, hw.list, hw.empty⟩

/-- Without a thread to write to, the code goes through a `NULL` or undefined pointer. -/
theorem osTaskExit_fault (hr : k.runPtr = some this) (hpos : (k.sems (.join this)).wq.count > 0)
    (hx : k.wakeupThrd this = none) : (k.osTaskExit code).fault = true := by
  have hpos' : (k.startCritical.osTaskCurrent.2.sems (.join this)).wq.count > 0 := hpos
  have hx' : k.startCritical.osTaskCurrent.2.wakeupThrd this = none := hx
  rw [osTaskExit_run hr]
  show (wakeJoiners this code (wordSize + 15 + 1) _).fault = true
  rw [wakeJoiners_succ, if_pos hpos', hx']
  exact wakeJoiners_fault (semPost_fault rfl) _

theorem Joined.osTaskExit_fault (h : k.Joined this ws) (hr : k.runPtr = some this) (hne : ws ≠ [])
    (hx : k.wakeupThrd this = none) : (k.osTaskExit code).fault = true := by
  refine Kernel.osTaskExit_fault hr ?_ hx
  rw [h.count]
  exact List.length_pos_iff.2 hne

theorem Woken.once (h : k.Joined this ws) (hw : k.Woken this x ws code k') :
    k'.runQueue.taskActiveCnt = k.runQueue.taskActiveCnt + ws.length := by
  obtain ⟨l, hl⟩ := h.list
  obtain ⟨l', hl'⟩ := hw.list
  have hdisj : ∀ u ∈ l, ∀ y ∈ ws, u ≠ y := by
    rintro u hu _ hy rfl
    have := h.unlinked u hy
    rw [hl.linked_iff.2 hu] at this
    cases this
  have hperm : l'.Perm (l ++ ws) := by
    rw [List.perm_ext_iff_of_nodup hl'.nodup (List.nodup_append.2 ⟨hl.nodup, h.nodup, hdisj⟩)]
    intro u
    rw [← hl'.linked_iff, hw.linked, hl.linked_iff, List.mem_append]
  rw [hl.count, hl'.count, hperm.length_eq, List.length_append]

/-- `os_task_exit` delivers every exit code as it should if and only if one thread has joined, and
the slot of the join queue behind the one that was written last holds this thread, too. -/
theorem exit_delivers_iff (ho : k.Open) (hr : k.runPtr = some this) (hf : k.fault = false)
    (hj : k.Joined this ws) (hne : ws ≠ []) :
    (∀ code, k.Delivered this ws code (k.osTaskExit code)) ↔
      ∃ u, ws = [u] ∧ (k.sems (.join this)).wq.backIndex < numThreads ∧
        (k.sems (.join this)).wq.storage (k.sems (.join this)).wq.backIndex = some u := by
  constructor
  · intro hd
    -- a code that no thread has in its `mbox`
    obtain ⟨code, hcode⟩ := Infinite.exists_notMem_finset (Finset.univ.image fun t => (k.thrds t).mbox)
    have hnew : ∀ t, (k.thrds t).mbox ≠ code := by
      intro t he
      exact hcode (Finset.mem_image.2 ⟨t, Finset.mem_univ t, he⟩)
    have hd := hd code
    cases hx : k.wakeupThrd this with
    | none =>
        have hfault : (k.osTaskExit code).fault = true := hj.osTaskExit_fault hr hne hx
        rw [hd.fault] at hfault
        cases hfault
    | some x =>
        have hw : k.Woken this x ws code _ := hj.exit_woken ho hr fun _ => hx
        have hmem : ∀ t, t ∈ ws ↔ t = x := by
          intro t
          have hm := (hd.mbox t).symm.trans (hw.mbox t)
          have ht := hnew t
          constructor
          · intro htw
            by_contra htx
            rw [if_pos htw, if_neg (fun hc => htx hc.1)] at hm
            exact ht hm.symm
          · intro htx
            by_contra htw
            rw [if_neg htw, if_pos ⟨htx, hne⟩] at hm
            exact ht hm
        have hws : ws = [x] := by
          have hperm : ws.Perm [x] := by
            rw [List.perm_ext_iff_of_nodup hj.nodup (List.nodup_singleton x)]
            intro t
            rw [hmem, List.mem_singleton]
          exact List.perm_singleton.1 hperm
        rw [hj.wakeupThrd_eq hne] at hx
        split at hx
        · rename_i hlt
          exact ⟨x, hws, hlt, hx⟩
        · cases hx
  · rintro ⟨u, rfl, hlt, hu⟩ code
    have hx : k.wakeupThrd this = some u := by
      rw [hj.wakeupThrd_eq hne, if_pos hlt, hu]
    have hw : k.Woken this u [u] code _ := hj.exit_woken ho hr fun _ => hx
    refine ⟨hw.fault.trans hf, ?_, hw.linked, hw.once hj, hw.empty⟩
    intro t
    rw [hw.mbox]
    simp

/-- A joiner that the code has been delivered to returns it when it goes on: this is what
`os_task_join` writes through its result pointer. -/
theorem Delivered.returned {s : Sys} (hd : k.Delivered this ws code k') (hu : u ∈ ws)
    (hm : (s.k.thrds u).mbox = (k'.thrds u).mbox) (hp : s.pc u = .join this) :
    s.stepResume u = some (s.complete u (.thrdJoin this) code) := by
  unfold Sys.stepResume
  rw [hp]
  dsimp only
  rw [hm, hd.mbox, if_pos hu]

/-- A join queue whose write index has gone once around: the slot behind the only joiner's still
holds its handle. -/
def wrapped : Kernel :=
  { (Sys.boot fun _ => 0).k with
    irq := ⟨0, true, false⟩
    runPtr := some (.slot 14)
    sems := Function.update (Sys.boot fun _ => 0).k.sems (.join (.slot 14))
      { val := -1, wq := { storage := fun _ => some (.slot 15), read := 0, write := 1, count := 1 } } }

theorem wrapped_joined : wrapped.Joined (.slot 14) [.slot 15] where
  list := (Sys.boot_sound fun _ => 0).good.list
  queue := ⟨by decide, by decide, rfl⟩
  waiters := rfl
  nodup := List.nodup_singleton _
  val := rfl
  unlinked := by
    intro u hu
    cases List.mem_singleton.1 hu
    rfl

theorem exit_delivers_one : ∃ k : Kernel, k.Joined (.slot 14) [.slot 15] ∧
    ∀ code, k.Delivered (.slot 14) [.slot 15] code (k.osTaskExit code) :=
  ⟨wrapped, wrapped_joined, (exit_delivers_iff (k := wrapped) rfl rfl rfl wrapped_joined (List.cons_ne_nil _ _)).2
    ⟨.slot 15, rfl, by decide, rfl⟩⟩

end Kernel

namespace Sys

/-- A thread joins another one, which exits: the code goes through a `NULL` pointer. -/
theorem exit_code_lost :
    ∃ h s, (system fun _ => 0).Run (fun _ _ => True) h s ∧ s.k.runPtr = some (.slot 14) ∧
      s.pc (.slot 15) = .join (.slot 14) ∧ s.k.runQueue.linked (.slot 15) = false ∧
      (s.k.sems (.join (.slot 14))).wq.toList = [some (.slot 15)] ∧
      (s.k.osTaskExit 7).fault = true ∧ ((s.k.osTaskExit 7).thrds (.slot 15)).mbox = 0 :=
  exists_run (fun _ => 0)
    [.create 1 1, .create 1 1, .launch, .call (.thrdJoin (.slot 14)), .tick 0]
    (by decide +kernel)

end Sys

end MsTos
