-- SUMMARY: The run queue as a cyclic sequence with a cursor: adding, removing the task under the cursor and changing tasks.
import MsTos.Lib.Round
import MsTos.RunQueue
import MsTos.System

namespace MsTos

namespace RunQueue

variable {q q' : RunQueue} {r : Round TaskId} {t u : TaskId} {l₁ l₂ : List TaskId}

/-! ## The cursor -/

/-- The node under a cursor. -/
def nodeOf (cursor : ThrdPtr) : Node :=
  match cursor with
  | none => .head
  | some t => .elem t

theorem getLast_nodes (l : List TaskId) :
    (Node.head :: l.map .elem).getLast (by simp) = nodeOf l.getLast? := by
  rcases List.eq_nil_or_concat l with rfl | ⟨l, t, rfl⟩
  · rfl
  · simp [nodeOf]

theorem getLast?_elem {l : List TaskId} (hl : l ≠ []) :
    (l.map Node.elem).getLast? = some (nodeOf l.getLast?) := by
  rw [List.getLast?_map, List.getLast?_eq_some_getLast hl]
  rfl

/-- `q` holds the tasks of `r`, and its cursor is on the node under that of `r`. While there is no
task, the cursor may be anywhere. -/
structure Turns (q : RunQueue) (r : Round TaskId) : Prop where
  holds : q.Holds r.toList
  cursor : r.toList ≠ [] → q.current = some (nodeOf r.cursor)

theorem Turns.cursor_of_current (h : q.Turns r) (hn : r.toList ≠ [])
    (hq : q.current = some (.elem t)) : r.cursor = some t := by
  have hc := hq.symm.trans (h.cursor hn)
  cases hr : r.cursor with
  | none => simp [hr, nodeOf] at hc
  | some u => simpa [hr, nodeOf, eq_comm] using hc

theorem Turns.list (h : q.Turns r) :
    IsList q.links .head (r.passed.map .elem ++ r.ahead.map .elem) := by
  rw [← List.map_append]
  exact h.holds.list

/-! ## Operations -/

theorem Turns.add_of_mem (h : q.Turns r) (ht : t ∈ r.toList) : q.osAddTaskMmang t = (-1, q) :=
  h.holds.add_of_mem ht

theorem Turns.add (h : q.Turns r) (ht : t ∉ r.toList) :
    (q.osAddTaskMmang t).1 = 0 ∧ (q.osAddTaskMmang t).2.Turns (r.join t) := by
  obtain ⟨hs, hl⟩ := h.holds.add ht
  refine ⟨hs, ?_, ?_⟩
  · rw [Round.toList_join]
    exact hl
  · intro _
    rw [Round.cursor_join]
    cases hr : r.toList with
    | nil =>
        -- the iterator is rebuilt
        have hp : r.passed = [] := (List.append_eq_nil_iff.1 hr).1
        have hn : r.cursor = none := by rw [Round.cursor, hp]; rfl
        have h0 : q.taskActiveCnt = 0 := by rw [h.holds.count, hr]; rfl
        rw [hn]
        simp only [osAddTaskMmang, h0, if_true]
        split <;> rfl
    | cons u l =>
        rw [h.holds.current_add (u := u) (by simp [hr])]
        exact h.cursor (by simp [hr])

theorem Turns.changeTask (h : q.Turns r) (hn : r.toList ≠ []) :
    q.osChangeTask.1 = r.advance.cursor ∧ q.osChangeTask.2.Turns r.advance := by
  cases ho : r.order with
  | nil => exact absurd (Round.order_eq_nil.1 ho) hn
  | cons t l =>
      have hnext : listIteratorNextCircular q.links .head q.current = some (some (.elem t)) := by
        have hc := h.list.next_circular_eq (y := .elem t) (by
          rw [← List.map_append, show r.ahead ++ r.passed = _ from ho]
          rfl)
        rw [getLast_nodes] at hc
        rw [h.cursor hn, ← hc]
        exact (apply_ite some _ _ _).symm
      have hcur : r.advance.cursor = some t := by rw [Round.advance_cursor, ho]; rfl
      refine ⟨?_, ?_, ?_⟩
      · rw [hcur]
        simp [osChangeTask, hnext, containerOf]
      · rw [Round.advance_toList]
        exact h.holds.changeTask_holds
      · intro _
        rw [hcur]
        simp [osChangeTask, hnext, nodeOf]

theorem Turns.del (h : q.Turns r) (hr : r.cursor = some t) :
    (q.osDelTaskMmang t).1 = 0 ∧ (q.osDelTaskMmang t).2.Turns r.leave := by
  have ht := Round.mem_of_cursor hr
  have hne : r.toList ≠ [] := List.ne_nil_of_mem ht
  have hcur : q.current = some (.elem t) := by rw [h.cursor hne, hr]; rfl
  obtain ⟨hs, hl⟩ := h.holds.del ht (by simp [hcur])
  refine ⟨hs, ?_, ?_⟩
  · rw [Round.leave_toList hr h.holds.nodup]
    exact hl
  · intro hne'
    have he := Round.eq_of_cursor hr
    have hlist : IsList q.links .head
        (r.passed.dropLast.map .elem ++ .elem t :: r.ahead.map .elem) := by
      have hlist := h.list
      rw [he] at hlist
      simpa using hlist
    -- the step back of the cursor, before the task is unlinked
    have hprev : listIteratorPreviousCircular q.links .head q.current =
        some (some (nodeOf r.leave.cursor)) := by
      have hp := hlist.prev_circular_eq
      rw [hcur]
      refine ((apply_ite some _ _ _).symm.trans (congrArg some hp)).trans ?_
      rw [Round.leave_cursor]
      cases hd : r.passed.dropLast with
      | nil =>
          cases ha : r.ahead with
          | nil =>
              refine absurd ?_ hne'
              simp [Round.leave, Round.toList, hd, ha]
          | cons u l =>
              refine congrArg some ?_
              rw [if_pos List.map_nil, if_pos rfl, List.map_cons, List.getLast?_cons_cons]
              exact getLast?_elem (l := u :: l) (by simp)
      | cons u l => exact congrArg some (getLast?_elem (by simp))
    have hrm := h.holds.list.remove (e := .elem t) (List.mem_map_of_mem ht)
    simp [osDelTaskMmang, hprev, hrm.1]

/-- Where no task is linked, none is removed. -/
theorem Turns.del_of_nil (h : q.Turns r) (hr : r.toList = []) :
    (q.osDelTaskMmang t).1 = -1 ∧ (q.osDelTaskMmang t).2.Turns r := by
  have ht : t ∉ r.toList := by simp [hr]
  have hrm := h.holds.list.remove_of_notMem (e := .elem t) (mt elem_mem.1 ht)
  refine ⟨?_, h.holds.del_of_notMem ht, fun hn => absurd hr hn⟩
  unfold osDelTaskMmang
  split
  · rfl
  · simp [hrm]

/-- `n` calls of `os_change_task`. -/
def changes (n : Nat) (q : RunQueue) : RunQueue :=
  (fun q => q.osChangeTask.2)^[n] q

theorem Turns.changes (h : q.Turns r) (hn : r.toList ≠ []) (n : Nat) :
    (q.changes n).Turns (Round.advance^[n] r) := by
  induction n with
  | zero => exact h
  | succ n ih =>
      rw [RunQueue.changes, Function.iterate_succ_apply', Function.iterate_succ_apply']
      exact (ih.changeTask (by rwa [Round.iterate_advance_toList])).2

/-- Call after call, `os_change_task` selects the tasks in the order of their turns. -/
theorem Turns.selected (h : q.Turns r) (hn : r.toList ≠ []) (n : Nat) :
    (q.changes n).osChangeTask.1 = r.order[n % r.order.length]? := by
  rw [((h.changes hn n).changeTask (by rwa [Round.iterate_advance_toList])).1,
    ← Function.iterate_succ_apply' Round.advance, Round.iterate_advance_cursor]

/-- After the task under the cursor is removed, its successors come first. -/
theorem Turns.selected_del (h : q.Turns r) (hq : q.current = some (.elem t))
    (hr : r.toList = l₁ ++ t :: l₂) (hne : l₂ ++ l₁ ≠ []) (n : Nat) :
    ((q.osDelTaskMmang t).2.changes n).osChangeTask.1 = (l₂ ++ l₁)[n % (l₂ ++ l₁).length]? := by
  have hcur := h.cursor_of_current (by simp [hr]) hq
  have horder : r.leave.order = l₂ ++ l₁ := by
    obtain ⟨h₁, h₂⟩ := Round.split_of_cursor hcur h.holds.nodup hr
    rw [Round.leave_order, h₁, h₂]
  rw [← horder] at hne ⊢
  exact (h.del hcur).2.selected (mt Round.order_eq_nil.2 hne) n

end RunQueue

/-! ## Sequences of operations -/

/-- The operations on the run queue. -/
inductive TaskOp where
  | add (t : TaskId)
  | del (t : TaskId)
  | change

/-- What an operation returns or selects. -/
inductive Outcome where
  | status (status : Int)
  | selected (t : ThrdPtr)

/-- From `os_mem_init` on, any task is added, the task under the cursor is removed, and tasks are
changed while one is active. Before, the memory is zero. -/
def taskSystem : TransitionSystem RunQueue TaskOp (TaskOp × Outcome) where
  init q := ∃ k : Kernel, (∀ n, k.runQueue.links n = ⟨none, none⟩) ∧
    k.runQueue.taskActiveCnt = 0 ∧ q = k.osMemInit.runQueue
  step q op :=
    match op with
    | .add t =>
        let (status, q) := q.osAddTaskMmang t
        some ((op, .status status), q)
    | .del t =>
        if q.current = some (.elem t) then
          let (status, q) := q.osDelTaskMmang t
          some ((op, .status status), q)
        else none
    | .change =>
        if q.taskActiveCnt > 0 then
          let (runPtr, q) := q.osChangeTask
          some ((op, .selected runPtr), q)
        else none

/-- The purpose: a cyclic sequence with a cursor. Where it is empty, nothing is removed. -/
def roundSystem : TransitionSystem (Round TaskId) TaskOp (TaskOp × Outcome) where
  init r := r = ⟨[], []⟩
  step r op :=
    match op with
    | .add t =>
        if t ∈ r.toList then some ((op, .status (-1)), r) else some ((op, .status 0), r.join t)
    | .del t =>
        if r.cursor = some t then some ((op, .status 0), r.leave)
        else if r.toList = [] then some ((op, .status (-1)), r)
        else none
    | .change =>
        if r.toList = [] then none else some ((op, .selected r.advance.cursor), r.advance)

variable {q q' : RunQueue} {r : Round TaskId}

theorem turns_init (hq : taskSystem.init q) : q.Turns ⟨[], []⟩ := by
  obtain ⟨k, hlinks, hcnt, rfl⟩ := hq
  exact ⟨⟨isList_init hlinks, hcnt⟩, fun hn => absurd rfl hn⟩

/-- A step of the run queue is the same step of the cyclic sequence. -/
theorem RunQueue.Turns.step {op : TaskOp} {e : TaskOp × Outcome} (h : q.Turns r)
    (hs : taskSystem.step q op = some (e, q')) :
    ∃ r', roundSystem.step r op = some (e, r') ∧ q'.Turns r' := by
  cases op with
  | add t =>
      simp only [taskSystem, Option.some.injEq, Prod.mk.injEq] at hs
      obtain ⟨rfl, rfl⟩ := hs
      rcases Classical.em (t ∈ r.toList) with ht | ht
      · refine ⟨r, ?_, ?_⟩
        · rw [h.add_of_mem ht]
          exact if_pos ht
        · rw [h.add_of_mem ht]
          exact h
      · refine ⟨r.join t, ?_, (h.add ht).2⟩
        rw [(h.add ht).1]
        exact if_neg ht
  | del t =>
      simp only [taskSystem] at hs
      split at hs
      · rename_i hq
        simp only [Option.some.injEq, Prod.mk.injEq] at hs
        obtain ⟨rfl, rfl⟩ := hs
        rcases Classical.em (r.toList = []) with hr | hr
        · -- the cursor still is on the task that was removed last
          have hc : r.cursor ≠ some t := by
            intro hc
            exact absurd (Round.mem_of_cursor hc) (by simp [hr])
          refine ⟨r, ?_, (h.del_of_nil hr).2⟩
          rw [(h.del_of_nil hr).1]
          exact (if_neg hc).trans (if_pos hr)
        · have hc := h.cursor_of_current hr hq
          refine ⟨r.leave, ?_, (h.del hc).2⟩
          rw [(h.del hc).1]
          exact if_pos hc
      · cases hs
  | change =>
      simp only [taskSystem] at hs
      split at hs
      · rename_i hq
        simp only [Option.some.injEq, Prod.mk.injEq] at hs
        obtain ⟨rfl, rfl⟩ := hs
        have hr : r.toList ≠ [] := by
          intro hr
          rw [h.holds.count, hr] at hq
          exact absurd hq (by simp)
        obtain ⟨hc, ht⟩ := h.changeTask hr
        refine ⟨r.advance, ?_, ht⟩
        rw [hc]
        exact if_neg hr
      · cases hs

/-- What the cyclic sequence `r` says about the run queue `q`. -/
structure CyclicSequence (q : RunQueue) (r : Round TaskId) : Prop where
  turns : q.Turns r
  /-- `prev` and `next` are inverse to each other, also at the pseudo head. -/
  inverse : ∀ x y, nextOf q.links x = some y ↔ prevOf q.links y = some x
  nodup : r.toList.Nodup
  linked : ∀ t, q.linked t = true ↔ t ∈ r.toList
  count : q.taskActiveCnt = r.toList.length
  /-- Adding a linked task fails and changes nothing. -/
  add : ∀ t ∈ r.toList, q.osAddTaskMmang t = (-1, q)
  /-- Once the task under the cursor is removed, the other tasks have their turns from its
  successor on, round after round. -/
  del : ∀ t, q.current = some (.elem t) → ∀ l₁ l₂, r.toList = l₁ ++ t :: l₂ → l₂ ++ l₁ ≠ [] →
    ∀ n, ((q.osDelTaskMmang t).2.changes n).osChangeTask.1 = (l₂ ++ l₁)[n % (l₂ ++ l₁).length]?

/-- Every sequence of operations is one of the cyclic sequence with a cursor. -/
theorem run_cyclic {h : List (TaskOp × Outcome)} (hr : taskSystem.Run (fun _ _ => True) h q) :
    ∃ r, roundSystem.Run (fun _ _ => True) h r ∧ CyclicSequence q r := by
  rcases hr.simulate (R := RunQueue.Turns) (fun q hq => ⟨_, rfl, turns_init hq⟩)
    (fun q r op e q' ht hs => ht.step hs) with ⟨r, hr, ht⟩
  refine ⟨r, hr, ht, fun x y => ht.list.next_iff_prev, ht.holds.nodup, ?_, ht.holds.count, ?_, ?_⟩
  · intro t
    exact ht.holds.linked_iff
  · intro t hm
    exact ht.add_of_mem hm
  · intro t hq l₁ l₂ hl hn n
    exact ht.selected_del hq hl hn n

/-- Two tasks are added and one is removed during its turn. -/
theorem run_cyclic_two : ∃ h q r, taskSystem.Run (fun _ _ => True) h q ∧
    (h.length = 6 ∧ q.current = some (.elem (.slot 1))) ∧
    roundSystem.Run (fun _ _ => True) h r ∧ CyclicSequence q r := by
  have hinit : taskSystem.init (Sys.ram fun _ => 0).osMemInit.runQueue :=
    ⟨_, fun _ => rfl, rfl, rfl⟩
  rcases TransitionSystem.exists_run_of_exec (G := fun _ _ => True)
    (P := fun h q => h.length = 6 ∧ q.current = some (.elem (.slot 1))) hinit
    [.add (.slot 0), .add (.slot 1), .add (.slot 0), .change, .del (.slot 0), .change]
    (by decide +kernel) with ⟨h, q, hr, hP⟩
  obtain ⟨r, hrr, hc⟩ := run_cyclic hr
  exact ⟨h, q, r, hr, hP, hrr, hc⟩

end MsTos
