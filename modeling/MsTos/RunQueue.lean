-- SUMMARY: The run queue as a list of tasks with a cursor: what adding, removing and changing tasks does to it.
import Mathlib.Data.Fintype.Card
import MsTos.Lib.LinkedCycle
import MsTos.Os

namespace MsTos

/-! ## The links of `list.h` -/

section Links

variable {ν : Type} [DecidableEq ν] (links : Links ν)

/-- The `next` pointers. -/
def nextOf (links : Links ν) (n : ν) : Option ν := (links n).next

/-- The `prev` pointers. -/
def prevOf (links : Links ν) (n : ν) : Option ν := (links n).prev

@[simp] theorem nextOf_setNext (p : ν) (v : Option ν) :
    nextOf (setNext links (some p) v) = Function.update (nextOf links) p v := by
  funext n
  by_cases hn : n = p <;> simp [nextOf, setNext, Function.update, hn]

@[simp] theorem prevOf_setNext (p : ν) (v : Option ν) :
    prevOf (setNext links (some p) v) = prevOf links := by
  funext n
  by_cases hn : n = p <;> simp [prevOf, setNext, Function.update, hn]

@[simp] theorem prevOf_setPrev (p : ν) (v : Option ν) :
    prevOf (setPrev links (some p) v) = Function.update (prevOf links) p v := by
  funext n
  by_cases hn : n = p <;> simp [prevOf, setPrev, Function.update, hn]

@[simp] theorem nextOf_setPrev (p : ν) (v : Option ν) :
    nextOf (setPrev links (some p) v) = nextOf links := by
  funext n
  by_cases hn : n = p <;> simp [nextOf, setPrev, Function.update, hn]

/-- The elements `l` are linked in a cycle through `h`. -/
abbrev IsList (links : Links ν) (h : ν) (l : List ν) : Prop :=
  LinkedCycle (nextOf links) (prevOf links) h l

variable {links} {h e : ν} {l : List ν}

omit [DecidableEq ν] in
theorem IsList.inList_iff (hl : IsList links h l) : listElementInList links e = true ↔ e ∈ h :: l :=
  hl.mem_iff.symm

theorem IsList.append (hl : IsList links h l) (he : e ∉ h :: l) :
    (listAppend links h e).1 = 0 ∧ IsList (listAppend links h e).2 h (l ++ [e]) := by
  have hh : listElementInList links h = true := hl.inList_iff.2 (by simp)
  have hn : listElementInList links e = false := by
    simpa using mt hl.inList_iff.1 he
  obtain ⟨z, -, hz⟩ := hl.prev_mem (x := h) (by simp)
  have hhe : h ≠ e := by rintro rfl; simp at he
  have hp : (setNext links (some e) (some h) h).prev = some z := by
    simpa [prevOf, setNext, Function.update_of_ne hhe] using hz
  have hp' : (setPrev (setNext links (some e) (some h)) (some e) (some z) h).prev = some z := by
    simpa [setPrev, Function.update_of_ne hhe] using hp
  simp only [listAppend, listElementInsertBefore, hh, hn, Bool.not_true, Bool.false_eq_true,
    if_false, true_and]
  rw [hp, hp', IsList]
  simpa using hl.insert he hz

theorem IsList.append_of_mem (hl : IsList links h l) (he : e ∈ h :: l) :
    listAppend links h e = (-1, links) := by
  simp [listAppend, listElementInsertBefore, hl.inList_iff.2 he, hl.inList_iff.2 (List.mem_cons_self)]

theorem IsList.remove (hl : IsList links h l) (he : e ∈ l) :
    (listRemove links e).1 = 0 ∧ IsList (listRemove links e).2 h (l.erase e) := by
  have hin : listElementInList links e = true := hl.inList_iff.2 (by simp [he])
  obtain ⟨a, -, ha⟩ := hl.prev_mem (x := e) (by simp [he])
  obtain ⟨b, -, hb⟩ := hl.next_mem (x := e) (by simp [he])
  have hae : e ≠ a := Ne.symm (hl.prev_ne he ha)
  have hn : (setNext links (some a) (some b) e).next = some b := by
    simpa [nextOf, setNext, Function.update_of_ne hae] using hb
  have hp : (setNext links (some a) (some b) e).prev = some a := by
    simpa [prevOf, setNext, Function.update_of_ne hae] using ha
  obtain ⟨l₁, l₂, rfl⟩ := List.append_of_mem he
  have hel₁ : e ∉ l₁ := fun hm =>
    (List.nodup_append.1 (List.nodup_cons.1 hl.nodup).2).2.2 e hm e (by simp) rfl
  rw [List.erase_append_right _ hel₁, List.erase_cons_head]
  have ha' : (links e).prev = some a := ha
  have hb' : (links e).next = some b := hb
  simp only [listRemove, listElementRemove, hin, Bool.not_true, Bool.false_eq_true, if_false,
    true_and, ha', hb']
  rw [hn, hp, IsList]
  simpa using LinkedCycle.remove hl ha hb

theorem IsList.remove_of_notMem (hl : IsList links h l) (he : e ∉ h :: l) :
    listRemove links e = (-1, links) := by
  have hn : listElementInList links e = false := by simpa using mt hl.inList_iff.1 he
  simp [listRemove, listElementRemove, hn]

theorem isList_init (hlinks : ∀ n, links n = ⟨none, none⟩) : IsList (listInit links h) h [] := by
  refine .nil ?_ ?_ ?_
  · intro x hx
    simp [nextOf, listInit, hx, hlinks]
  · intro x hx
    simp [prevOf, listInit, hx, hlinks]
  · simp [nextOf, prevOf, listInit]

/-- Clearing the links of an unlinked element changes nothing. -/
theorem IsList.elementInit (hl : IsList links h l) (he : e ∉ h :: l) :
    listElementInit links e = links := by
  have hn : (links e).next = none := hl.next_off e he
  have hp : (links e).prev = none := hl.prev_off e he
  have hle : links e = ⟨none, none⟩ := by
    cases h : links e
    simp_all
  rw [listElementInit, ← hle, Function.update_eq_self]

end Links

namespace RunQueue

/-! ## The run queue as a list -/

variable {q : RunQueue} {l : List TaskId} {t : TaskId}

/-- The task is linked in the run queue. -/
def linked (q : RunQueue) (t : TaskId) : Bool := listElementInList q.links (.elem t)

/-- `q` holds the tasks of `l`, in this order. -/
structure Holds (q : RunQueue) (l : List TaskId) : Prop where
  list : IsList q.links .head (l.map .elem)
  count : q.taskActiveCnt = l.length

/-- The cursor is on the head or on a task of `l`. It need not be while no task is active. -/
def CursorOk (q : RunQueue) (l : List TaskId) : Prop :=
  l ≠ [] → q.current = some .head ∨ ∃ t ∈ l, q.current = some (.elem t)

theorem elem_mem : Node.elem t ∈ .head :: l.map .elem ↔ t ∈ l := by simp

theorem Holds.linked_iff (h : q.Holds l) : q.linked t = true ↔ t ∈ l :=
  h.list.inList_iff.trans elem_mem

theorem Holds.nodup (h : q.Holds l) : l.Nodup :=
  ((List.nodup_cons.1 h.list.nodup).2).of_map

theorem card_taskId : Fintype.card TaskId = numThreads + 1 := rfl

theorem Holds.length_le (h : q.Holds l) : l.length ≤ numThreads + 1 := by
  rw [← card_taskId]
  exact h.nodup.length_le_card

theorem Holds.length_lt (h : q.Holds l) : l.length + 1 < wordSize := by
  have := h.length_le
  simp only [numThreads, wordSize] at *
  omega

/-- A cursor that is in order is on a node of the cycle. -/
theorem CursorOk.mem (hc : q.CursorOk l) (hl : l ≠ []) :
    ∃ c ∈ Node.head :: l.map .elem, q.current = some c := by
  obtain hc | ⟨t, ht, hc⟩ := hc hl
  · exact ⟨.head, by simp, hc⟩
  · exact ⟨.elem t, by simp [ht], hc⟩

/-! ## `os_add_task_mmang` -/

theorem Holds.add_of_mem (h : q.Holds l) (ht : t ∈ l) : q.osAddTaskMmang t = (-1, q) := by
  have hne : q.taskActiveCnt ≠ 0 := by
    rw [h.count]
    exact List.length_pos_of_mem ht |>.ne'
  simp [osAddTaskMmang, hne, h.list.append_of_mem (elem_mem.2 ht)]

theorem Holds.add (h : q.Holds l) (ht : t ∉ l) :
    (q.osAddTaskMmang t).1 = 0 ∧ (q.osAddTaskMmang t).2.Holds (l ++ [t]) := by
  obtain ⟨h₁, h₂⟩ := h.list.append (e := .elem t) (mt elem_mem.1 ht)
  have hlt := h.length_lt
  have hc := h.count
  simp only [osAddTaskMmang]
  split <;> simp only [h₁, show ¬ (0 : Int) = -1 by decide, if_false, true_and] <;>
    exact ⟨by simpa using h₂, by simp [hc, Nat.mod_eq_of_lt hlt]⟩

/-- While a task is linked, adding another one does not move the cursor. -/
theorem Holds.current_add (h : q.Holds l) {u : TaskId} (hu : u ∈ l) :
    (q.osAddTaskMmang t).2.current = q.current := by
  have hne : q.taskActiveCnt ≠ 0 := by
    rw [h.count]
    exact (List.length_pos_of_mem hu).ne'
  simp only [osAddTaskMmang, if_neg hne]
  split <;> rfl

theorem CursorOk.add (hc : q.CursorOk l) (h : q.Holds l) (ht : t ∉ l) :
    (q.osAddTaskMmang t).2.CursorOk (l ++ [t]) := by
  intro _
  obtain ⟨h₁, -⟩ := h.list.append (e := .elem t) (mt elem_mem.1 ht)
  simp only [osAddTaskMmang, h.count]
  cases l with
  | nil => simp [h₁]
  | cons u l =>
      simp only [List.length_cons, Nat.add_eq_zero_iff, one_ne_zero, and_false, if_false, h₁,
        show ¬ (0 : Int) = -1 by decide]
      obtain hc | ⟨v, hv, hc⟩ := hc (by simp)
      · exact .inl hc
      · exact .inr ⟨v, List.mem_append_left _ hv, hc⟩

/-! ## `os_del_task_mmang` -/

theorem previousCircular_of_mem (h : q.Holds l) {c : Node} (hc : c ∈ Node.head :: l.map .elem)
    (hl : l ≠ []) :
    ∃ t ∈ l, listIteratorPreviousCircular q.links .head (some c) = some (some (.elem t)) := by
  obtain ⟨n, hn, hp⟩ := h.list.prev_circular_mem hc (by simpa using hl)
  obtain ⟨t, ht, rfl⟩ := List.mem_map.1 hn
  refine ⟨t, ht, ?_⟩
  rw [← hp]
  exact (apply_ite some _ _ _).symm

/-- Where the cursor is in order, it moves back to a task. -/
theorem CursorOk.previousCircular (hc : q.CursorOk l) (h : q.Holds l) (hl : l ≠ []) :
    ∃ t ∈ l, listIteratorPreviousCircular q.links .head q.current = some (some (.elem t)) := by
  obtain ⟨c, hm, hq⟩ := hc.mem hl
  rw [hq]
  exact previousCircular_of_mem h hm hl

/-- Removing `t` leaves the cursor on a linked element: the element before the cursor is another
one than `t`, or `t` is alone. -/
def DelKeepsCursor (q : RunQueue) (t : TaskId) : Prop :=
  q.linked t = true → q.taskActiveCnt ≠ 1 →
    listIteratorPreviousCircular q.links .head q.current ≠ some (some (.elem t))

instance (q : RunQueue) (t : TaskId) : Decidable (q.DelKeepsCursor t) :=
  inferInstanceAs (Decidable (_ → _ → _))

theorem Holds.del (h : q.Holds l) (ht : t ∈ l) (hq : q.current ≠ none) :
    (q.osDelTaskMmang t).1 = 0 ∧ (q.osDelTaskMmang t).2.Holds (l.erase t) := by
  obtain ⟨h₁, h₂⟩ := h.list.remove (e := .elem t) (List.mem_map_of_mem ht)
  obtain ⟨c, hc⟩ := Option.ne_none_iff_exists'.1 hq
  have hlt := h.length_lt
  have hpos := List.length_pos_of_mem ht
  have herase : (l.map Node.elem).erase (.elem t) = (l.erase t).map .elem :=
    (List.map_erase (fun _ _ => Node.elem.inj) l).symm
  have hcount : (l.length + (wordSize - 1)) % wordSize = (l.erase t).length := by
    rw [List.length_erase_of_mem ht]
    simp only [wordSize] at *
    omega
  obtain ⟨c', hc'⟩ : ∃ c', listIteratorPreviousCircular q.links .head q.current = some c' := by
    simp only [hc, listIteratorPreviousCircular]
    split <;> exact ⟨_, rfl⟩
  simp only [osDelTaskMmang, hc', h₁, show ¬ (0 : Int) = -1 by decide, if_false, true_and]
  exact ⟨herase ▸ h₂, by simp only [h.count, hcount]⟩

theorem Holds.del_of_notMem (h : q.Holds l) (ht : t ∉ l) : (q.osDelTaskMmang t).2.Holds l := by
  have hr := h.list.remove_of_notMem (e := .elem t) (mt elem_mem.1 ht)
  simp only [osDelTaskMmang]
  split
  · exact h
  · simp only [hr, if_true]
    exact ⟨h.list, h.count⟩

theorem CursorOk.del (hc : q.CursorOk l) (h : q.Holds l) (ht : t ∈ l) (hk : q.DelKeepsCursor t) :
    (q.osDelTaskMmang t).2.CursorOk (l.erase t) := by
  intro hne
  obtain ⟨u, hu, hp⟩ := hc.previousCircular h (List.ne_nil_of_mem ht)
  obtain ⟨h₁, -⟩ := h.list.remove (e := .elem t) (List.mem_map_of_mem ht)
  have hut : u ≠ t := by
    rintro rfl
    refine hk (h.linked_iff.2 ht) ?_ hp
    intro h1
    rw [h.count] at h1
    obtain ⟨v, rfl⟩ := List.length_eq_one_iff.1 h1
    simp_all
  right
  refine ⟨u, (List.mem_erase_of_ne hut).2 hu, ?_⟩
  simp [osDelTaskMmang, hp, h₁]

theorem CursorOk.del_of_notMem (hc : q.CursorOk l) (h : q.Holds l) (ht : t ∉ l) :
    (q.osDelTaskMmang t).2.CursorOk l := by
  intro hne
  obtain ⟨u, hu, hp⟩ := hc.previousCircular h hne
  have hr := h.list.remove_of_notMem (e := .elem t) (mt elem_mem.1 ht)
  exact .inr ⟨u, hu, by simp [osDelTaskMmang, hp, hr]⟩

/-- Where the cursor is on the task that is removed, it stays in order. -/
theorem Holds.delKeepsCursor (h : q.Holds l) (hq : q.current = some (.elem t)) :
    q.DelKeepsCursor t := by
  intro ht hne hp
  have hm := h.linked_iff.1 ht
  rw [hq] at hp
  have hs := h.list.eq_singleton_of_prev_circular (List.mem_map_of_mem hm)
    (Option.some.inj ((apply_ite some _ _ _).trans hp))
  have := congrArg List.length hs
  simp only [List.length_map, List.length_singleton] at this
  exact hne (h.count.trans this)

/-! ## The linked tasks -/

theorem Holds.linked_eq (h : q.Holds l) : q.linked = fun u => decide (u ∈ l) := by
  funext u
  rw [Bool.eq_iff_iff, h.linked_iff, decide_eq_true_iff]

theorem Holds.linked_add (h : q.Holds l) (t : TaskId) :
    (q.osAddTaskMmang t).2.linked = Function.update q.linked t true := by
  rcases Classical.em (t ∈ l) with ht | ht
  · rw [h.add_of_mem ht, ← h.linked_iff.2 ht, Function.update_eq_self]
  · rw [(h.add ht).2.linked_eq, h.linked_eq]
    funext u
    rw [Function.update_apply]
    split <;> simp_all

theorem Holds.linked_del (h : q.Holds l) (t : TaskId) (hq : q.current ≠ none) :
    (q.osDelTaskMmang t).2.linked = Function.update q.linked t false := by
  rcases Classical.em (t ∈ l) with ht | ht
  · rw [(h.del ht hq).2.linked_eq, h.linked_eq]
    funext u
    rw [Function.update_apply]
    split
    · rename_i hu
      subst hu
      simpa using h.nodup.not_mem_erase
    · rename_i hu
      simp [List.mem_erase_of_ne hu]
  · rw [(h.del_of_notMem ht).linked_eq, h.linked_eq]
    funext u
    rw [Function.update_apply]
    split <;> simp_all

/-- Adding a task keeps the run queue a list. -/
theorem Holds.exists_add (h : q.Holds l) (t : TaskId) : ∃ l', (q.osAddTaskMmang t).2.Holds l' := by
  rcases Classical.em (t ∈ l) with ht | ht
  · exact ⟨l, by rwa [h.add_of_mem ht]⟩
  · exact ⟨_, (h.add ht).2⟩

/-- So does removing one: through a `NULL` cursor nothing happens. -/
theorem Holds.exists_del (h : q.Holds l) (t : TaskId) : ∃ l', (q.osDelTaskMmang t).2.Holds l' := by
  rcases Classical.em (t ∈ l) with ht | ht
  · cases hq : q.current with
    | none =>
        refine ⟨l, ?_⟩
        simp only [osDelTaskMmang, hq, listIteratorPreviousCircular]
        exact h
    | some c => exact ⟨_, (h.del ht (by simp [hq])).2⟩
  · exact ⟨l, h.del_of_notMem ht⟩

/-! ## `os_change_task` -/

/-- Where the cursor is in order, `os_change_task` moves it to a linked task and selects that
task. -/
theorem CursorOk.changeTask (hc : q.CursorOk l) (h : q.Holds l) (hl : l ≠ []) :
    ∃ t ∈ l, q.osChangeTask = (some t, { q with current := some (.elem t) }) := by
  obtain ⟨c, hm, hq⟩ := hc.mem hl
  obtain ⟨n, hn, hp⟩ := h.list.next_circular_mem hm (by simpa using hl)
  obtain ⟨t, ht, rfl⟩ := List.mem_map.1 hn
  refine ⟨t, ht, ?_⟩
  have hnext : listIteratorNextCircular q.links .head q.current = some (some (.elem t)) := by
    rw [← hp, hq]
    exact (apply_ite some _ _ _).symm
  simp [osChangeTask, hnext, containerOf]

theorem Holds.changeTask_holds (h : q.Holds l) : q.osChangeTask.2.Holds l := by
  unfold osChangeTask
  split
  · exact h
  · exact ⟨h.list, h.count⟩

/-- Wherever the cursor is, `os_change_task` selects a linked task or none. -/
theorem Holds.changeTask (h : q.Holds l) :
    q.osChangeTask.1 = none ∨ ∃ t ∈ l, q.osChangeTask.1 = some t := by
  unfold osChangeTask
  cases hc : q.current with
  | none => exact .inl rfl
  | some c =>
      rcases Classical.em (c ∈ Node.head :: l.map .elem) with hm | hm
      · rcases Classical.em (l = []) with rfl | hl
        · obtain rfl : c = .head := by simpa using hm
          left
          have hh := h.list.segment.1
          unfold listIteratorNextCircular
          rw [nextOf] at hh
          simp [hh, containerOf]
        · obtain ⟨n, hn, hp⟩ := h.list.next_circular_mem hm (by simpa using hl)
          obtain ⟨t, ht, rfl⟩ := List.mem_map.1 hn
          right
          refine ⟨t, ht, ?_⟩
          have hnext : listIteratorNextCircular q.links .head (some c) = some (some (.elem t)) := by
            rw [← hp]
            exact (apply_ite some _ _ _).symm
          rw [hnext]
          rfl
      · left
        have hn : (q.links c).next = none := h.list.next_off c hm
        simp [listIteratorNextCircular, hn, containerOf]

end RunQueue

end MsTos
