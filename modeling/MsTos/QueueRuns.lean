-- SUMMARY: Runs of the ring buffer: it refines a bounded queue, and what a traversal visits.
import Mathlib.Data.List.Nodup
import Mathlib.Data.Int.ModEq
import MsTos.Lib.Fifo
import MsTos.QueueList

namespace MsTos

namespace Queue

open Fifo (Op Event accepted taken traverse)

variable {α : Type} {size : Nat} {q : Queue α size}

/-! ## Runs -/

/-- Pushes and pops from `queue_*_init` on. A push is accepted if it returns 0. -/
def system (α : Type) [Inhabited α] (size : Nat) :
    TransitionSystem (Queue α size) (Op α) (Event α) where
  init q := q = init
  step q
  | .push a => some (.pushed a (decide ((q.push a).1 = 0)), (q.push a).2)
  | .pop => some (.popped q.pop.1, q.pop.2)

/-- Every operation does to the items what it does to those of a bounded queue. -/
theorem Ok.step [Inhabited α] (hq : q.Ok) {op : Op α} {e : Event α} {q' : Queue α size}
    (hs : (system α size).step q op = some (e, q')) :
    q'.Ok ∧ (Fifo.system α size).step q.toList op = some (e, q'.toList) := by
  cases op with
  | push a =>
      obtain ⟨rfl, rfl⟩ := Prod.mk.inj (Option.some.inj hs)
      by_cases hroom : q.count < size
      · refine ⟨hq.push hroom a, ?_⟩
        rw [Fifo.step_push_of_lt (by rwa [length_toList]), hq.toList_push hroom,
          push_of_lt hroom, decide_eq_true rfl]
      · rw [push_of_full hroom, Fifo.step_push_of_full (by rwa [length_toList])]
        exact ⟨hq, rfl⟩
  | pop =>
      obtain ⟨rfl, rfl⟩ := Prod.mk.inj (Option.some.inj hs)
      refine ⟨hq.pop, ?_⟩
      cases hl : q.toList with
      | nil =>
          rw [pop_of_nil hl]
          show _ = some (_, q.toList)
          rw [hl]
          rfl
      | cons a l =>
          obtain ⟨hitem, hrest⟩ := toList_pop hl
          rw [hitem, hrest]
          rfl

/-- The ring buffer refines the bounded queue: the two have the same histories. -/
theorem simulates [Inhabited α] (hsize : 0 < size) {G : Queue α size → Op α → Prop}
    {h : List (Event α)} (hr : (system α size).Run G h q) :
    q.Ok ∧ (Fifo.system α size).Run (fun _ _ => True) h q.toList := by
  have hsim : ∃ l, (Fifo.system α size).Run (fun _ _ => True) h l ∧ q.Ok ∧ q.toList = l := by
    refine hr.simulate (R := fun q l => q.Ok ∧ q.toList = l) ?_ ?_
    · rintro q rfl
      exact ⟨[], rfl, ok_init hsize, rfl⟩
    · rintro q l op e q' ⟨hq, rfl⟩ hs
      obtain ⟨hq', hs'⟩ := hq.step hs
      exact ⟨q'.toList, hs', hq', rfl⟩
  obtain ⟨l, hl, hq, rfl⟩ := hsim
  exact ⟨hq, hl⟩

theorem holds [Inhabited α] (hsize : 0 < size) {G : Queue α size → Op α → Prop}
    {h : List (Event α)} (hr : (system α size).Run G h q) : Fifo.Holds size h q.toList :=
  Fifo.holds_of_run (simulates hsize hr).2

theorem Ok.write_lt (hq : q.Ok) : q.write < size := by
  rw [hq.write_eq]
  exact Nat.mod_lt _ (Nat.zero_lt_of_lt hq.read_lt)

/-- Full and empty look alike to the indices: they differ by the count modulo the size. -/
theorem Ok.sub_modEq (hq : q.Ok) : (q.write : Int) - q.read ≡ q.count [ZMOD size] := by
  rw [hq.write_eq, Int.natCast_mod, Int.natCast_add]
  calc ((q.read : Int) + q.count) % size - q.read
      ≡ (q.read : Int) + q.count - q.read [ZMOD size] := (Int.mod_modEq _ _).sub_right _
    _ = q.count := by omega

/-! ## What a traversal visits -/

/-- The slot of the item `j`, counted from the oldest one. -/
def slot (q : Queue α size) (j : Nat) : Nat := (q.read + 1 + j) % size

/-- The slots of the items, oldest first. -/
def slots (q : Queue α size) : List Nat := (List.range' 0 q.count).map q.slot

/-- The slots `L` with what they hold. -/
def cells (q : Queue α size) (L : List Nat) : List (Nat × α) := L.map fun p => (p, q.storage p)

theorem toList_eq_cells (q : Queue α size) : q.toList = (q.cells q.slots).map Prod.snd := by
  rw [toList, cells, slots, List.range_eq_range', List.map_map, List.map_map]
  rfl

variable {σ : Type} {f : Nat → α → σ → Int × α × σ} {L : List Nat} {n i : Nat} {ctx : σ}

/-- The visit of an element in its slot. -/
def visit (f : Nat → α → σ → Int × α × σ) (c : Nat × α) (ctx : σ) : Int × (Nat × α) × σ :=
  let (r, a, ctx) := f c.1 c.2 ctx
  (r, (c.1, a), ctx)

/-- The call of `f` for the slots `L` in order, until it returns something other than 0, and nothing
else, leads from `q` and `ctx` to `r`. -/
structure Visited (f : Nat → α → σ → Int × α × σ) (L : List Nat) (q : Queue α size) (ctx : σ)
    (r : Queue α size × σ) : Prop where
  read : r.1.read = q.read
  write : r.1.write = q.write
  count : r.1.count = q.count
  storage : ∀ p, p ∉ L → r.1.storage p = q.storage p
  cells : r.1.cells L = (traverse (visit f) (q.cells L) ctx).1
  ctx : r.2 = (traverse (visit f) (q.cells L) ctx).2

/-- `queue_*_foreach` visits the items, oldest first. -/
def Visits (q : Queue α size) : Prop :=
  ∀ (σ : Type) (f : Nat → α → σ → Int × α × σ) (ctx : σ),
    Visited f q.slots q ctx (q.foreach (some f) ctx)

/-- The items of the queue lie in different slots. -/
theorem slot_ne {j k : Nat} (hjk : j < k) (hk : k < size) : q.slot j ≠ q.slot k := by
  intro he
  have hd := Nat.sub_mod_eq_zero_of_mod_eq he.symm
  rw [Nat.mod_eq_of_lt (by omega)] at hd
  omega

theorem slot_notMem (hn : i + 1 + n ≤ size) : q.slot i ∉ (List.range' (i + 1) n).map q.slot := by
  intro hmem
  obtain ⟨j, hj, he⟩ := List.mem_map.1 hmem
  have hj := List.mem_range'_1.1 hj
  exact slot_ne (by omega) (by omega) he.symm

theorem cells_store {p : Nat} (hp : p ∉ L) (a : α) : (q.store p a).cells L = q.cells L := by
  apply List.map_congr_left
  intro x hx
  have hne : x ≠ p := by
    rintro rfl
    exact hp hx
  exact congrArg (Prod.mk x) (Function.update_of_ne hne ..)

/-- The last round of the loop. -/
theorem Visited.stop {p : Nat} (hp : p ∉ L) (hstop : (f p (q.storage p) ctx).1 ≠ 0) :
    Visited f (p :: L) q ctx
      (q.store p (f p (q.storage p) ctx).2.1, (f p (q.storage p) ctx).2.2) := by
  have hend := Fifo.traverse_stop (f := visit f) (l := q.cells L) (a := (p, q.storage p)) hstop
  refine ⟨rfl, rfl, rfl, ?_, ?_, ?_⟩
  · intro x hx
    rw [List.mem_cons, not_or] at hx
    exact Function.update_of_ne hx.1 ..
  · show (p, Function.update q.storage p _ p) :: (q.store p _).cells L =
      (traverse (visit f) ((p, _) :: q.cells L) ctx).1
    rw [hend, Function.update_self, cells_store hp]
    rfl
  · show _ = (traverse (visit f) ((p, _) :: q.cells L) ctx).2
    rw [hend]
    rfl

/-- One round of the loop that goes on, for a slot that is not visited again. -/
theorem Visited.cons {p : Nat} {r : Queue α size × σ} (hp : p ∉ L)
    (hgo : (f p (q.storage p) ctx).1 = 0)
    (h : Visited f L (q.store p (f p (q.storage p) ctx).2.1) (f p (q.storage p) ctx).2.2 r) :
    Visited f (p :: L) q ctx r := by
  obtain ⟨hread, hwrite, hcount, hstorage, hcells, hctx⟩ := h
  rw [cells_store hp] at hcells hctx
  have hat : r.1.storage p = (f p (q.storage p) ctx).2.1 :=
    (hstorage p hp).trans (Function.update_self ..)
  have hnext := Fifo.traverse_next (f := visit f) (l := q.cells L) (a := (p, q.storage p)) hgo
  refine ⟨hread, hwrite, hcount, ?_, ?_, ?_⟩
  · intro x hx
    rw [List.mem_cons, not_or] at hx
    exact (hstorage x hx.2).trans (Function.update_of_ne hx.1 ..)
  · show (p, r.1.storage p) :: r.1.cells L = (traverse (visit f) ((p, _) :: q.cells L) ctx).1
    rw [hnext, hat, hcells]
    rfl
  · show r.2 = (traverse (visit f) ((p, _) :: q.cells L) ctx).2
    rw [hnext, hctx]
    rfl

/-- The loop visits the slots of the rounds that are left, as long as the sums do not overflow. -/
theorem foreachLoop_visited (hn : i + n ≤ size)
    (hindex : ∀ j, i ≤ j → j < i + n → q.foreachIndex j = q.slot j) :
    Visited f ((List.range' i n).map q.slot) q ctx (foreachLoop f n i q ctx) := by
  induction n generalizing q i ctx with
  | zero => exact ⟨rfl, rfl, rfl, fun _ _ => rfl, rfl, rfl⟩
  | succ n ih =>
      have hfresh := slot_notMem (q := q) (i := i) (n := n) (by omega)
      rw [List.range'_succ, List.map_cons]
      unfold foreachLoop
      rw [hindex i (by omega) (by omega)]
      dsimp only
      split
      · rename_i hstop
        exact .stop hfresh hstop
      · rename_i hgo
        refine .cons hfresh (not_not.1 hgo) ?_
        exact ih (q := q.store _ _) (by omega) fun j hj hjn => hindex j (by omega) (by omega)

/-! ## The pointers that a traversal passes -/

/-- A callback that takes down the slots it is called for. -/
def note (p : Nat) (a : α) (seen : List Nat) : Int × α × List Nat := (0, a, seen ++ [p])

theorem traverse_note (q : Queue α size) (L seen : List Nat) :
    (traverse (visit note) (q.cells L) seen).2 = seen ++ L := by
  induction L generalizing seen with
  | nil => rw [List.append_nil]; rfl
  | cons p L ih =>
      calc (traverse (visit note) (q.cells (p :: L)) seen).2
          = (traverse (visit note) (q.cells L) (seen ++ [p])).2 := rfl
        _ = seen ++ p :: L := by rw [ih, List.append_assoc, List.singleton_append]

theorem foreachLoop_note (q : Queue α size) (n i : Nat) (seen : List Nat) :
    (foreachLoop note n i q seen).2 = seen ++ (List.range' i n).map q.foreachIndex := by
  induction n generalizing q i seen with
  | zero => exact (List.append_nil seen).symm
  | succ n ih =>
      refine (ih (q.store _ _) (i + 1) (seen ++ [q.foreachIndex i])).trans ?_
      rw [List.append_assoc, List.range'_succ, List.map_cons, List.singleton_append]
      rfl

/-- A traversal passes the pointers to the items, oldest first, if and only if no sum overflows. -/
theorem visits_iff_index (hq : q.count ≤ size) :
    q.Visits ↔ ∀ j, j < q.count → q.foreachIndex j = q.slot j := by
  constructor
  · intro h j hj
    have hctx := (h (List Nat) note []).ctx
    rw [foreach, foreachLoop_note, traverse_note, List.nil_append, List.nil_append, slots] at hctx
    exact List.map_inj_left.1 hctx j (List.mem_range'_1.2 ⟨Nat.zero_le j, by omega⟩)
  · intro h σ f ctx
    exact foreachLoop_visited (by omega) fun j _ hj => h j (by omega)

/-- Without overflow the index of a round is the slot of the item. -/
theorem foreachIndex_eq (h : q.read + i + 1 < wordSize) : q.foreachIndex i = q.slot i := by
  rw [foreachIndex, slot, Nat.mod_eq_of_lt h, Nat.add_right_comm]

/-- Where the sum overflows, the index starts again from 0 and misses the slot: the number of values
of `size_t` is no multiple of a size that large. -/
theorem foreachIndex_ne (hq : q.Ok) (hsize : size < wordSize) (h : q.read + i + 1 = wordSize)
    (hi : i < q.count) : q.foreachIndex i ≠ q.slot i := by
  have hread := hq.read_lt
  have hcount := hq.count_le
  have hrest : wordSize % size = wordSize - size := by
    rw [Nat.mod_eq_sub_mod (by omega), Nat.mod_eq_of_lt (by omega)]
  have hslot : q.slot i = wordSize - size := by
    rw [slot, Nat.add_right_comm, h, hrest]
  rw [foreachIndex, h, Nat.mod_self, Nat.zero_mod, hslot]
  omega

theorem Ok.visits_iff (hq : q.Ok) (hsize : size < wordSize) :
    q.Visits ↔ q.read + q.count < wordSize := by
  rw [visits_iff_index hq.count_le]
  constructor
  · intro h
    apply Nat.lt_of_not_le
    intro hge
    have hread := hq.read_lt
    have hi : wordSize - 1 - q.read < q.count := by omega
    exact foreachIndex_ne hq hsize (by omega) hi (h _ hi)
  · intro h j hj
    exact foreachIndex_eq (by omega)

/-! ## Refinement -/

/-- What the queue promises after the history `h`: it has gone along with a bounded queue that holds
the same items, it appends at the end and takes the oldest item, a full queue refuses a push and an
empty one a pop and both stay as they are, and the indices fit the count. -/
structure BoundedFifo [Inhabited α] (h : List (Event α)) (q : Queue α size) : Prop where
  run : (Fifo.system α size).Run (fun _ _ => True) h q.toList
  length_le : q.toList.length ≤ size
  length_eq : q.toList.length = q.count
  cells_eq : (q.cells q.slots).map Prod.snd = q.toList
  push_items : ∀ a, q.count ≠ size → (q.push a).2.toList = q.toList ++ [a]
  push_status : ∀ a, ((q.push a).1 = 0 ↔ q.count ≠ size) ∧ ((q.push a).1 = -1 ↔ q.count = size)
  push_full : ∀ a, q.count = size → (q.push a).2 = q
  pop_items : ∀ a l, q.toList = a :: l → q.pop.1 = some a ∧ q.pop.2.toList = l
  pop_status : q.pop.1 = none ↔ q.count = 0
  pop_empty : q.count = 0 → q.pop.2 = q
  sub_modEq : (q.write : Int) - q.read ≡ q.count [ZMOD size]
  read_lt : q.read < size
  write_lt : q.write < size
  foreachIndex_lt : ∀ i, q.foreachIndex i < size

theorem Ok.push_status (hq : q.Ok) (a : α) :
    ((q.push a).1 = 0 ↔ q.count ≠ size) ∧ ((q.push a).1 = -1 ↔ q.count = size) := by
  have hle := hq.count_le
  by_cases hroom : q.count < size
  · rw [push_of_lt hroom]
    simp [Nat.ne_of_lt hroom]
  · have hfull : q.count = size := by omega
    rw [push_of_full hroom]
    simp [hfull]

theorem pop_of_zero (h : q.count = 0) : q.pop = (none, q) := if_neg (by omega)

theorem boundedFifo [Inhabited α] (hsize : 0 < size) {G : Queue α size → Op α → Prop}
    {h : List (Event α)} (hr : (system α size).Run G h q) : BoundedFifo h q := by
  obtain ⟨hq, hrun⟩ := simulates hsize hr
  have hle := hq.count_le
  refine ⟨hrun, ?_, length_toList q, (toList_eq_cells q).symm, ?_, hq.push_status, ?_,
    fun _ _ => toList_pop, ?_, ?_, hq.sub_modEq, hq.read_lt, hq.write_lt, ?_⟩
  · rw [length_toList]
    exact hle
  · intro a hroom
    exact hq.toList_push (by omega) a
  · intro a hfull
    rw [push_of_full (by omega)]
  · constructor
    · intro hnone
      apply Nat.eq_zero_of_not_pos
      intro hpos
      rw [pop_of_pos hpos] at hnone
      cases hnone
    · intro h0
      rw [pop_of_zero h0]
  · intro h0
    rw [pop_of_zero h0]
  · exact fun i => Nat.mod_lt _ hsize

/-- In every run the ring buffer refines a bounded queue, and a traversal visits the items of the
queue, oldest first, if and only if the sums that it computes fit into a `size_t`, as the capacity
does. -/
theorem refines_fifo [Inhabited α] (hsize : 0 < size) (hfit : size < wordSize) {h : List (Event α)}
    (hr : (system α size).Run (fun _ _ => True) h q) :
    BoundedFifo h q ∧ (q.Visits ↔ q.read + q.count < wordSize) :=
  ⟨boundedFifo hsize hr, (simulates hsize hr).1.visits_iff hfit⟩

/-- A queue of two elements that has wrapped around and has refused a push. -/
theorem refines_fifo_five_steps :
    ∃ (h : List (Event Nat)) (q : Queue Nat 2), (system Nat 2).Run (fun _ _ => True) h q ∧
      h.length = 5 ∧ accepted h = [7, 8, 9] ∧ taken h = 1 ∧ q.toList = [8, 9] ∧ q.write = 1 ∧
      BoundedFifo h q ∧ q.Visits := by
  obtain ⟨h, q, hr, hlen, hacc, htaken, hl, hw, hsum⟩ := TransitionSystem.exists_run_of_exec
    (M := system Nat 2) (G := fun _ _ => True) (s := init) rfl
    [.push 7, .pop, .push 8, .push 9, .push 10]
    (P := fun h q => h.length = 5 ∧ accepted h = [7, 8, 9] ∧ taken h = 1 ∧ q.toList = [8, 9] ∧
      q.write = 1 ∧ q.read + q.count < wordSize) (by decide +kernel)
  obtain ⟨hfifo, hvisits⟩ := refines_fifo (by decide) (by decide) hr
  exact ⟨h, q, hr, hlen, hacc, htaken, hl, hw, hfifo, hvisits.2 hsum⟩

/-- Every read index occurs with every count. -/
theorem exists_run [Inhabited α] {r c : Nat} (hr : r < size) (hc : c ≤ size) (a : α) :
    ∃ h q, (system α size).Run (fun _ _ => True) h q ∧ q.read = r ∧ q.count = c := by
  induction c with
  | zero =>
      induction r with
      | zero => exact ⟨[], init, .init rfl, rfl, rfl⟩
      | succ r ih =>
          -- push an item and take it again
          obtain ⟨h, q, hrun, hread, hcount⟩ := ih (by omega)
          have hpush := push_of_lt (q := q) (by omega) a
          refine ⟨_, (q.push a).2.pop.2, .step (.step hrun trivial (a := .push a) rfl) trivial
            (a := .pop) rfl, ?_, ?_⟩
          · rw [hpush, pop_of_pos (Nat.succ_pos _)]
            show (q.read + 1) % size = r + 1
            rw [hread, Nat.mod_eq_of_lt hr]
          · rw [hpush, pop_of_pos (Nat.succ_pos _)]
            exact hcount
  | succ c ih =>
      obtain ⟨h, q, hrun, hread, hcount⟩ := ih (by omega)
      have hpush := push_of_lt (q := q) (by omega) a
      refine ⟨_, (q.push a).2, .step hrun trivial (a := .push a) rfl, ?_, ?_⟩
      · rw [hpush]
        exact hread
      · rw [hpush]
        exact congrArg Nat.succ hcount

/-- With 40000 bytes, of which 25537 are in use, the last round of a traversal visits the slot 0. -/
theorem foreach_misses_item :
    ∃ (h : List (Event UInt8)) (q : Queue UInt8 40000),
      (system UInt8 40000).Run (fun _ _ => True) h q ∧ q.read = 39999 ∧ q.count = 25537 ∧
        q.foreachIndex 25536 = 0 ∧ q.slot 25536 = 25536 ∧ ¬ q.Visits := by
  have hex : ∃ h q, (system UInt8 40000).Run (fun _ _ => True) h q ∧ q.read = 39999 ∧
      q.count = 25537 := exists_run (by decide) (by decide) 0
  obtain ⟨h, q, hrun, hread, hcount⟩ := hex
  have hq := (simulates (by decide) hrun).1
  refine ⟨h, q, hrun, hread, hcount, ?_, ?_, ?_⟩
  · rw [foreachIndex, hread]
    decide
  · rw [slot, hread]
  · rw [hq.visits_iff (by decide), hread, hcount]
    decide

end Queue

end MsTos
