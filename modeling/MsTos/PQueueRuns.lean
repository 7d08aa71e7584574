-- SUMMARY: Runs of the priority queue: order, contents, refused pushes, and accesses within the storage.
import Mathlib.Data.Multiset.AddSub
import MsTos.Lib.Transition
import MsTos.PQueueHeap

namespace MsTos

namespace PQueue

variable {α : Type} {size n fuel i p : Nat} {storage : Nat → PNode α} {pq : PQueue α size}

/-! ## Checked accesses -/

/-- `storage[i]`, where the index is one of a cell of the heap. -/
def load (size : Nat) (storage : Nat → PNode α) (i : Nat) : Option (PNode α) :=
  if 1 ≤ i ∧ i < size then some (storage i) else none

/-- An assignment to `storage[i]`, where the index is one of a cell of the heap. -/
def store (size : Nat) (storage : Nat → PNode α) (i : Nat) (x : PNode α) :
    Option (Nat → PNode α) :=
  if 1 ≤ i ∧ i < size then some (Function.update storage i x) else none

theorem load_eq (storage : Nat → PNode α) (hi : 1 ≤ i) (hs : i < size) :
    load size storage i = some (storage i) := if_pos ⟨hi, hs⟩

theorem store_eq (hi : 1 ≤ i) (hs : i < size) (x : PNode α) :
    store size storage i x = some (Function.update storage i x) := if_pos ⟨hi, hs⟩

/-- The loop of `pqueue_*_push`, which fails at an index without a cell or when it does not end
within `fuel` rounds. -/
def checkedPushLoop (size priority : Nat) :
    Nat → (Nat → PNode α) → Nat → Nat → Option ((Nat → PNode α) × Nat)
  | 0, _, _, _ => none
  | fuel + 1, storage, i, j =>
      if i > 1 then do
        let parent ← load size storage j
        if toSize parent.priority > priority then
          let storage ← store size storage i parent
          checkedPushLoop size priority fuel storage j (j / 2)
        else
          some (storage, i)
      else
        some (storage, i)

/-- `pqueue_*_push` with checked accesses. -/
def checkedPush (pq : PQueue α size) (fuel priority : Nat) (item : α) :
    Option (Int × PQueue α size) :=
  if pq.count + 1 ≥ size then
    some (-1, pq)
  else do
    let i := pq.count + 1
    let (storage, i) ← checkedPushLoop size priority fuel pq.storage i (i / 2)
    let storage ← store size storage i ⟨toInt priority, item⟩
    some (0, { storage, count := pq.count + 1 })

/-- The child that the loop of `pqueue_*_pop` moves up, with checked accesses. -/
def checkedPopChild (size : Nat) (storage : Nat → PNode α) (count i : Nat) : Option Nat := do
  let k := count + 1
  let j := 2 * i
  let k ←
    if j ≤ count then do
      let left ← load size storage j
      let child ← load size storage k
      some (if left.priority < child.priority then j else k)
    else
      some k
  if j + 1 ≤ count then do
    let right ← load size storage (j + 1)
    let child ← load size storage k
    some (if right.priority < child.priority then j + 1 else k)
  else
    some k

/-- The loop of `pqueue_*_pop`, which fails at an index without a cell or when it does not end
within `fuel` rounds. -/
def checkedPopLoop (size count : Nat) : Nat → (Nat → PNode α) → Nat → Option (Nat → PNode α)
  | 0, _, _ => none
  | fuel + 1, storage, i =>
      if i ≠ count + 1 then do
        let k ← checkedPopChild size storage count i
        let child ← load size storage k
        let storage ← store size storage i child
        checkedPopLoop size count fuel storage k
      else
        some storage

/-- `pqueue_*_pop` with checked accesses. -/
def checkedPop (pq : PQueue α size) (fuel : Nat) : Option (α × PQueue α size) := do
  let root ← load size pq.storage 1
  let last ← load size pq.storage pq.count
  let storage ← store size pq.storage 1 last
  let count := pq.count - 1
  let storage ← checkedPopLoop size count fuel storage 1
  some (root.data, { storage, count })

/-- The loop of `push` stays within the path from the hole to the root, and ends there. -/
theorem checkedPushLoop_eq {k : Nat} (hi : 1 ≤ i) (hs : i < size) (hf : i ≤ fuel) (hk : i ≤ k) :
    checkedPushLoop size p fuel storage i (i / 2) = some (pushLoop p k storage i (i / 2)) := by
  induction fuel generalizing storage i k with
  | zero => omega
  | succ fuel ih =>
      obtain ⟨k, rfl⟩ : ∃ k', k = k' + 1 := ⟨k - 1, by omega⟩
      unfold checkedPushLoop pushLoop
      by_cases h1 : i > 1
      · rw [if_pos h1, load_eq _ (by omega) (by omega), Option.bind_eq_bind, Option.bind_some]
        by_cases hgt : toSize (storage (i / 2)).priority > p
        · rw [if_pos hgt, if_pos ⟨h1, hgt⟩, store_eq hi hs, Option.bind_eq_bind, Option.bind_some]
          exact ih (by omega) (by omega) (by omega) (by omega)
        · rw [if_neg hgt, if_neg fun h => hgt h.2]
      · rw [if_neg h1, if_neg fun h => h1 h.1]

/-- The loop of `push` ends at a cell on the path to the root. -/
theorem pushLoop_mem (p fuel : Nat) (storage : Nat → PNode α) (hi : 1 ≤ i) :
    1 ≤ (pushLoop p fuel storage i (i / 2)).2 ∧ (pushLoop p fuel storage i (i / 2)).2 ≤ i := by
  have h := (pushLoop_holeRest (n := i) p fuel storage (Finset.mem_Icc.2 ⟨hi, le_refl i⟩)).1
  exact Finset.mem_Icc.1 h

theorem checkedPush_eq (hf : pq.count < fuel) (item : α) :
    pq.checkedPush fuel p item = some (pq.push p item) := by
  unfold checkedPush push
  split
  · rfl
  · have hmem := pushLoop_mem p (pq.count + 1) pq.storage (show 1 ≤ pq.count + 1 by omega)
    dsimp only
    rw [checkedPushLoop_eq (k := pq.count + 1) (by omega) (by omega) hf (le_refl _),
      Option.bind_eq_bind, Option.bind_some]
    rw [store_eq hmem.1 (by omega)]
    rfl

/-- The children that are compared lie in the heap, and the element being placed just behind it. -/
theorem checkedPopChild_eq (hi : 1 ≤ i) (hs : n + 1 < size) :
    checkedPopChild size storage n i = some (popChild storage n i) := by
  have hk := load_eq storage (show 1 ≤ n + 1 by omega) hs
  unfold checkedPopChild popChild
  by_cases hl : 2 * i ≤ n
  · have hleft : load size storage (2 * i) = some (storage (2 * i)) :=
      load_eq storage (by omega) (by omega)
    simp only [hl, hk, hleft, if_true, true_and, Option.bind_eq_bind, Option.bind_some]
    by_cases hr : 2 * i + 1 ≤ n
    · have hright : load size storage (2 * i + 1) = some (storage (2 * i + 1)) :=
        load_eq storage (by omega) (by omega)
      simp only [hr, hright, if_true, true_and, Option.bind_some]
      split
      · rw [hleft, Option.bind_some]
      · rw [hk, Option.bind_some]
    · simp only [hr, if_false, false_and]
  · have hr : ¬ 2 * i + 1 ≤ n := by omega
    simp only [hl, hr, if_false, false_and, Option.bind_eq_bind, Option.bind_some]

/-- The loop of `pop` ends: the hole moves towards the cell behind the heap, and never beyond. -/
theorem checkedPopLoop_eq {k : Nat} (hi : 1 ≤ i) (hn : i ≤ n + 1) (hs : n + 1 < size)
    (hf : n + 1 - i < fuel) (hk : n + 1 - i ≤ k) :
    checkedPopLoop size n fuel storage i = some (popLoop n k storage i) := by
  induction fuel generalizing storage i k with
  | zero => omega
  | succ fuel ih =>
      unfold checkedPopLoop
      by_cases he : i = n + 1
      · rw [if_neg (not_not.2 he)]
        cases k with
        | zero => rfl
        | succ k => rw [popLoop, if_neg (not_not.2 he)]
      · obtain ⟨k, rfl⟩ : ∃ k', k = k' + 1 := ⟨k - 1, by omega⟩
        have hchild := popChild_gt storage hi (show i ≤ n by omega)
        rw [popLoop, if_pos he, if_pos he, checkedPopChild_eq hi hs, Option.bind_eq_bind,
          Option.bind_some, load_eq _ (by omega) (by omega), Option.bind_eq_bind, Option.bind_some,
          store_eq hi (by omega), Option.bind_eq_bind, Option.bind_some]
        exact ih (by omega) hchild.2 (by omega) (by omega)

theorem checkedPop_eq (hpos : 0 < pq.count) (hs : pq.count < size) (hf : pq.count ≤ fuel) :
    pq.checkedPop fuel = some pq.pop := by
  have hc : pq.count - 1 + 1 = pq.count := Nat.sub_add_cancel hpos
  unfold checkedPop
  rw [load_eq _ (le_refl 1) (by omega), Option.bind_eq_bind, Option.bind_some, load_eq _ hpos hs,
    Option.bind_eq_bind, Option.bind_some, store_eq (le_refl 1) (by omega), Option.bind_some]
  dsimp only
  rw [checkedPopLoop_eq (k := pq.count - 1 + 1) (le_refl 1) (by omega) (by omega) (by omega)
    (by omega)]
  rfl

/-! ## Runs -/

/-- The operations of the queue. -/
inductive Op (α : Type) where
  | push (priority : Nat) (item : α)
  | pop

/-- What is observed of an operation: the pair that was pushed, and whether this returned 0, or the
pair that was taken. -/
inductive Event (α : Type) where
  | pushed (node : PNode α) (ok : Bool)
  | popped (node : PNode α)

/-- Pushes and pops from `pqueue_*_init` on. -/
def system (α : Type) [Inhabited α] (size : Nat) :
    TransitionSystem (PQueue α size) (Op α) (Event α) where
  init pq := pq = init
  step pq
  | .push priority item =>
      some (.pushed ⟨priority, item⟩ (decide ((pq.push priority item).1 = 0)),
        (pq.push priority item).2)
  | .pop => some (.popped ⟨(pq.storage 1).priority, pq.pop.1⟩, pq.pop.2)

/-- Priorities lie between 0 and `INT_MAX`, and an empty queue is not popped. -/
def Legal (pq : PQueue α size) : Op α → Prop
  | .push priority _ => priority ≤ 32767
  | .pop => 0 < pq.count

instance (pq : PQueue α size) (op : Op α) : Decidable (pq.Legal op) :=
  match op with
  | .push _ _ => inferInstanceAs (Decidable (_ ≤ _))
  | .pop => inferInstanceAs (Decidable (_ < _))

/-- The pairs that were accepted. -/
def pushes : List (Event α) → Multiset (PNode α)
  | [] => 0
  | .pushed node true :: h => node ::ₘ pushes h
  | .pushed _ false :: h => pushes h
  | .popped _ :: h => pushes h

/-- The pairs that were taken. -/
def pops : List (Event α) → Multiset (PNode α)
  | [] => 0
  | .pushed _ _ :: h => pops h
  | .popped node :: h => node ::ₘ pops h

/-- The queue is a heap within its storage, without negative priorities, and holds what was pushed
and not popped. -/
structure Sound (h : List (Event α)) (pq : PQueue α size) : Prop where
  ordered : pq.Ordered
  nonneg : ∀ n ∈ pq.entries, 0 ≤ n.priority ∧ n.priority ≤ 32767
  count_lt : pq.count < size
  entries_add : pq.entries + pops h = pushes h

/-- Where no priority is negative, no push meets one. -/
theorem settles_of_nonneg {j : Nat} (h : ∀ k, 1 ≤ k → k ≤ n → 0 ≤ (storage k).priority)
    (hj : j ≤ n) : settles storage p fuel j = true := by
  induction fuel generalizing j with
  | zero => rfl
  | succ fuel ih =>
      rw [settles, decide_eq_true_eq]
      rcases Nat.eq_zero_or_pos j with h0 | hpos
      · exact .inl h0
      · exact .inr ⟨h j hpos hj, .inr (ih (by omega))⟩

variable {h : List (Event α)}

theorem Sound.inRange (hs : Sound h pq) : pq.InRange := by
  intro n hn
  have hn := hs.nonneg n hn
  omega

theorem Sound.pushFits (hs : Sound h pq) (p : Nat) : pq.PushFits p := by
  apply settles_of_nonneg (n := pq.count) _ (by omega)
  intro k hk hkn
  exact (hs.nonneg _ (mem_entries hk hkn)).1

theorem toInt_natCast (hp : p ≤ 32767) : toInt p = p := toInt_of_mem (by omega) (by omega)

theorem push_of_room (hroom : pq.count + 1 < size) (item : α) : (pq.push p item).1 = 0 ∧
    (pq.push p item).2.count = pq.count + 1 := by
  rw [push, if_neg (by omega)]
  exact ⟨rfl, rfl⟩

theorem Sound.push (hs : Sound h pq) (hp : p ≤ 32767) (item : α) :
    Sound (.pushed ⟨p, item⟩ (decide ((pq.push p item).1 = 0)) :: h) (pq.push p item).2 := by
  have hkey := toInt_natCast hp
  refine ⟨hs.ordered.push hs.inRange (by omega) (hs.pushFits p) item, ?_, ?_, ?_⟩
  · apply forall_entries_push hs.nonneg
    rw [hkey]
    show 0 ≤ (p : Int) ∧ (p : Int) ≤ 32767
    omega
  · have hlt := hs.count_lt
    by_cases hroom : pq.count + 1 < size
    · rw [(push_of_room hroom item).2]
      exact hroom
    · rw [push_full (by omega)]
      exact hlt
  · by_cases hroom : pq.count + 1 < size
    · rw [decide_eq_true (push_of_room hroom item).1, entries_push hroom, hkey, pushes, pops,
        Multiset.cons_add, hs.entries_add]
    · rw [push_full (by omega)]
      exact hs.entries_add

theorem Sound.pop (hs : Sound h pq) (hpos : 0 < pq.count) :
    Sound (.popped ⟨(pq.storage 1).priority, pq.pop.1⟩ :: h) pq.pop.2 := by
  refine ⟨hs.ordered.pop hpos, forall_entries_pop hs.nonneg hpos,
    Nat.lt_of_le_of_lt (Nat.sub_le pq.count 1) hs.count_lt, ?_⟩
  have hall := hs.entries_add
  rw [entries_eq hpos, Multiset.cons_add] at hall
  rw [entries_pop hpos, pushes, pops, Multiset.add_cons]
  exact hall

theorem sound [Inhabited α] (hsize : 0 < size) (hr : (system α size).Run Legal h pq) :
    Sound h pq := by
  refine hr.invariant ?_ ?_
  · rintro pq rfl
    refine ⟨?_, nofun, hsize, rfl⟩
    intro i hi hn
    have hn : i ≤ 0 := hn
    omega
  · intro h pq op e pq' hs hl hstep
    cases op with
    | push priority item =>
        obtain ⟨rfl, rfl⟩ := Prod.mk.inj (Option.some.inj hstep)
        exact hs.push hl item
    | pop =>
        obtain ⟨rfl, rfl⟩ := Prod.mk.inj (Option.some.inj hstep)
        exact hs.pop hl

/-! ## What the queue promises -/

/-- The items that `n` pops return. -/
def drain : Nat → PQueue α size → List α
  | 0, _ => []
  | n + 1, pq => pq.pop.1 :: drain n pq.pop.2

theorem pop_count : pq.pop.2.count = pq.count - 1 := rfl

/-- Draining a heap sorts its entries by priority. -/
theorem drain_sorted (ho : pq.Ordered) (hn : pq.count = n) :
    ∃ ns : List (PNode α), ns.map PNode.data = drain n pq ∧ (ns : Multiset (PNode α)) = pq.entries ∧
      ns.Pairwise fun a b => a.priority ≤ b.priority := by
  induction n generalizing pq with
  | zero => exact ⟨[], rfl, (entries_of_count hn).symm, .nil⟩
  | succ n ih =>
      have hpos : 0 < pq.count := by omega
      obtain ⟨ns, hitems, hentries, hsorted⟩ := ih (ho.pop hpos) (by rw [pop_count, hn]; rfl)
      rw [entries_pop hpos] at hentries
      refine ⟨pq.storage 1 :: ns, ?_, ?_, ?_⟩
      · rw [List.map_cons, hitems]
        rfl
      · rw [← Multiset.cons_coe, hentries, entries_eq hpos]
      · refine .cons ?_ hsorted
        intro m hm
        apply ho.root_le
        rw [entries_eq hpos, ← hentries]
        exact Multiset.mem_cons_of_mem hm

/-- What the queue promises after the history `h`: a heap that holds what was pushed and not popped,
pushes that are refused only by a full queue, which stays as it is, pops of an entry of minimal
priority, and loops that end and stay within `storage[1]` to `storage[size - 1]`. -/
structure PriorityQueue (h : List (Event α)) (pq : PQueue α size) : Prop where
  ordered : ∀ i, 2 ≤ i → i ≤ pq.count → (pq.storage (i / 2)).priority ≤ (pq.storage i).priority
  count_le : pq.count ≤ size - 1
  entries_add : pq.entries + pops h = pushes h
  push_status : ∀ p item, ((pq.push p item).1 = 0 ↔ pq.count ≠ size - 1) ∧
    ((pq.push p item).1 = -1 ↔ pq.count = size - 1)
  push_full : ∀ p item, pq.count = size - 1 → (pq.push p item).2 = pq
  pop_min : 0 < pq.count → ∃ n ∈ pq.entries, pq.pop.1 = n.data ∧
    pq.entries = n ::ₘ pq.pop.2.entries ∧ ∀ m ∈ pq.entries, n.priority ≤ m.priority
  push_checked : ∀ fuel p item, pq.count < fuel →
    pq.checkedPush fuel p item = some (pq.push p item)
  pop_checked : ∀ fuel, 0 < pq.count → pq.count ≤ fuel → pq.checkedPop fuel = some pq.pop
  drain_sorted : ∃ ns : List (PNode α), ns.map PNode.data = drain pq.count pq ∧
    (ns : Multiset (PNode α)) = pq.entries ∧ ns.Pairwise fun a b => a.priority ≤ b.priority

theorem push_status (hc : pq.count < size) (p : Nat) (item : α) :
    ((pq.push p item).1 = 0 ↔ pq.count ≠ size - 1) ∧
      ((pq.push p item).1 = -1 ↔ pq.count = size - 1) := by
  by_cases hroom : pq.count + 1 < size
  · have hne : pq.count ≠ size - 1 := by omega
    rw [(push_of_room hroom item).1]
    simp [hne]
  · have heq : pq.count = size - 1 := by omega
    rw [push_full (by omega)]
    simp [heq]

/-- In every run of pushes with priorities from 0 to `INT_MAX` and of pops of a queue that is not
empty, the queue is a bounded priority queue. -/
theorem is_priorityQueue [Inhabited α] (hsize : 2 ≤ size)
    (hr : (system α size).Run Legal h pq) : PriorityQueue h pq := by
  have hs := sound (by omega) hr
  have hlt := hs.count_lt
  refine ⟨hs.ordered, by omega, hs.entries_add, push_status hlt, ?_, ?_, ?_, ?_,
    drain_sorted hs.ordered rfl⟩
  · intro p item hfull
    rw [push_full (by omega)]
  · intro hpos
    refine ⟨pq.storage 1, mem_entries (le_refl 1) hpos, rfl, ?_, fun m hm => hs.ordered.root_le hm⟩
    rw [entries_pop hpos, entries_eq hpos]
  · exact fun fuel p item hf => checkedPush_eq hf item
  · exact fun fuel hpos hf => checkedPop_eq hpos hlt hf

/-- A queue with room for three entries refuses a fourth one, and has room for it again after a
pop. -/
theorem is_priorityQueue_six_steps :
    ∃ (h : List (Event Nat)) (pq : PQueue Nat 4), (system Nat 4).Run Legal h pq ∧ h.length = 6 ∧
      (pushes h).map PNode.priority = {5, 3, 2, 3} ∧ (pops h).map PNode.priority = {2} ∧
      PriorityQueue h pq := by
  obtain ⟨h, pq, hr, hlen, hpush, hpop⟩ := TransitionSystem.exists_run_of_exec
    (M := system Nat 4) (G := Legal) (s := init) rfl
    [.push 5 0, .push 3 1, .push 2 2, .push 9 3, .pop, .push 3 4]
    (P := fun h _ => h.length = 6 ∧ (pushes h).map PNode.priority = {5, 3, 2, 3} ∧
      (pops h).map PNode.priority = {2}) (by decide +kernel)
  exact ⟨h, pq, hr, hlen, hpush, hpop, is_priorityQueue (by decide) hr⟩

end PQueue

end MsTos
