-- SUMMARY: The priority queue as a heap: when pushing, popping and writing to the root keep its order.
import MsTos.Lib.BinaryHeap
import MsTos.PQueueBag

namespace MsTos

namespace PQueue

variable {α : Type} {size n fuel i p : Nat} {storage : Nat → PNode α} {pq : PQueue α size}

/-- The priorities of the cells. -/
def keys (storage : Nat → PNode α) : Nat → Int := PNode.priority ∘ storage

theorem keys_update (storage : Nat → PNode α) (i : Nat) (x : PNode α) :
    keys (Function.update storage i x) = Function.update (keys storage) i x.priority :=
  Function.comp_update ..

/-- `storage[i/2].priority <= storage[i].priority` for all indices from 2 to `count`. -/
def Ordered (pq : PQueue α size) : Prop := HeapOrder pq.count (keys pq.storage)

/-- The priorities fit into an `int`. -/
def InRange (pq : PQueue α size) : Prop :=
  ∀ n ∈ pq.entries, -32768 ≤ n.priority ∧ n.priority ≤ 32767

theorem mem_entries (hi : 1 ≤ i) (hn : i ≤ pq.count) : pq.storage i ∈ pq.entries :=
  Multiset.mem_map_of_mem _ (Finset.mem_Icc.2 ⟨hi, hn⟩)

/-! ## `pqueue_*_push` -/

/-- Going up from the cell `j`, one comes to an entry that stays above a new one of priority `p`, or
to the end, before one comes to a negative priority. -/
def settles (storage : Nat → PNode α) (p : Nat) : Nat → Nat → Bool
  | 0, _ => true
  | fuel + 1, j =>
      j = 0 ∨ 0 ≤ (storage j).priority ∧ ((storage j).priority ≤ p ∨ settles storage p fuel (j / 2))

theorem settles_update {j : Nat} (hj : j < i) (x : PNode α) :
    settles (Function.update storage i x) p fuel j = settles storage p fuel j := by
  induction fuel generalizing j with
  | zero => rfl
  | succ fuel ih =>
      have hne : j ≠ i := by omega
      unfold settles
      rw [Function.update_of_ne hne, ih (by omega)]

theorem toSize_of_nonneg {z : Int} (h : 0 ≤ z) (h' : z ≤ 32767) : (toSize z : Int) = z := by
  unfold toSize
  omega

theorem toSize_of_neg {z : Int} (h : -32768 ≤ z) (h' : z < 0) : 32768 ≤ toSize z := by
  unfold toSize
  omega

/-- The loop of `push` sifts the hole up, although it compares as `size_t`. -/
theorem pushLoop_ordered {item : α} (h : SiftUp n (keys storage) i p) (hi : 1 ≤ i) (hn : i ≤ n)
    (hf : i ≤ fuel) (hp : p < 32768)
    (hb : ∀ j, 1 ≤ j → j < i → -32768 ≤ (storage j).priority ∧ (storage j).priority ≤ 32767)
    (hs : settles storage p fuel (i / 2) = true) :
    HeapOrder n (keys (Function.update (pushLoop p fuel storage i (i / 2)).1
      (pushLoop p fuel storage i (i / 2)).2 ⟨toInt p, item⟩)) := by
  have hkey : toInt p = p := toInt_of_mem (by omega) (by omega)
  induction fuel generalizing storage i with
  | zero => omega
  | succ fuel ih =>
      unfold pushLoop
      split
      · rename_i hc
        have hj := hb (i / 2) (by omega) (by omega)
        rw [settles, decide_eq_true_eq] at hs
        obtain ⟨hnn, hs⟩ := hs.resolve_left (by omega)
        have hsize := toSize_of_nonneg hnn hj.2
        have hlt : (p : Int) < (storage (i / 2)).priority := by omega
        have hs' := hs.resolve_left (by omega)
        have hmove : SiftUp n (keys (Function.update storage i (storage (i / 2)))) (i / 2) p := by
          rw [keys_update]
          exact h.move hc.1 hn hlt
        apply ih hmove (by omega) (by omega) (by omega)
        · intro j hj hji
          rw [Function.update_of_ne (by omega)]
          exact hb j hj (by omega)
        · rwa [settles_update (by omega)]
      · rename_i hc
        rw [keys_update]
        show HeapOrder n (Function.update (keys storage) i (toInt p))
        rw [hkey]
        apply h.fill
        intro hi2
        have hj := hb (i / 2) (by omega) (by omega)
        have hle : toSize (storage (i / 2)).priority ≤ p := not_lt.1 fun hlt => hc ⟨hi2, hlt⟩
        show (storage (i / 2)).priority ≤ p
        rcases Int.lt_or_le (storage (i / 2)).priority 0 with hneg | hnn
        · have hbig := toSize_of_neg hj.1 hneg
          omega
        · have hsize := toSize_of_nonneg hnn hj.2
          omega

/-- No push of priority `p` meets a negative priority. -/
def PushFits (pq : PQueue α size) (p : Nat) : Prop :=
  settles pq.storage p (pq.count + 1) ((pq.count + 1) / 2) = true

instance (pq : PQueue α size) (p : Nat) : Decidable (pq.PushFits p) :=
  inferInstanceAs (Decidable (_ = _))

theorem Ordered.push (h : pq.Ordered) (hr : pq.InRange) (hp : p < 32768) (hs : pq.PushFits p)
    (item : α) : (pq.push p item).2.Ordered := by
  unfold PQueue.push
  split
  · exact h
  · apply pushLoop_ordered (h.siftUp (p : Int)) (by omega) (le_refl _) (le_refl _) hp _ hs
    exact fun j hj hn => hr _ (mem_entries hj (by omega))

theorem InRange.push (h : pq.InRange) (p : Nat) (item : α) : (pq.push p item).2.InRange :=
  forall_entries_push h (toInt_mem p)

/-! ## `pqueue_*_pop` -/

theorem popChild_cases (storage : Nat → PNode α) (i n : Nat) :
    popChild storage n i = n + 1 ∧
        (∀ k, k ≤ n → k / 2 = i → keys storage (n + 1) ≤ keys storage k) ∨
      popChild storage n i ≤ n ∧ popChild storage n i / 2 = i ∧
        keys storage (popChild storage n i) < keys storage (n + 1) ∧
        ∀ k, k ≤ n → k / 2 = i → keys storage (popChild storage n i) ≤ keys storage k := by
  have hchildren : ∀ {x : Int}, (2 * i ≤ n → x ≤ (storage (2 * i)).priority) →
      (2 * i + 1 ≤ n → x ≤ (storage (2 * i + 1)).priority) →
      ∀ k, k ≤ n → k / 2 = i → x ≤ keys storage k := by
    intro x hl hr k hn hk
    have hk : k = 2 * i ∨ k = 2 * i + 1 := by omega
    obtain rfl | rfl := hk
    · exact hl hn
    · exact hr hn
  simp only [popChild]
  split <;> rename_i hl <;> split <;> rename_i hr
  · exact .inr ⟨hr.1, by omega, hr.2.trans hl.2, hchildren (fun _ => hr.2.le) fun _ => le_refl _⟩
  · exact .inr ⟨hl.1, by omega, hl.2,
      hchildren (fun _ => le_refl _) fun h => not_lt.1 fun hlt => hr ⟨h, hlt⟩⟩
  · exact .inr ⟨hr.1, by omega, hr.2,
      hchildren (fun h => hr.2.le.trans (not_lt.1 fun hlt => hl ⟨h, hlt⟩)) fun _ => le_refl _⟩
  · exact .inl ⟨rfl, hchildren (fun h => not_lt.1 fun hlt => hl ⟨h, hlt⟩)
      fun h => not_lt.1 fun hlt => hr ⟨h, hlt⟩⟩

/-- The loop of `pop` sifts the hole down to the cell behind the heap, in which the last entry is
parked. -/
theorem popLoop_ordered (hi : 1 ≤ i) (hn : i ≤ n + 1) (hf : n + 1 - i ≤ fuel)
    (h : i ≤ n → SiftDown n (keys storage) i (keys storage (n + 1)))
    (hend : i = n + 1 → HeapOrder n (keys storage)) :
    HeapOrder n (keys (popLoop n fuel storage i)) := by
  induction fuel generalizing storage i with
  | zero => exact hend (by omega)
  | succ fuel ih =>
      unfold popLoop
      split
      · rename_i hne
        have hin : i ≤ n := by omega
        have hgt := popChild_gt storage hi hin
        apply ih (by omega) hgt.2 (by omega)
        · intro hk
          rw [keys_update, Function.update_of_ne (by omega)]
          obtain ⟨he, -⟩ | ⟨-, hp, hlt, hmin⟩ := popChild_cases storage i n
          · omega
          · exact (h hin).move hi hp hk hlt hmin
        · intro hk
          rw [keys_update]
          obtain ⟨he, hle⟩ | ⟨hle, -⟩ := popChild_cases storage i n
          · show HeapOrder n (Function.update (keys storage) i (keys storage (popChild storage n i)))
            rw [he]
            exact (h hin).fill hle
          · omega
      · rename_i he
        exact hend (not_not.1 he)

theorem Ordered.pop (h : pq.Ordered) (hpos : 0 < pq.count) : pq.pop.2.Ordered := by
  have hc : pq.count - 1 + 1 = pq.count := Nat.sub_add_cancel hpos
  have hmono : HeapOrder (pq.count - 1) (keys pq.storage) := fun i hi hn => h i hi (by omega)
  show HeapOrder (pq.count - 1) _
  apply popLoop_ordered (le_refl 1) (by omega) (by omega)
  · intro _
    rw [keys_update]
    exact hmono.siftDown _ _
  · intro he i hi hn
    omega

theorem InRange.pop (h : pq.InRange) (hpos : 0 < pq.count) : pq.pop.2.InRange :=
  forall_entries_pop h hpos

/-! ## The root -/

theorem Ordered.root_le (h : pq.Ordered) {n : PNode α} (hn : n ∈ pq.entries) :
    (pq.storage 1).priority ≤ n.priority := by
  obtain ⟨i, hi, rfl⟩ := Multiset.mem_map.1 hn
  rw [Finset.mem_val, Finset.mem_Icc] at hi
  exact HeapOrder.root_le h hi.1 hi.2

/-- `pqueue_*_peek` shows what the next pop takes, an entry of minimal priority. -/
theorem Ordered.peek_least {a : α} (h : pq.Ordered) (hp : pq.peek = some a) :
    pq.pop.1 = a ∧ ∃ n ∈ pq.entries, n.data = a ∧ ∀ m ∈ pq.entries, n.priority ≤ m.priority := by
  unfold peek at hp
  split at hp
  case isTrue hpos =>
    obtain rfl := Option.some.inj hp
    refine ⟨rfl, pq.storage 1, ?_, rfl, fun m hm => h.root_le hm⟩
    exact Multiset.mem_map.2 ⟨1, Finset.mem_Icc.2 ⟨le_refl 1, hpos⟩, rfl⟩
  case isFalse => cases hp

theorem Ordered.setRoot (h : pq.Ordered) {f : PNode α → PNode α}
    (hf : 0 < pq.count → (f (pq.storage 1)).priority ≤ (pq.storage 1).priority) :
    (pq.setRoot f).Ordered := by
  rcases Nat.eq_zero_or_pos pq.count with h0 | hpos
  · intro i hi hn
    have hn' : i ≤ pq.count := hn
    omega
  · show HeapOrder pq.count (keys (Function.update pq.storage 1 _))
    rw [keys_update]
    exact h.lower_root (hf hpos)

theorem InRange.setRoot (h : pq.InRange) {f : PNode α → PNode α}
    (hf : 0 < pq.count →
      -32768 ≤ (f (pq.storage 1)).priority ∧ (f (pq.storage 1)).priority ≤ 32767) :
    (pq.setRoot f).InRange := forall_entries_setRoot h hf

end PQueue

end MsTos
