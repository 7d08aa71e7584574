-- SUMMARY: The threads that `sleep_queue` and `t_waitqueue` hold, and the invariant rules for the two loops of `os_update`.
import MsTos.Os
import MsTos.PQueueBag

namespace MsTos

namespace PQueue

variable {size : Nat} {pq : PQueue SleepDeadline size}

/-- The threads that the entries of the queue point at. -/
def handles (pq : PQueue SleepDeadline size) : Multiset ThrdPtr :=
  pq.entries.map fun n => n.data.data

@[simp] theorem card_handles (pq : PQueue SleepDeadline size) : pq.handles.card = pq.count := by
  simp [handles]

@[simp] theorem handles_init : (init : PQueue SleepDeadline size).handles = 0 := rfl

theorem handles_push (h : pq.count + 1 < size) (priority : Nat) (item : SleepDeadline) :
    (pq.push priority item).2.handles = item.data ::ₘ pq.handles := by
  rw [handles, entries_push h, Multiset.map_cons, handles]

/-- A handle is pushed to a heap, or nothing happens. -/
theorem mem_handles_push {priority : Nat} {item : SleepDeadline} {p : ThrdPtr}
    (hp : p ∈ (pq.push priority item).2.handles) : p = item.data ∨ p ∈ pq.handles := by
  rcases Nat.lt_or_ge (pq.count + 1) size with hroom | hfull
  · rwa [handles_push hroom, Multiset.mem_cons] at hp
  · rw [PQueue.push, if_pos hfull] at hp
    exact .inr hp

theorem handles_pop (h : 0 < pq.count) :
    pq.handles = (pq.storage 1).data.data ::ₘ pq.pop.2.handles := by
  rw [handles, entries_eq h, Multiset.map_cons, handles, entries_pop h]

/-- Writing to the root does not touch the threads, as long as it leaves the root's own. -/
theorem handles_setRoot {f : PNode SleepDeadline → PNode SleepDeadline}
    (hf : ∀ n, (f n).data.data = n.data.data) : (pq.setRoot f).handles = pq.handles := by
  cases Nat.eq_zero_or_pos pq.count with
  | inl h => simp [handles, entries_of_count, h]
  | inr h => simp [handles, entries_setRoot h, entries_eq h, hf]

@[simp] theorem handles_countDown : pq.countDown.handles = pq.handles :=
  handles_setRoot fun _ => rfl

@[simp] theorem handles_charge (amount ticks : Nat) : (pq.charge amount ticks).handles = pq.handles :=
  handles_setRoot fun _ => rfl

/-- A round of the loops of `os_update` that pops the root. -/
theorem handles_pop_charge {item : SleepDeadline} {q : PQueue SleepDeadline size}
    (hp : pq.countDown.pop = (item, q)) (h : 0 < pq.count) (amount : Nat) :
    pq.countDown.handles = item.data ::ₘ (q.charge amount item.ticks).handles := by
  have hq : pq.countDown.handles = (pq.countDown.storage 1).data.data ::ₘ
      pq.countDown.pop.2.handles := handles_pop h
  rw [← pop_item, hp] at hq
  rw [hq, handles_charge]

end PQueue

/-! ## The loops of `os_update` -/

namespace Kernel

variable {P : Kernel → Prop} {k : Kernel}

/-- `sleep_queue` is only changed to wake the threads of entries that are popped. -/
theorem wakeSleepers_invariant
    (hkeep : ∀ (k : Kernel) (q : PQueue SleepDeadline numThreads),
      q.handles = k.sleepQueue.handles → P k → P { k with sleepQueue := q })
    (hwake : ∀ (k : Kernel) (d : ThrdPtr) (q : PQueue SleepDeadline numThreads),
      k.sleepQueue.handles = d ::ₘ q.handles → P k →
        P { (k.osAddTaskMmang d).2.store d (fun t => { t with state := .ACTIVE }) with
          sleepQueue := q })
    (hk : P k) (thresh fuel : Nat) : P (wakeSleepers thresh fuel k) := by
  induction fuel generalizing k with
  | zero => exact hk
  | succ fuel ih =>
      unfold wakeSleepers
      dsimp only
      split
      · rename_i hc
        have hk' := hkeep k k.sleepQueue.countDown PQueue.handles_countDown hk
        split
        · rcases hp : k.sleepQueue.countDown.pop with ⟨⟨data, ticks⟩, q⟩
          have hw := hwake _ data (q.charge (toSize (ticks - 1)) ticks)
            (PQueue.handles_pop_charge hp (Nat.zero_lt_of_lt hc) _) hk'
          apply ih
          cases data <;> exact hw
        · exact hk'
      · exact hk

/-- `t_waitqueue` is only changed to re-link the threads of entries that are popped. -/
theorem expireDeadlines_invariant
    (hkeep : ∀ (k : Kernel) (q : PQueue SleepDeadline numThreads),
      q.handles = k.tWaitqueue.handles → P k → P { k with tWaitqueue := q })
    (hexpire : ∀ (k : Kernel) (d : ThrdPtr) (q : PQueue SleepDeadline numThreads),
      k.tWaitqueue.handles = d ::ₘ q.handles → P k →
        P { (k.osAddTaskMmang d).2 with tWaitqueue := q })
    (hk : P k) (thresh fuel : Nat) : P (expireDeadlines thresh fuel k) := by
  induction fuel generalizing k with
  | zero => exact hk
  | succ fuel ih =>
      unfold expireDeadlines
      dsimp only
      split
      · rename_i hc
        have hk' := hkeep k k.tWaitqueue.countDown PQueue.handles_countDown hk
        split
        · rcases hp : k.tWaitqueue.countDown.pop with ⟨⟨data, ticks⟩, q⟩
          have hw := hexpire _ data (q.charge ticks ticks)
            (PQueue.handles_pop_charge hp (Nat.zero_lt_of_lt hc) _) hk'
          apply ih
          cases data <;> exact hw
        · exact hk'
      · exact hk

end Kernel

end MsTos
