-- SUMMARY: The bounded priority queue that `PQUEUE` of `pqueue.h` generates.
import Mathlib.Logic.Function.Basic
import MsTos.Word

namespace MsTos

/-- `struct pqueue_##name##_node`. -/
structure PNode (α : Type) where
  priority : Int
  data : α

/-- `struct pqueue_##name`: a heap array whose root is `storage[1]`. -/
structure PQueue (α : Type) (size : Nat) where
  storage : Nat → PNode α
  /-- Number of items in the queue. -/
  count : Nat

namespace PQueue

variable {α : Type} {size : Nat}

/-- `pqueue_*_init`. -/
def init [Inhabited α] : PQueue α size :=
  { storage := fun _ => ⟨0, default⟩, count := 0 }

/-- The loop of `pqueue_*_push`: it moves the hole `i` up while its parent's `int` priority,
converted to `size_t` for the comparison, exceeds the new priority. -/
def pushLoop (priority : Nat) : Nat → (Nat → PNode α) → Nat → Nat → (Nat → PNode α) × Nat
  | 0, storage, i, _ => (storage, i)
  | fuel + 1, storage, i, j =>
      if i > 1 ∧ toSize (storage j).priority > priority then
        pushLoop priority fuel (Function.update storage i (storage j)) j (j / 2)
      else
        (storage, i)

/-- `pqueue_*_push`: 0 if successful, -1 if the queue is full. -/
def push (pq : PQueue α size) (priority : Nat) (item : α) : Int × PQueue α size :=
  if pq.count + 1 ≥ size then
    (-1, pq)
  else
    let i := pq.count + 1
    let (storage, i) := pushLoop priority i pq.storage i (i / 2)
    (0, { storage := Function.update storage i ⟨toInt priority, item⟩, count := pq.count + 1 })

/-- The child of the hole `i` that the loop of `pqueue_*_pop` moves up, or `count + 1`, where
the element being placed is parked. -/
def popChild (storage : Nat → PNode α) (count i : Nat) : Nat :=
  let k := count + 1
  let j := 2 * i
  let k := if j ≤ count ∧ (storage j).priority < (storage k).priority then j else k
  if j + 1 ≤ count ∧ (storage (j + 1)).priority < (storage k).priority then j + 1 else k

/-- The loop of `pqueue_*_pop`. -/
def popLoop (count : Nat) : Nat → (Nat → PNode α) → Nat → (Nat → PNode α)
  | 0, storage, _ => storage
  | fuel + 1, storage, i =>
      if i ≠ count + 1 then
        let k := popChild storage count i
        popLoop count fuel (Function.update storage i (storage k)) k
      else
        storage

/-- `pqueue_*_pop` of a non-empty queue. -/
def pop (pq : PQueue α size) : α × PQueue α size :=
  let item := (pq.storage 1).data
  let storage := Function.update pq.storage 1 (pq.storage pq.count)
  let count := pq.count - 1
  (item, { storage := popLoop count (count + 1) storage 1, count })

/-- `pqueue_*_peek`. -/
def peek (pq : PQueue α size) : Option α :=
  if pq.count > 0 then some (pq.storage 1).data else none

/-- An assignment to the fields of `storage[1]`. -/
def setRoot (pq : PQueue α size) (f : PNode α → PNode α) : PQueue α size :=
  { pq with storage := Function.update pq.storage 1 (f (pq.storage 1)) }

end PQueue

end MsTos
