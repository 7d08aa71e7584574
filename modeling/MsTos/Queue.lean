-- SUMMARY: The ring buffer that `QUEUE` of `queue.h` generates.
import Mathlib.Logic.Function.Basic
import MsTos.Word

namespace MsTos

/-- `struct queue_##name`: `storage` is indexed below `size`. -/
structure Queue (α : Type) (size : Nat) where
  storage : Nat → α
  /-- Index of the read head, initially 0. -/
  read : Nat
  /-- Index of the write head, initially 0. -/
  write : Nat
  /-- Number of items in the queue. -/
  count : Nat

namespace Queue

variable {α : Type} {size : Nat}

/-- `queue_*_init`: the storage is cleared with `memset`, so `default` stands for the
all-zero value of the element type. -/
def init [Inhabited α] : Queue α size :=
  { storage := fun _ => default, read := 0, write := 0, count := 0 }

/-- `queue_*_push`: 0 if successful, -1 if the queue is full. -/
def push (q : Queue α size) (item : α) : Int × Queue α size :=
  if q.count < size then
    let next := (q.write + 1) % size
    (0, { q with
      storage := Function.update q.storage next item
      write := next
      count := q.count + 1 })
  else
    (-1, q)

/-- `queue_*_pop`: the item written through the out parameter, or `none` where the C
function returns -1 and leaves the out parameter alone. -/
def pop (q : Queue α size) : Option α × Queue α size :=
  if q.count > 0 then
    let next := (q.read + 1) % size
    (some (q.storage next), { q with read := next, count := q.count - 1 })
  else
    (none, q)

/-- The index that `queue_*_front` reads: it is not reduced modulo `size`. -/
def frontIndex (q : Queue α size) : Nat := q.read + 1

/-- The index that `queue_*_back` reads: it is not reduced modulo `size`. -/
def backIndex (q : Queue α size) : Nat := q.write + 1

/-- `queue_*_front`. -/
def front (q : Queue α size) : Option α :=
  if q.count > 0 then some (q.storage q.frontIndex) else none

/-- `queue_*_back`. -/
def back (q : Queue α size) : Option α :=
  if q.count > 0 then some (q.storage q.backIndex) else none

/-- The index that `queue_*_foreach` visits in round `i`. The sum is a `size_t` and may overflow;
those of `push` and `pop` are at most `size`. -/
def foreachIndex (q : Queue α size) (i : Nat) : Nat := (q.read + i + 1) % wordSize % size

/-- An assignment to `storage[p]`. -/
def store (q : Queue α size) (p : Nat) (a : α) : Queue α size :=
  { q with storage := Function.update q.storage p a }

/-- The loop of `queue_*_foreach`, with `n` rounds to go. `fun` gets a pointer to an element, through
which it may write. -/
def foreachLoop {σ : Type} (f : Nat → α → σ → Int × α × σ) :
    Nat → Nat → Queue α size → σ → Queue α size × σ
  | 0, _, q, ctx => (q, ctx)
  | n + 1, i, q, ctx =>
      let p := q.foreachIndex i
      let (r, x, ctx) := f p (q.storage p) ctx
      let q := q.store p x
      if r ≠ 0 then (q, ctx) else foreachLoop f n (i + 1) q ctx

/-- `queue_*_foreach`, where `none` stands for a null pointer. -/
def foreach {σ : Type} (q : Queue α size) (f : Option (Nat → α → σ → Int × α × σ)) (ctx : σ) :
    Queue α size × σ :=
  match f with
  | none => (q, ctx)
  | some f => foreachLoop f q.count 0 q ctx

end Queue

end MsTos
