-- SUMMARY: The thread pool `POOL(task_mem, os_task_t, NUM_THREADS)` over the free list of `slist.h`.
import Mathlib.Logic.Function.Basic

namespace MsTos

/-- `NUM_THREADS` of `config.h`. -/
abbrev numThreads : Nat := 16

/-- `STACKSIZE` of `config.h`, in bytes. -/
def stackSize : Nat := 160

/-- A 16-bit data address; 0 is `NULL`. -/
abbrev Addr := Nat

/-- Address of `task_mem.items` in the linked image: `task_mem` starts with the two bytes of
`free_list`. -/
def itemsBase : Addr := 0x2402

/-- `sizeof(union pool_task_mem_private)` in the small data model. -/
def itemSize : Nat := 218

/-- `&task_mem.items[i]`. -/
def itemAddr (i : Fin numThreads) : Addr := itemsBase + itemSize * i

/-- The slot that starts at an address, if one does. -/
def itemAt (a : Addr) : Option (Fin numThreads) :=
  if h : itemsBase ≤ a ∧ (a - itemsBase) % itemSize = 0 ∧ (a - itemsBase) / itemSize < numThreads then
    some ⟨(a - itemsBase) / itemSize, h.2.2⟩
  else
    none

/-- `struct pool_task_mem`. The union makes `word a` both the link of a free slot at `a` and the
`sp` of the thread in it; at other addresses it is the memory that a stray link would read. -/
structure Pool where
  /-- `free_list.head.next`. -/
  freeList : Addr
  word : Addr → Addr

/-- `slist_prepend` on the free list. -/
def slistPrepend (pool : Pool) (element : Addr) : Pool :=
  { freeList := element, word := Function.update pool.word element pool.freeList }

/-- `slist_remove_head` on the free list: the removed element, or `NULL` if the list is empty. -/
def slistRemoveHead (pool : Pool) : Addr × Pool :=
  if pool.freeList = 0 then (0, pool)
  else (pool.freeList, { pool with freeList := pool.word pool.freeList })

/-- `pool_task_mem_init`. -/
def poolInit (pool : Pool) : Pool :=
  (List.finRange numThreads).foldl (fun p i => slistPrepend p (itemAddr i)) { pool with freeList := 0 }

/-- `pool_task_mem_alloc`. -/
def poolAlloc (pool : Pool) : Addr × Pool := slistRemoveHead pool

/-- `pool_task_mem_free`. -/
def poolFree (pool : Pool) (obj : Addr) : Pool :=
  if obj = 0 then pool else slistPrepend pool obj

/-- The store `thrd->sp = v`. -/
def Pool.setSp (pool : Pool) (i : Fin numThreads) (v : Addr) : Pool :=
  { pool with word := Function.update pool.word (itemAddr i) v }

end MsTos
