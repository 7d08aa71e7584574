-- SUMMARY: The kernel's data types (`definitions.h`) and the state of the kernel's variables (`os.c`).
import Mathlib.Data.Fintype.Sum
import Mathlib.Tactic.DeriveFintype
import MsTos.LinkedList
import MsTos.PQueue
import MsTos.Pool
import MsTos.Queue

namespace MsTos

/-- The task control blocks: `idle_thrd` and the slots of `task_mem`. -/
inductive TaskId where
  | idle
  | slot (i : Fin numThreads)
  deriving DecidableEq, Fintype

/-- `thrd_t *`. -/
abbrev ThrdPtr := Option TaskId

/-- The elements of the run queue: its pseudo head and the `elem` of every task. -/
inductive Node where
  | head
  | elem (t : TaskId)
  deriving DecidableEq

inductive ThrdState where
  | ACTIVE
  | KILLED
  | SLEEPING
  | BLOCKING
  deriving DecidableEq

/-- `thrd_t`, apart from the context (`sp`, the stack and `ret_addr`) and `join_sem`. -/
structure Thrd where
  mbox : Int
  basePrio : Nat
  fixedPrio : Nat
  workingPrio : Nat
  state : ThrdState

/-- `sem_t`. -/
structure Sem where
  /-- An `int16_t`. -/
  val : Int
  wq : Queue ThrdPtr numThreads

/-- `mtx_t`. -/
structure Mtx where
  holder : ThrdPtr
  wq : Queue ThrdPtr numThreads

/-- The semaphores: those of the application and the `join_sem` of every thread. -/
inductive SemId where
  | app (n : Nat)
  | join (t : TaskId)
  deriving DecidableEq

/-- `struct sleep_deadline`. -/
structure SleepDeadline where
  data : ThrdPtr
  ticks : Nat

instance : Inhabited SleepDeadline := ⟨⟨none, 0⟩⟩

/-- The interrupt state of the kernel. -/
structure Irq where
  /-- `crit_sec_nest_counter`. -/
  nest : Nat
  /-- The `GIE` bit of the status register. -/
  gie : Bool
  /-- `WDTIFG`: a tick is requested. -/
  wdtifg : Bool
  deriving DecidableEq

/-- The variables of the round robin scheduler. -/
structure RunQueue where
  /-- The elements of `run_queue`. -/
  links : Links Node
  /-- `it.current`. -/
  current : Option Node
  taskActiveCnt : Nat

/-- The variables of the kernel, with the semaphores and mutexes of the application. -/
structure Kernel where
  irq : Irq
  sleepQueue : PQueue SleepDeadline numThreads
  tWaitqueue : PQueue SleepDeadline numThreads
  osTickCnt : Nat
  taskMem : Pool
  runQueue : RunQueue
  runPtr : ThrdPtr
  thrds : TaskId → Thrd
  sems : SemId → Sem
  mtxs : Nat → Mtx
  /-- The kernel has followed a `NULL` or undefined pointer: what it does next is undefined. -/
  fault : Bool

namespace Kernel

/-- Replace the control block of a thread. -/
def setThrd (k : Kernel) (t : TaskId) (f : Thrd → Thrd) : Kernel :=
  { k with thrds := Function.update k.thrds t (f (k.thrds t)) }

def setSem (k : Kernel) (s : SemId) (sem : Sem) : Kernel :=
  { k with sems := Function.update k.sems s sem }

def setMtx (k : Kernel) (m : Nat) (mtx : Mtx) : Kernel :=
  { k with mtxs := Function.update k.mtxs m mtx }

end Kernel

end MsTos
