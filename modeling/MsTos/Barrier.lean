-- SUMMARY: Barriers (`barrier.c`): the two phases of `barrier_wait`, and the participants that run it again and again.
import MsTos.Lib.Transition
import MsTos.SemaphoreQueue

namespace MsTos

/-! ## Code -/

/-- `barrier_t`. -/
structure Barrier where
  count : Nat
  val : Nat
  mutex : Sem
  turnstile1 : Sem
  turnstile2 : Sem

/-- `barrier_init` of a non-`NULL` barrier. -/
def barrierInit (barrier : Barrier) (value : Nat) : Int × Barrier :=
  if value > numThreads then (-1, barrier)
  else
    (0, {
      count := 0
      val := value
      mutex := Sem.init 1
      turnstile1 := Sem.init 0
      turnstile2 := Sem.init 0 })

/-- `phase1_barrier` and `phase2_barrier`. -/
inductive Phase where
  | phase1
  | phase2
  deriving DecidableEq

/-- Where a thread stands in `barrier_wait`. The points of a phase are listed in the order in which
the thread comes to them. -/
inductive BarrierPc where
  /-- Not in `barrier_wait`. -/
  | outside
  /-- Before `sem_wait(&barrier->mutex)`. -/
  | lock (p : Phase)
  /-- Blocked in it. -/
  | locking (p : Phase)
  /-- Before the condition of the `if`. -/
  | count (p : Phase)
  /-- In the loop of the `if`, after `i` rounds. -/
  | release (p : Phase) (i : Nat)
  /-- Before `sem_post(&barrier->mutex)`. -/
  | unlock (p : Phase)
  /-- Before `sem_wait` on the turnstile of the phase. -/
  | pass (p : Phase)
  /-- Blocked in it. -/
  | passing (p : Phase)
  /-- About to return. -/
  | ret
  deriving DecidableEq

/-- Where a thread goes on after the `sem_wait` that blocks it. -/
def BarrierPc.resume : BarrierPc → BarrierPc
  | .locking p => .count p
  | .passing .phase1 => .lock .phase2
  | .passing .phase2 => .ret
  | pc => pc

/-- The thread is blocked on one of the semaphores of the barrier. -/
def BarrierPc.blocked : BarrierPc → Bool
  | .locking _ | .passing _ => true
  | _ => false

namespace Barrier

variable (barrier : Barrier)

/-- The condition of the `if`: `++barrier->count == barrier->val` in `phase1_barrier`, and
`--barrier->count == 0` in `phase2_barrier`. -/
def last : Phase → Bool × Barrier
  | .phase1 =>
      let barrier := { barrier with count := (barrier.count + 1) % wordSize }
      (barrier.count = barrier.val, barrier)
  | .phase2 =>
      let barrier := { barrier with count := (barrier.count + (wordSize - 1)) % wordSize }
      (barrier.count = 0, barrier)

def turnstile : Phase → Sem
  | .phase1 => barrier.turnstile1
  | .phase2 => barrier.turnstile2

def setTurnstile (sem : Sem) : Phase → Barrier
  | .phase1 => { barrier with turnstile1 := sem }
  | .phase2 => { barrier with turnstile2 := sem }

end Barrier

/-! ## The participants -/

/-- A barrier and the threads that use it. -/
structure BarrierSys where
  barrier : Barrier
  pc : TaskId → BarrierPc

/-- A thread calls `barrier_wait`, or returns from it. -/
inductive BarrierEvent where
  | enters (t : TaskId)
  | returns (t : TaskId)
  deriving DecidableEq

namespace BarrierSys

def setPc (s : BarrierSys) (t : TaskId) (pc : BarrierPc) : BarrierSys :=
  { s with pc := Function.update s.pc t pc }

/-- The thread that a `sem_post` wakes up goes on. -/
def wake (s : BarrierSys) : ThrdPtr → BarrierSys
  | none => s
  | some u => s.setPc u (s.pc u).resume

/-- `sem_wait(&barrier->mutex)`. -/
def waitMutex (s : BarrierSys) (t : TaskId) (p : Phase) : BarrierSys :=
  let (blocks, sem) := s.barrier.mutex.wait t
  { s with barrier := { s.barrier with mutex := sem } }.setPc t
    (if blocks then .locking p else (BarrierPc.locking p).resume)

/-- `sem_post(&barrier->mutex)`. -/
def postMutex (s : BarrierSys) : BarrierSys :=
  let (wakeup, sem) := s.barrier.mutex.post
  { s with barrier := { s.barrier with mutex := sem } }.wake wakeup

/-- `sem_wait` on the turnstile of the phase. -/
def waitTurnstile (s : BarrierSys) (t : TaskId) (p : Phase) : BarrierSys :=
  let (blocks, sem) := (s.barrier.turnstile p).wait t
  { s with barrier := s.barrier.setTurnstile sem p }.setPc t
    (if blocks then .passing p else (BarrierPc.passing p).resume)

/-- `sem_post` on the turnstile of the phase. -/
def postTurnstile (s : BarrierSys) (p : Phase) : BarrierSys :=
  let (wakeup, sem) := (s.barrier.turnstile p).post
  { s with barrier := s.barrier.setTurnstile sem p }.wake wakeup

/-- The next step of the thread `t`, if it is not blocked. -/
def stepThread (s : BarrierSys) (t : TaskId) : Option (Option BarrierEvent × BarrierSys) :=
  match s.pc t with
  | .outside => some (some (.enters t), s.setPc t (.lock .phase1))
  | .lock p => some (none, s.waitMutex t p)
  | .count p =>
      let (last, barrier) := s.barrier.last p
      some (none, { s with barrier }.setPc t (if last then .release p 0 else .unlock p))
  | .release p i =>
      if i < s.barrier.val then some (none, (s.setPc t (.release p (i + 1))).postTurnstile p)
      else some (none, s.setPc t (.unlock p))
  | .unlock p => some (none, (s.setPc t (.pass p)).postMutex)
  | .pass p => some (none, s.waitTurnstile t p)
  | .locking _ | .passing _ => none
  | .ret => some (some (.returns t), s.setPc t .outside)

end BarrierSys

/-- The threads of `parts` use a barrier that has been initialised to `value`. -/
def barrierSystem (parts : Finset TaskId) (value : Nat) :
    TransitionSystem BarrierSys TaskId (Option BarrierEvent) where
  init s := (∃ barrier, barrierInit barrier value = (0, s.barrier)) ∧ ∀ t, s.pc t = .outside
  step s t := if t ∈ parts then s.stepThread t else none

end MsTos
