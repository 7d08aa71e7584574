-- SUMMARY: The threads and the tick interleaved on the kernel: the states and steps of the running system.
import MsTos.Lib.Transition
import MsTos.Mutex
import MsTos.Thread

namespace MsTos

/-! ## Threads -/

/-- A `size_t` argument. -/
abbrev SizeT := Fin wordSize

/-- The calls into the kernel that a thread makes; `thrdExit` is the return from its routine. -/
inductive Call where
  | thrdCreate (routine priority : SizeT)
  | thrdYield
  | thrdSleep (ticks : SizeT)
  | thrdExit (retCode : Int)
  | thrdJoin (other : TaskId)
  | semWait (sem : Nat)
  | semTimedwait (sem : Nat) (timeout : SizeT)
  | semTrywait (sem : Nat)
  | semPost (sem : Nat)
  | mtxLock (mtx : Nat)
  | mtxTimedlock (mtx : Nat) (timeout : SizeT)
  | mtxTrylock (mtx : Nat)
  | mtxUnlock (mtx : Nat)
  deriving DecidableEq

/-- Where a thread stands. -/
inductive Pc where
  /-- There is no thread in this slot. -/
  | none
  /-- In its own code. -/
  | user
  /-- About to return `r` from `c`. -/
  | ret (c : Call) (r : Int)
  /-- In `os_task_sleep`, between its two critical sections. -/
  | sleepPause (ticks : SizeT)
  /-- In `sem_timedwait`, between its two critical sections. -/
  | semTimedwait (sem : Nat) (timeout : SizeT) (locked : Bool)
  /-- In `mtx_timedlock`, between its two critical sections. -/
  | mtxTimedlock (mtx : Nat) (timeout : SizeT) (locked : Bool)
  /-- In `os_task_join`, after the wait on `join_sem`. -/
  | join (other : TaskId)
  /-- In `thrd_exit`, between `os_task_exit` and `os_task_kill`. -/
  | kill
  /-- In the endless loop of `os_panic`. -/
  | panic
  deriving DecidableEq

/-- The kernel and its threads. -/
structure Sys where
  k : Kernel
  pc : TaskId → Pc

/-- A call that has returned. -/
structure Event where
  thrd : TaskId
  call : Call
  ret : Int
  deriving DecidableEq

/-- What can happen next. -/
inductive Action where
  /-- `main` calls `thrd_create` before it launches the kernel. -/
  | create (routine priority : SizeT)
  /-- `main` calls `os_launch`. -/
  | launch
  /-- The running thread makes a call. -/
  | call (c : Call)
  /-- The running thread goes on with the call it is in. -/
  | resume
  /-- The tick interrupt, with the stack pointer that `save` stores. -/
  | tick (sp : Addr)
  deriving DecidableEq

namespace Sys

def setPc (s : Sys) (t : TaskId) (pc : Pc) : Sys :=
  { s with pc := Function.update s.pc t pc }

/-- The end of a call: it returns at once, unless a tick comes first. -/
def complete (s : Sys) (t : TaskId) (c : Call) (r : Int) : Option Event × Sys :=
  if s.k.irq.pending then (none, s.setPc t (.ret c r))
  else (some ⟨t, c, r⟩, s.setPc t .user)

/-- A new thread starts in its own code. -/
def spawn (s : Sys) (thrd : ThrdPtr) : Sys :=
  match thrd with
  | none => s
  | some t => s.setPc t .user

/-- The running thread `t` makes a call. -/
def stepCall (s : Sys) (t : TaskId) (c : Call) : Option Event × Sys :=
  match c with
  | .thrdCreate routine priority =>
      let ((r, thrd), k) := s.k.thrdCreate routine priority
      ({ s with k }.spawn thrd).complete t c r
  | .thrdYield => { s with k := s.k.osTaskYield }.complete t c 0
  | .thrdSleep ticks =>
      if ticks.val = 0 then { s with k := s.k.osTaskYield }.complete t c 0
      else (none, { s with k := s.k.osTaskSleepEnter (some t) ticks }.setPc t (.sleepPause ticks))
  | .thrdExit retCode => (none, { s with k := s.k.osTaskExit retCode }.setPc t .kill)
  | .thrdJoin other => (none, { s with k := s.k.semWait (.join other) }.setPc t (.join other))
  | .semWait sem => { s with k := s.k.semWait (.app sem) }.complete t c 0
  | .semTimedwait sem timeout =>
      let (locked, k) := s.k.semTimedwaitEnter (.app sem) timeout
      (none, { s with k }.setPc t (.semTimedwait sem timeout locked))
  | .semTrywait sem =>
      let (r, k) := s.k.semTrywait (.app sem)
      { s with k }.complete t c r
  | .semPost sem => { s with k := s.k.semPost (.app sem) }.complete t c 0
  | .mtxLock mtx => { s with k := s.k.mtxLock mtx }.complete t c 0
  | .mtxTimedlock mtx timeout =>
      let (locked, k) := s.k.mtxTimedlockEnter mtx timeout
      (none, { s with k }.setPc t (.mtxTimedlock mtx timeout locked))
  | .mtxTrylock mtx =>
      let (r, k) := s.k.mtxTrylock mtx
      { s with k }.complete t c r
  | .mtxUnlock mtx =>
      match s.k.mtxUnlock mtx with
      | (none, k) => (none, { s with k }.setPc t .panic)
      | (some r, k) => { s with k }.complete t c r

/-- The running thread `t` goes on with the call it is in. -/
def stepResume (s : Sys) (t : TaskId) : Option (Option Event × Sys) :=
  match s.pc t with
  | .none | .user | .panic => none
  | .ret c r => some (some ⟨t, c, r⟩, s.setPc t .user)
  | .sleepPause ticks =>
      some ({ s with k := s.k.osTaskPause (some t) }.complete t (.thrdSleep ticks) 0)
  | .semTimedwait sem timeout locked =>
      let (r, k) := s.k.semTimedwaitLeave (.app sem) t locked
      some ({ s with k }.complete t (.semTimedwait sem timeout) r)
  | .mtxTimedlock mtx timeout locked =>
      match s.k.mtxTimedlockLeave mtx t locked with
      | (none, k) => some (none, { s with k }.setPc t .panic)
      | (some r, k) => some ({ s with k }.complete t (.mtxTimedlock mtx timeout) r)
  | .join other => some (s.complete t (.thrdJoin other) (s.k.thrds t).mbox)
  | .kill => some (none, { s with k := s.k.osTaskKill }.setPc t .none)

/-- Without a tick between them, the two parts of `thrd_sleep` are `os_task_sleep`. -/
theorem thrdSleep_resume {s : Sys} {t : TaskId} {ticks : SizeT} (h : ticks.val ≠ 0) :
    (s.stepCall t (.thrdSleep ticks)).2.stepResume t =
      some ({ s with k := s.k.osTaskSleep (some t) ticks }.complete t (.thrdSleep ticks) 0) := by
  have hcall : (s.stepCall t (.thrdSleep ticks)).2 =
      { s with k := s.k.osTaskSleepEnter (some t) ticks }.setPc t (.sleepPause ticks) := by
    simp only [stepCall, if_neg h]
  have hsleep : s.k.osTaskSleep (some t) ticks =
      (s.k.osTaskSleepEnter (some t) ticks).osTaskPause (some t) := if_neg h
  rw [hcall, hsleep]
  simp only [stepResume, setPc, Function.update_self, complete, Function.update_idem]

/-- The entry of `os_tick`: the interrupt is taken, and `save` stores the stack pointer. -/
def save (k : Kernel) (sp : Addr) : Kernel :=
  { k with
    irq := { k.irq with gie := false, wdtifg := false }
    taskMem :=
      match k.runPtr with
      | some (.slot i) => k.taskMem.setSp i sp
      | _ => k.taskMem }

/-- `os_tick`: `save`, `os_update`, `os_schedule`, `restore`. Interrupts are enabled in every
context that `restore` can return to. -/
def osTick (k : Kernel) (sp : Addr) : Kernel :=
  let k := (save k sp).osUpdate.osSchedule
  { k with irq := { k.irq with gie := true } }

/-- `os_start`: the first task starts with interrupts enabled. -/
def osStart (k : Kernel) : Kernel :=
  let k := k.osFirstTask
  { k with irq := { k.irq with gie := true } }

def step (s : Sys) (a : Action) : Option (Option Event × Sys) :=
  if s.k.fault then none
  else
    match a, s.k.runPtr with
    | .create routine priority, none =>
        let ((_, thrd), k) := s.k.thrdCreate routine priority
        some (none, { s with k }.spawn thrd)
    | .launch, none => some (none, { s with k := osStart s.k })
    | .call c, some t =>
        if s.pc t = .user ∧ !s.k.irq.pending then some (s.stepCall t c) else none
    | .resume, some t =>
        if !s.k.irq.pending then s.stepResume t else none
    | .tick sp, some _ =>
        if s.k.irq.gie then some (none, { s with k := osTick s.k sp }) else none
    | _, _ => none

/-- The kernel's memory when `main` starts, with the application's semaphores initialised to
`vals` and all its mutexes initialised. -/
def ram (vals : Nat → Nat) : Kernel :=
  { irq := ⟨0, false, false⟩
    sleepQueue := PQueue.init
    tWaitqueue := PQueue.init
    osTickCnt := 0
    taskMem := { freeList := 0, word := fun _ => 0 }
    runQueue := { links := fun _ => ⟨none, none⟩, current := none, taskActiveCnt := 0 }
    runPtr := none
    thrds := fun _ => ⟨0, 0, 0, 0, .ACTIVE⟩
    sems := fun
      | .app n => Sem.init (vals n)
      | .join _ => ⟨0, Queue.init⟩
    mtxs := fun _ => Mtx.init
    fault := false }

/-- The state after `os_init`; the address of `os_idle` is not 0. -/
def boot (vals : Nat → Nat) : Sys :=
  { k := (ram vals).osInit 1, pc := fun _ => .none }

end Sys

/-- The initial values that `sem_init` accepts. -/
def ValidVals (vals : Nat → Nat) : Prop := ∀ n, vals n ≤ numThreads

/-- The running system, from `os_init` on, for semaphores with the initial values `vals`. -/
def system (vals : Nat → Nat) : TransitionSystem Sys Action (Option Event) where
  init s := s = Sys.boot vals
  step := Sys.step

end MsTos
