-- SUMMARY: The abstract kernel: linked threads, wait queues and deadlines without their representation, and its steps.
import Mathlib.Data.Multiset.AddSub
import MsTos.System

namespace MsTos

/-! ## What threads wait for -/

/-- The semaphores and mutexes of the application. -/
inductive Obj where
  | sem (n : Nat)
  | mtx (m : Nat)
  deriving DecidableEq

namespace Obj

/-- `sem_wait` or `mtx_lock`. -/
def waitCall : Obj → Call
  | .sem n => .semWait n
  | .mtx m => .mtxLock m

/-- `sem_timedwait` or `mtx_timedlock`. -/
def timedCall (timeout : SizeT) : Obj → Call
  | .sem n => .semTimedwait n timeout
  | .mtx m => .mtxTimedlock m timeout

/-- Between the critical sections of `sem_timedwait` or `mtx_timedlock`. -/
def timedPc (timeout : SizeT) (locked : Bool) : Obj → Pc
  | .sem n => .semTimedwait n timeout locked
  | .mtx m => .mtxTimedlock m timeout locked

/-- `sem_post` or `mtx_unlock`. -/
def signalCall : Obj → Call
  | .sem n => .semPost n
  | .mtx m => .mtxUnlock m

end Obj

/-- The object that a thread has blocked on, by where the thread stands. -/
def blocksOn : Pc → Option Obj
  | .ret (.semWait n) _ => some (.sem n)
  | .ret (.mtxLock m) _ => some (.mtx m)
  | _ => none

/-- The object that a thread waits for with a deadline. -/
def timesOn : Pc → Option Obj
  | .semTimedwait n _ false => some (.sem n)
  | .mtxTimedlock m _ false => some (.mtx m)
  | _ => none

/-- The object in whose wait queue a thread may be. -/
def waitsOn (pc : Pc) : Option Obj := (blocksOn pc).or (timesOn pc)

section

variable (o : Obj) (r : Int) (n : SizeT)

@[simp] theorem blocksOn_waitCall : blocksOn (.ret o.waitCall r) = some o := by
  cases o <;> rfl

@[simp] theorem waitsOn_waitCall : waitsOn (.ret o.waitCall r) = some o := by
  cases o <;> rfl

@[simp] theorem blocksOn_timedPc (b : Bool) : blocksOn (o.timedPc n b) = none := by
  cases o <;> rfl

@[simp] theorem timesOn_timedPc : timesOn (o.timedPc n false) = some o := by
  cases o <;> rfl

@[simp] theorem waitsOn_timedPc : waitsOn (o.timedPc n false) = some o := by
  cases o <;> rfl

@[simp] theorem waitsOn_timedPc_locked : waitsOn (o.timedPc n true) = none := by
  cases o <;> rfl

end

/-! ## States -/

/-- The state of the kernel and its threads, as far as scheduling and waiting go. -/
@[ext]
structure View where
  fault : Bool
  run : ThrdPtr
  /-- A tick is requested. -/
  ifg : Bool
  linked : TaskId → Bool
  thrds : TaskId → Thrd
  pc : TaskId → Pc
  val : Nat → Int
  holder : Nat → ThrdPtr
  waiters : Obj → List ThrdPtr
  sleepers : Multiset ThrdPtr
  deadlines : Multiset ThrdPtr

namespace View

variable (v : View) (o : Obj) (t u : TaskId)

/-- The value of a semaphore goes down. -/
def downVal : Nat → Int :=
  match o with
  | .sem n => Function.update v.val n (toInt (v.val n - 1))
  | .mtx _ => v.val

/-- The value of a semaphore goes up. -/
def upVal : Nat → Int :=
  match o with
  | .sem n => Function.update v.val n (toInt (v.val n + 1))
  | .mtx _ => v.val

/-- The holder of a mutex changes. -/
def setHolder (p : ThrdPtr) : Nat → ThrdPtr :=
  match o with
  | .sem _ => v.holder
  | .mtx m => Function.update v.holder m p

/-- A thread that wants the object has to wait. -/
def Busy : Prop :=
  match o with
  | .sem n => toInt (v.val n - 1) < 0
  | .mtx m => v.holder m ≠ none

/-- A thread that gives the object back wakes nobody. -/
def Vacant : Prop :=
  match o with
  | .sem n => 0 < toInt (v.val n + 1)
  | .mtx m => v.waiters (.mtx m) = []

def setThrd (f : Thrd → Thrd) : TaskId → Thrd := Function.update v.thrds t (f (v.thrds t))

/-- The control blocks after `t` has lent its priority to the holder of a mutex. -/
def boosted : TaskId → Thrd :=
  match o with
  | .sem _ => v.thrds
  | .mtx m =>
      match v.holder m with
      | none => v.thrds
      | some h =>
          if (v.thrds t).fixedPrio > (v.thrds h).fixedPrio then
            v.setThrd h fun thrd =>
              { thrd with
                workingPrio :=
                  (thrd.workingPrio + ((v.thrds t).fixedPrio - (v.thrds h).fixedPrio)) % wordSize
                fixedPrio := (v.thrds t).fixedPrio }
          else v.thrds

/-- The control blocks after the holder `t` of a mutex has given up what it was lent. -/
def restored : TaskId → Thrd :=
  match o with
  | .sem _ => v.thrds
  | .mtx _ => v.setThrd t fun thrd => { thrd with fixedPrio := thrd.basePrio }

/-- The control blocks after `t` has woken `u`, which inherits the priority of a mutex's holder. -/
def handed : TaskId → Thrd :=
  Function.update (v.restored o t) u
    (match o with
    | .sem _ => { v.restored o t u with state := .ACTIVE }
    | .mtx _ =>
        { v.restored o t u with
          fixedPrio := (v.thrds t).fixedPrio
          workingPrio := (v.thrds t).fixedPrio
          state := .ACTIVE })

/-- The wait queues after `t` has joined one of them, if there is room. -/
def queued : Obj → List ThrdPtr :=
  Function.update v.waiters o
    (if (v.waiters o).length < numThreads then v.waiters o ++ [some t] else v.waiters o)

/-! ## Operations -/

def setPc (pc : Pc) : View := { v with pc := Function.update v.pc t pc }

/-- `t` gets what it wants at once. -/
def take : View := { v with val := v.downVal o, holder := v.setHolder o (some t) }

/-- `t` joins the wait queue. -/
def enqueue : View :=
  { v with val := v.downVal o, thrds := v.boosted o t, waiters := v.queued o t }

/-- `t` gives back what nobody gets. -/
def free : View :=
  { v with val := v.upVal o, holder := v.setHolder o none, thrds := v.restored o t }

/-- `t` gives back what `u`, the first waiter, gets; `l` are the others. -/
def grant (l : List ThrdPtr) : View :=
  { v with
    val := v.upVal o
    holder := v.setHolder o (some u)
    thrds := v.handed o t u
    waiters := Function.update v.waiters o l
    linked := Function.update v.linked u true }

/-- `t` gives back what should go to a first waiter that does not exist. -/
def crash : View := { v.free o t with fault := true }

/-- `t` is `ACTIVE` again. -/
def awake : View := { v with thrds := v.setThrd t fun thrd => { thrd with state := .ACTIVE } }

/-- `t` is about to leave the run queue for a mutex or a semaphore. -/
def block : View := { v with thrds := v.setThrd t fun thrd => { thrd with state := .BLOCKING } }

/-- `t` is about to leave the run queue for a number of ticks. -/
def sleep : View :=
  { v with thrds := v.setThrd t fun thrd =>
      { thrd with state := .SLEEPING, workingPrio := thrd.fixedPrio } }

/-- A new thread starts in a slot. -/
def start (i : Fin numThreads) (priority : Nat) : View :=
  { v with
    linked := Function.update v.linked (.slot i) true
    thrds := v.setThrd (.slot i) fun thrd =>
      { thrd with
        basePrio := priority
        fixedPrio := priority
        workingPrio := priority
        state := .ACTIVE }
    pc := Function.update v.pc (.slot i) .user }

/-- The queues of sleepers and of deadlines have room for 15 entries. -/
def pushed (ds : Multiset ThrdPtr) : Multiset ThrdPtr :=
  if ds.card + 1 < numThreads then some t ::ₘ ds else ds

/-- `t` gives the object back, to the first waiter if there is one. -/
inductive Signals : View → Prop
  | free (hv : v.Vacant o) : Signals (v.free o t)
  | grant {u : TaskId} {l : List ThrdPtr} (hv : ¬ v.Vacant o) (hw : v.waiters o = some u :: l) :
      Signals (v.grant o t u l)
  | crash (hv : ¬ v.Vacant o) (hw : v.waiters o = []) : Signals (v.crash o t)

/-- `t` leaves the run queue and requests a tick. Through a `NULL` cursor nothing is unlinked, and
the kernel has failed. -/
inductive Leaves : View → Prop
  | unlink : Leaves { v with linked := Function.update v.linked t false, ifg := true }
  | fault : Leaves { v with fault := true, ifg := true }

/-- A tick wakes the sleepers of `woken`, links the threads of `expired`, and selects a thread. -/
structure Ticks (v' : View) (woken expired : Multiset ThrdPtr) : Prop where
  sleepers : v.sleepers = woken + v'.sleepers
  deadlines : v.deadlines = expired + v'.deadlines
  linked : ∀ u, v'.linked u = true ↔ v.linked u = true ∨ some u ∈ woken ∨ some u ∈ expired
  thrds : ∀ u, ∃ w, v'.thrds u = { v.thrds u with
    state := if some u ∈ woken then .ACTIVE else (v.thrds u).state
    workingPrio := w }
  /-- A thread with a slice of one tick starts a new one. -/
  slice : ∀ u, (v.thrds u).workingPrio = 1 → (v.thrds u).fixedPrio = 1 →
    (v'.thrds u).workingPrio = 1
  run : v'.run = none ∨ (∃ u, v'.run = some u ∧ v'.linked u = true) ∨
    v'.run = some .idle ∧ (∀ u, v'.linked u = false) ∨
    v'.run = v.run ∧ (∃ u, v'.linked u = true) ∧ ∀ t, v.run = some t →
      (v'.thrds t).state ≠ .BLOCKING ∧ (v'.thrds t).state ≠ .SLEEPING ∧
        (v.thrds t).workingPrio ≠ 1
  fault : v'.fault = false → v.fault = false ∧ v'.run ≠ none
  ifg : v'.ifg = false
  pc : v'.pc = v.pc
  val : v'.val = v.val
  holder : v'.holder = v.holder
  waiters : v'.waiters = v.waiters

/-! ## Steps -/

/-- The steps of the abstract kernel. -/
inductive Step : Action → Option Event → View → Prop
  -- creation
  | create (r p : SizeT) (i : Fin numThreads) (hr : v.run = none) (hi : v.pc (.slot i) = .none) :
      Step (.create r p) none (v.start i p)
  | createFails (r p : SizeT) (hr : v.run = none) : Step (.create r p) none v
  | thrdCreate {t : TaskId} (r p : SizeT) (i : Fin numThreads) (hr : v.run = some t)
      (hu : v.pc t = .user) (hi : v.pc (.slot i) = .none) :
      Step (.call (.thrdCreate r p)) (some ⟨t, .thrdCreate r p, 0⟩) (v.start i p)
  | launch {p : ThrdPtr} {f : Bool} (hr : v.run = none)
      (hp : p = none ∧ f = true ∨ p = some .idle ∧ (∀ u, v.linked u = false) ∧ f = v.fault ∨
        (∃ u, p = some u ∧ v.linked u = true) ∧ f = v.fault) :
      Step .launch none { v with run := p, fault := f }
  -- calls that change nothing, or only request a tick
  | fails {t : TaskId} {r : Int} (c : Call) (hr : v.run = some t) (hu : v.pc t = .user)
      (hz : r ≠ 0) : Step (.call c) (some ⟨t, c, r⟩) v
  | yields {t : TaskId} (c : Call) (hr : v.run = some t) (hu : v.pc t = .user)
      (hc : c = .thrdYield ∨ ∃ n, c = .thrdSleep n) :
      Step (.call c) none ({ v with ifg := true }.setPc t (.ret c 0))
  -- waiting
  | take {t : TaskId} (o : Obj) (hr : v.run = some t) (hu : v.pc t = .user) (hb : ¬ v.Busy o) :
      Step (.call o.waitCall) (some ⟨t, o.waitCall, 0⟩) (v.take o t)
  | tryTake {t : TaskId} (n : Nat) (hr : v.run = some t) (hu : v.pc t = .user)
      (hb : 0 < v.val n) :
      Step (.call (.semTrywait n)) (some ⟨t, .semTrywait n, 0⟩) (v.take (.sem n) t)
  | trySteal {t : TaskId} (m : Nat) (hr : v.run = some t) (hu : v.pc t = .user)
      (hb : v.Busy (.mtx m)) :
      Step (.call (.mtxTrylock m)) (some ⟨t, .mtxTrylock m, 0⟩) (v.take (.mtx m) t)
  | block {t : TaskId} {v' : View} (o : Obj) (hr : v.run = some t) (hu : v.pc t = .user)
      (hb : v.Busy o) (hl : Leaves ((v.enqueue o t).block t) t v') :
      Step (.call o.waitCall) none (v'.setPc t (.ret o.waitCall 0))
  | timedTake {t : TaskId} (o : Obj) (n : SizeT) (hr : v.run = some t) (hu : v.pc t = .user)
      (hb : ¬ v.Busy o) :
      Step (.call (o.timedCall n)) none ((v.take o t).setPc t (o.timedPc n true))
  | timedZero {t : TaskId} (o : Obj) (n : SizeT) (hn : n = 0) (hr : v.run = some t)
      (hu : v.pc t = .user) (hb : v.Busy o) :
      Step (.call (o.timedCall n)) none
        ({ v.enqueue o t with ifg := true }.setPc t (o.timedPc n false))
  | timedBlock {t : TaskId} {v' : View} (o : Obj) (n : SizeT) (hn : n ≠ 0)
      (hr : v.run = some t) (hu : v.pc t = .user) (hb : v.Busy o)
      (hl : Leaves ({ v.enqueue o t with deadlines := pushed t v.deadlines }.sleep t) t v') :
      Step (.call (o.timedCall n)) none (v'.setPc t (o.timedPc n false))
  -- signalling
  | signal {t : TaskId} {v' : View} (o : Obj) (hr : v.run = some t) (hu : v.pc t = .user)
      (hh : ∀ m, o = .mtx m → v.holder m = some t) (hs : v.Signals o t v') :
      Step (.call o.signalCall) (some ⟨t, o.signalCall, 0⟩) v'
  -- sleeping and the end of a thread
  | sleep {t : TaskId} (n : SizeT) (hn : n ≠ 0) (hr : v.run = some t) (hu : v.pc t = .user) :
      Step (.call (.thrdSleep n)) none
        (({ v with sleepers := pushed t v.sleepers }.sleep t).setPc t (.sleepPause n))
  | exit {t : TaskId} (r : Int) (hr : v.run = some t) (hu : v.pc t = .user) :
      Step (.call (.thrdExit r)) none (v.setPc t .kill)
  -- going on with a call
  | ret {t : TaskId} (c : Call) (r : Int) (hr : v.run = some t) (hi : v.ifg = false)
      (hu : v.pc t = .ret c r) : Step .resume (some ⟨t, c, r⟩) (v.setPc t .user)
  | pause {t : TaskId} {v' : View} (n : SizeT) (hr : v.run = some t) (hi : v.ifg = false)
      (hu : v.pc t = .sleepPause n) (hl : Leaves v t v') :
      Step .resume none (v'.setPc t (.ret (.thrdSleep n) 0))
  | timedLeave {t : TaskId} (o : Obj) (n : SizeT) (b : Bool) (hr : v.run = some t)
      (hi : v.ifg = false) (hu : v.pc t = o.timedPc n b)
      (hs : ∀ s, o = .sem s → b = false → (v.thrds t).state ≠ .SLEEPING)
      (hm : ∀ m, o = .mtx m → b = false → v.holder m = some t) :
      Step .resume (some ⟨t, o.timedCall n, 0⟩) (v.setPc t .user)
  | rollback {t : TaskId} {v' : View} (n : Nat) (timeout : SizeT) (hr : v.run = some t)
      (hi : v.ifg = false) (hu : v.pc t = .semTimedwait n timeout false)
      (hs : (v.thrds t).state = .SLEEPING) (hv : (v.awake t).Signals (.sem n) t v') :
      Step .resume (some ⟨t, .semTimedwait n timeout, -1⟩) (v'.setPc t .user)
  | kill {t : TaskId} {v' : View} (hr : v.run = some t) (hi : v.ifg = false)
      (hu : v.pc t = .kill) (hl : Leaves v t v') : Step .resume none (v'.setPc t .none)
  | tick {v' : View} {woken expired : Multiset ThrdPtr} (sp : Addr) (hr : v.run ≠ none)
      (ht : v.Ticks v' woken expired) : Step (.tick sp) none v'

/-! ## Queues of sleepers and of deadlines -/

section

variable {t : TaskId} {p : ThrdPtr} {ds : Multiset ThrdPtr}

theorem mem_pushed (h : p ∈ pushed t ds) : p = some t ∨ p ∈ ds := by
  unfold pushed at h
  split at h
  · exact Multiset.mem_cons.1 h
  · exact .inr h

theorem mem_pushed_some {u : TaskId} (h : some u ∈ pushed t ds) : u = t ∨ some u ∈ ds := by
  rcases mem_pushed h with hu | hu
  · exact .inl (Option.some.inj hu)
  · exact .inr hu

theorem mem_pushed_of_mem (h : p ∈ ds) : p ∈ pushed t ds := by
  unfold pushed
  split
  · exact Multiset.mem_cons_of_mem h
  · exact h

theorem mem_pushed_self (h : ds.card + 1 < numThreads) : some t ∈ pushed t ds := by
  unfold pushed
  rw [if_pos h]
  exact Multiset.mem_cons_self _ _

theorem nodup_pushed (hn : ds.Nodup) (ht : some t ∉ ds) : (pushed t ds).Nodup := by
  unfold pushed
  split
  · exact Multiset.nodup_cons.2 ⟨ht, hn⟩
  · exact hn

end

end View

end MsTos
