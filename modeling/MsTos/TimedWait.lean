-- SUMMARY: How long `sem_timedwait` and `mtx_timedlock` wait: when no wait times out early, and how one does.
import MsTos.Primitives
import MsTos.SleepTime

namespace MsTos

/-! ## Deadlines -/

/-- The priority of the entry covers what is left of its wait at the time `now`, if its thread is still
waiting: `due` is the time of its deadline. -/
structure Awaited (due : TaskId → Option Nat) (now : Nat) (n : PNode SleepDeadline) : Prop where
  lower : -32768 ≤ n.priority
  upper : n.priority ≤ 32767
  ticks : n.data.ticks < wordSize
  left : ∀ u d, n.data.data = some u → due u = some d → (d : Int) ≤ now + n.priority

/-- Every entry of the queue covers its wait. -/
def AllAwaited (due : TaskId → Option Nat) (now : Nat) (pq : PQueue SleepDeadline numThreads) : Prop :=
  ∀ n ∈ pq.entries, Awaited due now n

variable {due due' : TaskId → Option Nat} {now : Nat} {n : PNode SleepDeadline}
  {pq : PQueue SleepDeadline numThreads}

/-- An amount that is covered may be taken off the priority. -/
theorem Awaited.charge (h : Awaited due now n) {amount : Nat} (ha : amount < wordSize)
    {item : SleepDeadline} (hi : item.data = n.data.data) (ht : item.ticks < wordSize)
    (hw : ∀ u d, n.data.data = some u → due u = some d → (d : Int) + amount ≤ now + n.priority) :
    Awaited due now ⟨toInt (n.priority - amount), item⟩ := by
  have hm := toInt_mem (n.priority - amount)
  have hle := sub_le_toInt h.lower h.upper ha
  refine ⟨hm.1, hm.2, ht, ?_⟩
  intro u d hu hd
  have hcov := hw u d (hi ▸ hu) hd
  show (d : Int) ≤ now + toInt (n.priority - amount)
  omega

/-- The root is covered also with one tick less. -/
def RootCovered (due : TaskId → Option Nat) (now : Nat) (pq : PQueue SleepDeadline numThreads) : Prop :=
  0 < pq.count → ∀ u d, (pq.storage 1).data.data = some u → due u = some d →
    (d : Int) + 1 ≤ now + (pq.storage 1).priority

theorem AllAwaited.countDown (h : AllAwaited due now pq) (hr : RootCovered due now pq) :
    AllAwaited due now pq.countDown := by
  refine PQueue.forall_entries_setRoot h fun hpos => ?_
  have hroot : Awaited due now (pq.storage 1) := PQueue.entries_root h hpos
  have hone : 1 < wordSize := by decide
  exact hroot.charge hone rfl hroot.ticks (hr hpos)

/-- Time goes by, and waits end. -/
theorem AllAwaited.mono {now' : Nat} (h : AllAwaited due now pq) (hle : now ≤ now')
    (hd : ∀ u d, due' u = some d → due u = some d) : AllAwaited due' now' pq := by
  intro n hn
  refine ⟨(h n hn).lower, (h n hn).upper, (h n hn).ticks, ?_⟩
  intro u d hu hdue
  have hl := (h n hn).left u d hu (hd u d hdue)
  omega

theorem AllAwaited.rootCovered (h : AllAwaited due now pq) : RootCovered due (now + 1) pq := by
  intro hpos u d hu hd
  have hroot : Awaited due now (pq.storage 1) := PQueue.entries_root h hpos
  have hl := hroot.left u d hu hd
  omega

/-- A thread that has no entry in the queue begins to wait. -/
theorem AllAwaited.push {ticks : Nat} {u : TaskId} (h : AllAwaited due now pq) (ht : ticks < 32768)
    (hu : some u ∉ pq.handles) :
    AllAwaited (Function.update due u (some (now + ticks))) now
      (pq.push ticks ⟨some u, ticks⟩).2 := by
  have hold : AllAwaited (Function.update due u (some (now + ticks))) now pq := by
    intro n hn
    refine ⟨(h n hn).lower, (h n hn).upper, (h n hn).ticks, ?_⟩
    intro v d hv hd
    have hne : v ≠ u := by
      rintro rfl
      exact hu (Multiset.mem_map.2 ⟨n, hn, hv⟩)
    rw [Function.update_of_ne hne] at hd
    exact (h n hn).left v d hv hd
  have hp : toInt ticks = ticks := toInt_of_mem (by omega) (by omega)
  have hm := toInt_mem ticks
  refine PQueue.forall_entries_push hold ⟨hm.1, hm.2, ?_, ?_⟩
  · simp only [wordSize]
    omega
  · intro v d hv hd
    cases hv
    rw [Function.update_self] at hd
    cases hd
    rw [hp]
    push_cast
    omega

/-! ## The loop over `t_waitqueue` -/

/-- Over the rounds of the loop of `os_update`: whenever a deadline is popped, because it has passed
or because its thread is active, and another one is left, the ticks that are taken off the next one
(those of the popped deadline, and one more if the loop goes on) are covered by its priority. -/
def deadlinesCovered (due : TaskId → Option Nat) (active : ThrdPtr → Bool) (now thresh : Nat) :
    Nat → PQueue SleepDeadline numThreads → Bool
  | 0, _ => true
  | fuel + 1, pq =>
      if pq.count > thresh ∧ ((pq.countDown.storage 1).priority ≤ 0 ∨
          active (pq.countDown.storage 1).data.data) then
        let (deadline, q) := pq.countDown.pop
        let next := if q.count > thresh then 1 else 0
        decide (q.count > 0 → ∀ u, (q.storage 1).data.data = some u → (due u).all fun d =>
          decide ((d : Int) + deadline.ticks + next ≤ now + (q.storage 1).priority)) &&
        deadlinesCovered due active now thresh fuel (q.charge deadline.ticks deadline.ticks)
      else true

theorem chargeNext_awaited {thresh amount : Nat} (h : AllAwaited due now pq) (ha : amount < wordSize)
    (hw : pq.count > 0 → ∀ u d, (pq.storage 1).data.data = some u → due u = some d →
      (d : Int) + amount + (if pq.count > thresh then 1 else 0) ≤ now + (pq.storage 1).priority) :
    AllAwaited due now (pq.charge amount amount) ∧
      ((pq.charge amount amount).count > thresh → RootCovered due now (pq.charge amount amount)) := by
  constructor
  · refine PQueue.forall_entries_setRoot h fun hpos => ?_
    have hroot : Awaited due now (pq.storage 1) := PQueue.entries_root h hpos
    refine hroot.charge ha rfl (Nat.mod_lt _ (by decide)) ?_
    intro u d hu hd
    have hcov := hw hpos u d hu hd
    split at hcov <;> omega
  · intro hc hpos u d hu hd
    have hc : pq.count > thresh := hc
    have hroot : Awaited due now (pq.storage 1) := PQueue.entries_root h hpos
    have hle := sub_le_toInt hroot.lower hroot.upper ha
    have hp : ((pq.charge amount amount).storage 1).priority =
        toInt ((pq.storage 1).priority - amount) := by
      simp [PQueue.charge]
    have hcov := hw hpos u d (by simpa [PQueue.charge] using hu) hd
    rw [if_pos hc] at hcov
    rw [hp]
    omega

/-- The loop keeps the remaining deadlines covered, and pops that of a waiting thread only when it has
passed. -/
theorem expireDeadlines_awaited {thresh fuel : Nat} {k : Kernel} (h : AllAwaited due now k.tWaitqueue)
    (hr : k.tWaitqueue.count > thresh → RootCovered due now k.tWaitqueue)
    (hw : ∀ u d, due u = some d → (k.thrds u).state = .SLEEPING)
    (hg : deadlinesCovered due k.isActive now thresh fuel k.tWaitqueue = true) :
    AllAwaited due now (Kernel.expireDeadlines thresh fuel k).tWaitqueue ∧
      ∀ u d, due u = some d → some u ∈ k.tWaitqueue.handles →
        some u ∈ (Kernel.expireDeadlines thresh fuel k).tWaitqueue.handles ∨ d ≤ now := by
  induction fuel generalizing k with
  | zero => exact ⟨h, fun _ _ _ hu => .inl hu⟩
  | succ fuel ih =>
      unfold Kernel.expireDeadlines
      dsimp only
      split
      · rename_i hc
        have hpos : 0 < k.tWaitqueue.countDown.count := Nat.zero_lt_of_lt hc
        have h₁ := h.countDown (hr hc)
        split
        · rename_i hp
          rw [deadlinesCovered, if_pos ⟨hc, hp⟩, Bool.and_eq_true, decide_eq_true_eq] at hg
          have hq : AllAwaited due now k.tWaitqueue.countDown.pop.2 := PQueue.forall_entries_pop h₁ hpos
          have hroot : Awaited due now (k.tWaitqueue.countDown.storage 1) :=
            PQueue.entries_root h₁ hpos
          have hticks := hroot.ticks
          -- the root is that of a waiting thread only if its deadline has passed
          have hdue : ∀ u d, (k.tWaitqueue.countDown.storage 1).data.data = some u →
              due u = some d → d ≤ now := by
            intro u d hu hd
            have hl := hroot.left u d hu hd
            rcases hp with hp | hp
            · omega
            · rw [hu] at hp
              have hs := hw u d hd
              simp [Kernel.isActive, hs] at hp
          rw [← PQueue.pop_item] at hticks hdue
          rcases hpop : k.tWaitqueue.countDown.pop with ⟨⟨data, ticks⟩, q⟩
          rw [hpop] at hg hq hticks hdue
          have hcov : q.count > 0 → ∀ u d, (q.storage 1).data.data = some u → due u = some d →
              (d : Int) + ticks + (if q.count > thresh then 1 else 0) ≤
                now + (q.storage 1).priority := by
            intro hq0 u d hu hd
            have hall := hg.1 hq0 u hu
            rw [hd] at hall
            simpa using hall
          have hcharge := chargeNext_awaited hq hticks hcov
          have hstep : ∀ k' : Kernel, k'.tWaitqueue = q.charge ticks ticks → k'.thrds = k.thrds →
              AllAwaited due now (Kernel.expireDeadlines thresh fuel k').tWaitqueue ∧
                ∀ u d, due u = some d → some u ∈ k.tWaitqueue.handles →
                  some u ∈ (Kernel.expireDeadlines thresh fuel k').tWaitqueue.handles ∨ d ≤ now := by
            intro k' hk ht
            have ha : k'.isActive = k.isActive := by
              funext p
              cases p with
              | none => rfl
              | some u => simp only [Kernel.isActive, ht]
            have hih := ih (k := k') (hk ▸ hcharge.1) (hk ▸ hcharge.2) (ht ▸ hw)
              (by rw [ha, hk]; exact hg.2)
            refine ⟨hih.1, ?_⟩
            intro u d hd hu
            rw [← PQueue.handles_countDown, PQueue.handles_pop_charge hpop hpos] at hu
            rcases Multiset.mem_cons.1 hu with hu | hu
            · exact .inr (hdue u d hu.symm hd)
            · exact hih.2 u d hd (hk ▸ hu)
          cases data with
          | none => exact hstep _ rfl rfl
          | some u => exact hstep _ rfl rfl
        · refine ⟨h₁, ?_⟩
          intro u d hd hu
          left
          rw [PQueue.handles_countDown]
          exact hu
      · exact ⟨h, fun _ _ _ hu => .inl hu⟩

/-! ## What changes `t_waitqueue` -/

namespace Kernel

variable {Q : TaskId → Prop} {S : SemId → Prop} {k k' : Kernel} {t : TaskId}

/-- Effects that arm no deadline. -/
theorem Prims.tWaitqueue_eq (h : Prims Q S False k k') : k'.tWaitqueue = k.tWaitqueue := by
  refine h.keeps (P := fun k' => k'.tWaitqueue = k.tWaitqueue) ?_ rfl
  intro k₁ k₂ hk hp
  cases hp with
  | arm _ _ _ ha => exact ha.elim
  | tWaitqueue _ _ ha => exact ha.elim
  | _ => exact hk

theorem osTaskTimedwait_tWaitqueue (n : Nat) : (k.osTaskTimedwait (some t) n).tWaitqueue =
    if n = 0 then k.tWaitqueue else (k.tWaitqueue.push n ⟨some t, n⟩).2 := by
  unfold osTaskTimedwait
  split <;> rfl

/-- What `os_update` has done when it comes to its second loop. -/
def sleepersWoken (k : Kernel) : Kernel :=
  wakeSleepers (k.sleepQueue.count / 2) k.sleepQueue.count
    { k with osTickCnt := (k.osTickCnt + 1) % wordSize }

theorem sleepersWoken_tWaitqueue : k.sleepersWoken.tWaitqueue = k.tWaitqueue := by
  refine wakeSleepers_invariant (P := fun k' => k'.tWaitqueue = k.tWaitqueue) (fun _ _ _ h => h) ?_
    (k := { k with osTickCnt := (k.osTickCnt + 1) % wordSize }) rfl _ _
  intro k' d q _ h
  cases d <;> exact h

/-- The first loop leaves the threads alone that have no entry in `sleep_queue`. -/
theorem sleepersWoken_state {u : TaskId} (hu : some u ∉ k.sleepQueue.handles) :
    (k.sleepersWoken.thrds u).state = (k.thrds u).state := by
  have hw := wakeSleepers_invariant
    (P := fun k' => some u ∉ k'.sleepQueue.handles ∧ (k'.thrds u).state = (k.thrds u).state)
    (fun k' q hq h => ⟨hq ▸ h.1, h.2⟩) ?_
    (k := { k with osTickCnt := (k.osTickCnt + 1) % wordSize }) ⟨hu, rfl⟩ (k.sleepQueue.count / 2)
    k.sleepQueue.count
  · exact hw.2
  · intro k' d q hq h
    have hd : d ≠ some u := by
      rintro rfl
      exact h.1 (hq ▸ Multiset.mem_cons_self _ _)
    refine ⟨fun hm => h.1 (hq ▸ Multiset.mem_cons_of_mem hm), ?_⟩
    rw [← h.2]
    cases d with
    | none => rfl
    | some v =>
        have hne : u ≠ v := fun he => hd (congrArg some he.symm)
        show (Function.update k'.thrds v _ u).state = _
        rw [Function.update_of_ne hne]

theorem osUpdate_tWaitqueue : k.osUpdate.tWaitqueue =
    (expireDeadlines (k.tWaitqueue.count / 2) k.tWaitqueue.count k.sleepersWoken).tWaitqueue := by
  have h : k.osUpdate = expireDeadlines (k.sleepersWoken.tWaitqueue.count / 2)
    k.sleepersWoken.tWaitqueue.count k.sleepersWoken := rfl
  rw [h, sleepersWoken_tWaitqueue]

end Kernel

/-- How long the call waits: 0 if it does not wait with a deadline. -/
def Call.timeout (k : Kernel) : Call → Nat
  | .semTimedwait sem timeout => if k.SemBlocks (.app sem) then timeout else 0
  | .mtxTimedlock mtx timeout => if k.MtxHeld mtx then timeout else 0
  | _ => 0

namespace Sys

open Kernel

variable {s s' : Sys} {a : Action} {e : Option Event} {t : TaskId}

/-- A call that waits with a deadline pushes its caller to `t_waitqueue`. -/
theorem stepCall_tWaitqueue (c : Call) (hr : s.k.runPtr = some t) :
    (s.stepCall t c).2.k.tWaitqueue =
      if c.timeout s.k = 0 then s.k.tWaitqueue
      else (s.k.tWaitqueue.push (c.timeout s.k) ⟨some t, c.timeout s.k⟩).2 := by
  cases c with
  | thrdCreate r p => simp [stepCall, Call.timeout]
  | thrdExit r =>
      have hp : Prims (fun _ => True) (fun _ => True) False s.k (s.k.osTaskExit r) :=
        Prims.refl.osTaskExit (fun _ => trivial) hr trivial r
      exact hp.tWaitqueue_eq
  | mtxTrylock m =>
      have he : (s.k.mtxTrylock m).2.tWaitqueue = s.k.tWaitqueue := by
        unfold Kernel.mtxTrylock
        dsimp only
        split <;> rfl
      simp [stepCall, Call.timeout, he]
  | semTimedwait n timeout =>
      have hv : ((s.k.startCritical.semDown (.app n)).sems (.app n)).val =
          toInt ((s.k.sems (.app n)).val - 1) := Kernel.semDown_val
      have hc : (s.k.startCritical.semDown (.app n)).osTaskCurrent.1 = some t := hr
      show (s.k.semTimedwaitEnter (.app n) timeout).2.tWaitqueue = _
      unfold Kernel.semTimedwaitEnter
      dsimp only
      rw [hv, hc]
      rcases Classical.em (toInt ((s.k.sems (.app n)).val - 1) < 0) with hb | hb
      · have ht : Call.timeout s.k (.semTimedwait n timeout) = timeout := if_pos hb
        rw [if_pos hb, ht]
        exact osTaskTimedwait_tWaitqueue _
      · have ht : Call.timeout s.k (.semTimedwait n timeout) = 0 := if_neg hb
        rw [if_neg hb, ht]
        rfl
  | mtxTimedlock m timeout =>
      have hc : s.k.startCritical.osTaskCurrent.1 = some t := hr
      have hm : s.k.startCritical.osTaskCurrent.2.mtxs = s.k.mtxs := rfl
      show (s.k.mtxTimedlockEnter m timeout).2.tWaitqueue = _
      unfold Kernel.mtxTimedlockEnter
      cases hh : (s.k.mtxs m).holder with
      | none =>
          have ht : Call.timeout s.k (.mtxTimedlock m timeout) = 0 := if_neg (by simp [MtxHeld, hh])
          simp only [hc, hm, hh, ht]
          rfl
      | some u =>
          have ht : Call.timeout s.k (.mtxTimedlock m timeout) = timeout :=
            if_pos (by simp [MtxHeld, hh])
          have hb : (s.k.startCritical.osTaskCurrent.2.mtxBoost u t).tWaitqueue = s.k.tWaitqueue := by
            unfold Kernel.mtxBoost
            dsimp only
            split <;> rfl
          simp only [hc, hm, hh, ht]
          refine (osTaskTimedwait_tWaitqueue _).trans ?_
          show (if timeout.val = 0 then (s.k.startCritical.osTaskCurrent.2.mtxBoost u t).tWaitqueue
            else ((s.k.startCritical.osTaskCurrent.2.mtxBoost u t).tWaitqueue.push _ _).2) = _
          rw [hb]
  | thrdYield | thrdSleep | thrdJoin | semWait | semTrywait | semPost | mtxLock | mtxUnlock =>
      refine Eq.trans (Prims.tWaitqueue_eq (Q := fun _ => True) (S := fun _ => True)
        (stepCall_prims _ hr trivial (wakesIn_true _) (fun _ _ => trivial) ?_ ?_ ?_ ?_)) rfl
      · simp [Call.timed]
      · simp
      · simp
      · simp

/-- Nothing but these calls and ticks changes `t_waitqueue`. -/
theorem step_tWaitqueue (hs : s.step a = some (e, s')) (hc : ∀ c, a ≠ .call c)
    (ht : ∀ sp, a ≠ .tick sp) : s'.k.tWaitqueue = s.k.tWaitqueue := by
  cases (steps_of_step hs).2 with
  | create r p => simp
  | launch => exact (osStart_prims (Q := fun _ => True) (S := fun _ => True)).tWaitqueue_eq
  | call c => exact absurd rfl (hc c)
  | resume hr hp hs =>
      exact (stepResume_prims (Q := fun _ => True) (S := fun _ => True) (wakesIn_true _)
        (fun _ => trivial) hs).tWaitqueue_eq
  | tick sp => exact absurd rfl (ht sp)

end Sys

/-! ## The clock -/

/-- The system with a clock: the number of runs of `os_update`, and for every thread whose wait has
neither been signalled nor rolled back the number of the run that may end it. -/
structure Timed where
  sys : Sys
  now : Nat
  due : TaskId → Option Nat

namespace Timed

open Kernel

/-- A call that waits with a deadline sets that of its caller. -/
def armed (c : Timed) (a : Action) (u : TaskId) : Option Nat :=
  match a with
  | .call call =>
      if c.sys.k.runPtr = some u ∧ call.timeout c.sys.k ≠ 0 then some (c.now + call.timeout c.sys.k)
      else c.due u
  | _ => c.due u

/-- A tick moves the clock. -/
def clock (c : Timed) (a : Action) : Nat :=
  match a with
  | .tick _ => c.now + 1
  | _ => c.now

/-- A step of the system. A thread has been signalled, or has found out that it was not, when it is
no longer `SLEEPING`. -/
def step (c : Timed) (a : Action) : Option (Option Event × Timed) :=
  (c.sys.step a).map fun r => (r.1, {
    sys := r.2
    now := c.clock a
    due := fun u => if (r.2.k.thrds u).state = .SLEEPING then c.armed a u else none })

/-- The running system with a clock that starts at 0. -/
def system (vals : Nat → Nat) : TransitionSystem Timed Action (Option Event) where
  init c := c = ⟨Sys.boot vals, 0, fun _ => none⟩
  step := step

/-- Waits are for less than 2^15 ticks, by threads that have no entry left in `t_waitqueue`. At a tick
no waiting thread has an entry in `sleep_queue`, and no wait is charged more than its priority
covers. -/
def DeadlineGuard (c : Timed) (a : Action) : Prop :=
  match a with
  | .call call =>
      call.timeout c.sys.k ≠ 0 → call.timeout c.sys.k < 32768 ∧
        ∀ u, c.sys.k.runPtr = some u → some u ∉ c.sys.k.tWaitqueue.handles
  | .tick sp =>
      (∀ u, c.due u ≠ none → some u ∉ c.sys.k.sleepQueue.handles) ∧
        deadlinesCovered c.due (Sys.save c.sys.k sp).sleepersWoken.isActive (c.now + 1)
          (c.sys.k.tWaitqueue.count / 2) c.sys.k.tWaitqueue.count c.sys.k.tWaitqueue = true
  | _ => True

instance (c : Timed) (a : Action) : Decidable (c.DeadlineGuard a) :=
  match a with
  | .call _ => inferInstanceAs (Decidable (_ → _ ∧ ∀ _, _))
  | .tick _ => inferInstanceAs (Decidable ((∀ _, _) ∧ _ = true))
  | .create _ _ | .launch | .resume => isTrue trivial

variable {c c' : Timed} {a : Action} {e : Option Event}

theorem of_step (hs : c.step a = some (e, c')) : c.sys.step a = some (e, c'.sys) ∧
    (∀ u, c'.due u = if (c'.sys.k.thrds u).state = .SLEEPING then c.armed a u else none) ∧
    c'.now = c.clock a := by
  obtain ⟨r, hr, hx⟩ := Option.map_eq_some_iff.1 hs
  cases hx
  exact ⟨hr, fun _ => rfl, rfl⟩

/-- The invariant: the deadlines of the waiting threads are covered, and these threads are marked as
`SLEEPING`. -/
structure DeadlinesOk (c : Timed) : Prop where
  awaited : AllAwaited c.due c.now c.sys.k.tWaitqueue
  waiting : ∀ u d, c.due u = some d → (c.sys.k.thrds u).state = .SLEEPING

/-- A tick that meets the guard keeps the deadlines covered, and takes only entries of waiting threads
out of `t_waitqueue` whose deadlines have passed. -/
theorem DeadlinesOk.tick {sp : Addr} (h : c.DeadlinesOk) (hg : c.DeadlineGuard (.tick sp))
    (hs : c.step (.tick sp) = some (e, c')) :
    AllAwaited c'.due c'.now c'.sys.k.tWaitqueue ∧
      ∀ u d, c.due u = some d → some u ∈ c.sys.k.tWaitqueue.handles →
        some u ∉ c'.sys.k.tWaitqueue.handles → d ≤ c'.now := by
  obtain ⟨hsys, hdue, hnow⟩ := of_step hs
  have hq : c'.sys.k.tWaitqueue = (Sys.save c.sys.k sp).osUpdate.tWaitqueue := by
    rw [(Sys.tick_of_step hsys).1]
    exact Kernel.osSchedule_tWaitqueue _
  have hk : (Sys.save c.sys.k sp).sleepersWoken.tWaitqueue = c.sys.k.tWaitqueue :=
    sleepersWoken_tWaitqueue
  have hstate : ∀ u d, c.due u = some d →
      ((Sys.save c.sys.k sp).sleepersWoken.thrds u).state = .SLEEPING := by
    intro u d hd
    refine (sleepersWoken_state ?_).trans (h.waiting u d hd)
    exact hg.1 u (by simp [hd])
  have hloop := expireDeadlines_awaited (k := (Sys.save c.sys.k sp).sleepersWoken)
    (hk ▸ h.awaited.mono c.now.le_succ fun _ _ hd => hd) (fun _ => hk ▸ h.awaited.rootCovered)
    hstate (by rw [hk]; exact hg.2)
  rw [hk] at hloop
  have hsave : (Sys.save c.sys.k sp).tWaitqueue = c.sys.k.tWaitqueue := rfl
  rw [hq, osUpdate_tWaitqueue, hsave]
  refine ⟨?_, ?_⟩
  · refine hloop.1.mono hnow.ge ?_
    intro u d hd
    rw [hdue] at hd
    split at hd
    · exact hd
    · cases hd
  · intro u d hd hu hu'
    rw [hnow]
    exact (hloop.2 u d hd hu).resolve_left hu'

theorem DeadlinesOk.call {call : Call} (h : c.DeadlinesOk) (hg : c.DeadlineGuard (.call call))
    (hs : c.step (.call call) = some (e, c')) : AllAwaited c'.due c'.now c'.sys.k.tWaitqueue := by
  obtain ⟨hsys, hdue, hnow⟩ := of_step hs
  rw [hnow]
  change AllAwaited c'.due c.now c'.sys.k.tWaitqueue
  generalize ha : Action.call call = a at hsys hdue
  generalize c'.sys = s' at hsys hdue ⊢
  cases (Sys.steps_of_step hsys).2 with
  | @call u c₀ hr hpc hp =>
      cases ha
      rw [Sys.stepCall_tWaitqueue call hr]
      split
      · rename_i h0
        refine h.awaited.mono (Nat.le_refl _) ?_
        intro v d hd
        rw [hdue] at hd
        split at hd
        · simpa [armed, h0] using hd
        · cases hd
      · rename_i h0
        have hpush := h.awaited.push (hg h0).1 ((hg h0).2 u hr)
        refine hpush.mono (Nat.le_refl _) ?_
        intro v d hd
        rw [hdue] at hd
        split at hd
        · rw [Function.update_apply]
          split
          · rename_i he
            subst he
            simpa [armed, h0, hr] using hd
          · rename_i he
            have hne : ¬ (c.sys.k.runPtr = some v ∧ call.timeout c.sys.k ≠ 0) := by
              rintro ⟨hv, -⟩
              exact he (Option.some.inj (hv.symm.trans hr))
            simpa only [armed, if_neg hne] using hd
        · cases hd
  | _ => cases ha

theorem DeadlinesOk.step (h : c.DeadlinesOk) (hg : c.DeadlineGuard a)
    (hs : c.step a = some (e, c')) : c'.DeadlinesOk := by
  obtain ⟨hsys, hdue, hnow⟩ := of_step hs
  refine ⟨?_, ?_⟩
  · rcases Classical.em (∃ sp, a = .tick sp) with ⟨sp, rfl⟩ | ht
    · exact (h.tick hg hs).1
    · rcases Classical.em (∃ call, a = .call call) with ⟨call, rfl⟩ | hc
      · exact h.call hg hs
      · rw [Sys.step_tWaitqueue hsys (fun call he => hc ⟨call, he⟩) fun sp he => ht ⟨sp, he⟩]
        have hsame : c'.now = c.now ∧ ∀ u, c.armed a u = c.due u := by
          cases a with
          | tick sp => exact absurd ⟨sp, rfl⟩ ht
          | call call => exact absurd ⟨call, rfl⟩ hc
          | create | launch | resume => exact ⟨hnow, fun _ => rfl⟩
        refine h.awaited.mono hsame.1.ge ?_
        intro u d hd
        rw [hdue, hsame.2] at hd
        split at hd
        · exact hd
        · cases hd
  · intro u d hd
    rw [hdue] at hd
    split at hd
    · assumption
    · cases hd

theorem run_deadlinesOk {vals : Nat → Nat} {h : List (Option Event)}
    (hr : (system vals).Run DeadlineGuard h c) : c.DeadlinesOk := by
  refine hr.invariant (P := fun _ c => c.DeadlinesOk) ?_ ?_
  · rintro c rfl
    refine ⟨?_, ?_⟩
    · intro n hn
      cases (Multiset.notMem_zero n hn)
    · rintro u d ⟨⟩
  · intro h c a e c' hi hg hs
    exact hi.step hg hs

/-- A tick takes the entry of a thread that waits and has not been signalled out of `t_waitqueue`, and
links the thread, only if at least the time for which it called `sem_timedwait` or `mtx_timedlock`
has passed. -/
theorem not_timed_out_early {vals : Nat → Nat} {h : List (Option Event)} {sp : Addr} {u : TaskId}
    {d : Nat} (hr : (system vals).Run DeadlineGuard h c) (hg : c.DeadlineGuard (.tick sp))
    (hs : c.step (.tick sp) = some (e, c')) (hd : c.due u = some d)
    (hu : some u ∈ c.sys.k.tWaitqueue.handles) (hu' : some u ∉ c'.sys.k.tWaitqueue.handles) :
    d ≤ c'.now :=
  ((run_deadlinesOk hr).tick hg hs).2 u d hd hu hu'

/-- Performing a list of actions, and then a tick, shows that a tick ends a wait. -/
theorem exists_timeout {G : Timed → Action → Prop} [∀ c a, Decidable (G c a)] (as : List Action)
    (u : TaskId) (d : Nat) {P : Timed → Prop} [∀ c, Decidable (P c)]
    (he : ((system fun _ => 0).exec G ⟨Sys.boot fun _ => 0, 0, fun _ => none⟩ [] as).any (fun r =>
      decide (G r.2 (.tick 0) ∧ r.2.due u = some d ∧ some u ∈ r.2.sys.k.tWaitqueue.handles) &&
        (r.2.step (.tick 0)).any fun r' =>
          decide (some u ∉ r'.2.sys.k.tWaitqueue.handles ∧ P r'.2)) = true) :
    ∃ h c e c', (system fun _ => 0).Run G h c ∧ G c (.tick 0) ∧ c.step (.tick 0) = some (e, c') ∧
      c.due u = some d ∧ some u ∈ c.sys.k.tWaitqueue.handles ∧
      some u ∉ c'.sys.k.tWaitqueue.handles ∧ P c' := by
  rcases TransitionSystem.exists_step_of_exec (M := system fun _ => 0) rfl as (.tick 0)
    (P := fun _ c => G c (.tick 0) ∧ c.due u = some d ∧ some u ∈ c.sys.k.tWaitqueue.handles)
    (Q := fun _ c' => some u ∉ c'.sys.k.tWaitqueue.handles ∧ P c') he
    with ⟨h, c, e, c', hr, ⟨hg, hd, hu⟩, hs, hc'⟩
  exact ⟨h, c, e, c', hr, hg, hs, hd, hu, hc'⟩

/-- A thread that waits for ten ticks is charged for another one, whose wait of three ticks ends
first, and is linked again after its own ten. -/
theorem not_timed_out_early_two_threads :
    ∃ h c e c', (system fun _ => 0).Run DeadlineGuard h c ∧ c.step (.tick 0) = some (e, c') ∧
      c.due (.slot 15) = some 10 ∧ some (.slot 15) ∈ c.sys.k.tWaitqueue.handles ∧
      some (.slot 15) ∉ c'.sys.k.tWaitqueue.handles ∧ 10 ≤ c'.now := by
  rcases exists_timeout (G := DeadlineGuard)
    ([.create 1 1, .create 1 1, .launch, .call (.semTimedwait 0 10)] ++ List.replicate 5 (.tick 0) ++
      [.call (.semTimedwait 1 3), .tick 0, .tick 0, .tick 0, .resume, .tick 0])
    (.slot 15) 10 (P := fun _ => True)
    (by decide +kernel) with ⟨h, c, e, c', hr, hg, hs, hd, hu, hu', -⟩
  exact ⟨h, c, e, c', hr, hs, hd, hu, hu', not_timed_out_early hr hg hs hd hu hu'⟩

/-- Two threads wait for ten ticks each, and the first one is signalled at once. The next tick pops its
entry and charges the second thread the full ten ticks, so that its wait ends at tick 4. -/
theorem timed_out_early :
    ∃ h c e c', (system fun _ => 0).Run (fun _ _ => True) h c ∧ c.step (.tick 0) = some (e, c') ∧
      c.due (.slot 14) = some 11 ∧ some (.slot 14) ∈ c.sys.k.tWaitqueue.handles ∧
      some (.slot 14) ∉ c'.sys.k.tWaitqueue.handles ∧ c'.now = 4 ∧
      c'.sys.k.runQueue.linked (.slot 14) = true := by
  rcases exists_timeout (G := fun _ _ => True)
    [.create 1 1, .create 1 1, .create 1 1, .launch, .call (.semTimedwait 0 10), .tick 0,
      .call (.semTimedwait 1 10), .tick 0, .call (.semPost 0), .tick 0] (.slot 14) 11
    (P := fun c => c.now = 4 ∧ c.sys.k.runQueue.linked (.slot 14) = true) (by decide +kernel)
    with ⟨h, c, e, c', hr, -, hs⟩
  exact ⟨h, c, e, c', hr, hs⟩

end Timed

end MsTos
