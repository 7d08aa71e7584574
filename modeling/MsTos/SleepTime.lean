-- SUMMARY: How long `thrd_sleep` lasts: the system with a clock, when no sleeper is woken early, and how one is.
import MsTos.Conditions
import MsTos.Deadlines
import MsTos.Frame

namespace MsTos

/-! ## Sleepers -/

/-- The priority of the entry covers what is left of its sleep at the time `now`. -/
structure InTime (due : TaskId → Nat) (now : Nat) (n : PNode SleepDeadline) : Prop where
  lower : -32768 ≤ n.priority
  upper : n.priority ≤ 32767
  left : ∀ u, n.data.data = some u → (due u : Int) ≤ now + n.priority

/-- Every entry of the queue is in time. -/
def AllInTime (due : TaskId → Nat) (now : Nat) (pq : PQueue SleepDeadline numThreads) : Prop :=
  ∀ n ∈ pq.entries, InTime due now n

variable {due : TaskId → Nat} {now : Nat} {n : PNode SleepDeadline}
  {pq : PQueue SleepDeadline numThreads}

/-- An amount that is covered may be taken off the priority. -/
theorem InTime.charge (h : InTime due now n) {amount : Nat} (ha : amount < wordSize) (ticks : Nat)
    (hw : ∀ u, n.data.data = some u → (due u : Int) + amount ≤ now + n.priority) :
    InTime due now ⟨toInt (n.priority - amount), { n.data with ticks }⟩ := by
  have hm := toInt_mem (n.priority - amount)
  have hle := sub_le_toInt h.lower h.upper ha
  refine ⟨hm.1, hm.2, fun u hu => ?_⟩
  have := hw u hu
  show (due u : Int) ≤ now + toInt (n.priority - amount)
  omega

theorem AllInTime.setRoot (h : AllInTime due now pq) {f : PNode SleepDeadline → PNode SleepDeadline}
    (hf : 0 < pq.count → InTime due now (f (pq.storage 1))) : AllInTime due now (pq.setRoot f) :=
  PQueue.forall_entries_setRoot h hf

theorem AllInTime.root (h : AllInTime due now pq) (hpos : 0 < pq.count) :
    InTime due now (pq.storage 1) := PQueue.entries_root h hpos

theorem AllInTime.pop (h : AllInTime due now pq) (hpos : 0 < pq.count) :
    AllInTime due now pq.pop.2 := PQueue.forall_entries_pop h hpos

/-- The root is covered also with one tick less. -/
def RootTicks (due : TaskId → Nat) (now : Nat) (pq : PQueue SleepDeadline numThreads) : Prop :=
  0 < pq.count → ∀ u, (pq.storage 1).data.data = some u →
    (due u : Int) + 1 ≤ now + (pq.storage 1).priority

theorem AllInTime.countDown (h : AllInTime due now pq) (hr : RootTicks due now pq) :
    AllInTime due now pq.countDown := by
  refine h.setRoot fun hpos => ?_
  have h1 : 1 < wordSize := by decide
  exact (h.root hpos).charge h1 (pq.storage 1).data.ticks (hr hpos)

theorem AllInTime.mono {now' : Nat} (h : AllInTime due now pq) (hle : now ≤ now') :
    AllInTime due now' pq := by
  intro n hn
  refine ⟨(h n hn).lower, (h n hn).upper, fun u hu => ?_⟩
  have := (h n hn).left u hu
  omega

theorem AllInTime.rootTicks (h : AllInTime due now pq) : RootTicks due (now + 1) pq := by
  intro hpos u hu
  have := (h.root hpos).left u hu
  omega

/-- A new sleeper, which is not in the queue yet. -/
theorem AllInTime.push {ticks : Nat} {u : TaskId} (h : AllInTime due now pq) (ht : ticks < 32768)
    (hu : some u ∉ pq.handles) :
    AllInTime (Function.update due u (now + ticks)) now (pq.push ticks ⟨some u, ticks⟩).2 := by
  have hold : AllInTime (Function.update due u (now + ticks)) now pq := by
    intro n hn
    refine ⟨(h n hn).lower, (h n hn).upper, fun v hv => ?_⟩
    have hne : v ≠ u := by
      rintro rfl
      exact hu (Multiset.mem_map.2 ⟨n, hn, hv⟩)
    rw [Function.update_of_ne hne]
    exact (h n hn).left v hv
  have hp : toInt ticks = ticks := toInt_of_mem (by omega) (by omega)
  have hm := toInt_mem ticks
  refine PQueue.forall_entries_push hold ⟨hm.1, hm.2, ?_⟩
  intro v hv
  cases hv
  rw [Function.update_self, hp]
  push_cast
  omega

/-! ## The loop over `sleep_queue` -/

/-- Over the rounds of the loop of `os_update`: whenever a deadline is popped and another one is
left, the ticks that are taken off the next sleeper (the popped deadline's ticks less one, and one
more if the loop goes on) are covered by its priority. -/
def chargesCovered (due : TaskId → Nat) (now thresh : Nat) :
    Nat → PQueue SleepDeadline numThreads → Bool
  | 0, _ => true
  | fuel + 1, pq =>
      if pq.count > thresh ∧ (pq.countDown.storage 1).priority ≤ 0 then
        let (deadline, q) := pq.countDown.pop
        let amount := toSize (deadline.ticks - 1)
        let next := if q.count > thresh then 1 else 0
        decide (q.count > 0 → ∀ u, (q.storage 1).data.data = some u →
          (due u : Int) + amount + next ≤ now + (q.storage 1).priority) &&
        chargesCovered due now thresh fuel (q.charge amount deadline.ticks)
      else true

theorem chargeNext_inTime {thresh amount : Nat} (h : AllInTime due now pq) (ha : amount < wordSize)
    (ticks : Nat)
    (hw : pq.count > 0 → ∀ u, (pq.storage 1).data.data = some u →
      (due u : Int) + amount + (if pq.count > thresh then 1 else 0) ≤
        now + (pq.storage 1).priority) :
    AllInTime due now (pq.charge amount ticks) ∧
      ((pq.charge amount ticks).count > thresh → RootTicks due now (pq.charge amount ticks)) := by
  constructor
  · refine h.setRoot fun hpos => (h.root hpos).charge ha _ fun u hu => ?_
    have := hw hpos u hu
    split at this <;> omega
  · intro hc hpos u hu
    have hc : pq.count > thresh := hc
    have hroot := h.root hpos
    have hle := sub_le_toInt hroot.lower hroot.upper ha
    have hp : ((pq.charge amount ticks).storage 1).priority
        = toInt ((pq.storage 1).priority - amount) := by
      simp [PQueue.charge]
    have hw := hw hpos u (by simpa [PQueue.charge] using hu)
    rw [if_pos hc] at hw
    rw [hp]
    omega

/-- The loop keeps the remaining entries in time, and wakes only threads whose time is over. -/
theorem wakeSleepers_inTime {thresh fuel : Nat} {k : Kernel} (h : AllInTime due now k.sleepQueue)
    (hr : k.sleepQueue.count > thresh → RootTicks due now k.sleepQueue)
    (hg : chargesCovered due now thresh fuel k.sleepQueue = true) :
    AllInTime due now (Kernel.wakeSleepers thresh fuel k).sleepQueue ∧
      ∀ u, some u ∈ k.sleepQueue.handles →
        some u ∈ (Kernel.wakeSleepers thresh fuel k).sleepQueue.handles ∨ due u ≤ now := by
  induction fuel generalizing k with
  | zero => exact ⟨h, fun u hu => .inl hu⟩
  | succ fuel ih =>
      unfold Kernel.wakeSleepers
      dsimp only
      split
      · rename_i hc
        have hpos : 0 < k.sleepQueue.countDown.count := Nat.zero_lt_of_lt hc
        have h₁ := h.countDown (hr hc)
        split
        · rename_i hp
          rw [chargesCovered, if_pos ⟨hc, hp⟩, Bool.and_eq_true, decide_eq_true_eq] at hg
          have hq := h₁.pop hpos
          have hroot := (h₁.root hpos).left
          rw [← PQueue.pop_item] at hroot
          rcases hpop : k.sleepQueue.countDown.pop with ⟨⟨data, ticks⟩, q⟩
          rw [hpop] at hg hq hroot
          have hcharge := chargeNext_inTime hq (toSize_lt (ticks - 1)) ticks hg.1
          have hih := ih (k := { ({ k with sleepQueue := q }.osAddTaskMmang data).2.store data
            (fun t => { t with state := .ACTIVE }) with
              sleepQueue := q.charge (toSize (ticks - 1)) ticks }) hcharge.1 hcharge.2 hg.2
          have hsame : ∀ k', k' = { ({ k with sleepQueue := q }.osAddTaskMmang data).2.store data
              (fun t => { t with state := .ACTIVE }) with
                sleepQueue := q.charge (toSize (ticks - 1)) ticks } →
              AllInTime due now (Kernel.wakeSleepers thresh fuel k').sleepQueue ∧
                ∀ u, some u ∈ k.sleepQueue.handles →
                  some u ∈ (Kernel.wakeSleepers thresh fuel k').sleepQueue.handles ∨
                    due u ≤ now := by
            intro k' hk'
            rw [hk']
            refine ⟨hih.1, fun u hu => ?_⟩
            rw [← PQueue.handles_countDown, PQueue.handles_pop_charge hpop hpos] at hu
            cases Multiset.mem_cons.1 hu with
            | inl hu =>
                right
                have := hroot u hu.symm
                omega
            | inr hu => exact hih.2 u hu
          apply hsame
          cases data <;> rfl
        · refine ⟨h₁, fun u hu => .inl ?_⟩
          rw [PQueue.handles_countDown]
          exact hu
      · exact ⟨h, fun u hu => .inl hu⟩

/-! ## The clock -/

namespace Kernel

variable {k : Kernel}

theorem osUpdate_sleepQueue : k.osUpdate.sleepQueue =
    (wakeSleepers (k.sleepQueue.count / 2) k.sleepQueue.count
      { k with osTickCnt := (k.osTickCnt + 1) % wordSize }).sleepQueue := by
  unfold osUpdate
  apply expireDeadlines_invariant (P := fun k' => k'.sleepQueue = _)
  · intro k q hq h
    exact h
  · intro k d q hq h
    cases d <;> exact h
  · rfl

theorem thrdCreate_queues (routine priority : Nat) :
    ((k.thrdCreate routine priority).2.sleepQueue, (k.thrdCreate routine priority).2.tWaitqueue) =
      (k.sleepQueue, k.tWaitqueue) := by
  obtain ⟨-, _, _, _, _, h⟩ | ⟨_, i, ⟨_, _, _, _, rfl⟩, -, -, -, h⟩ :=
    thrdCreate_allots (k := k) routine priority
  · rw [h]
  · rw [h]
    unfold thrdInit semInit
    split <;> rfl

@[simp] theorem thrdCreate_sleepQueue (routine priority : Nat) :
    (k.thrdCreate routine priority).2.sleepQueue = k.sleepQueue :=
  congrArg Prod.fst (thrdCreate_queues routine priority)

@[simp] theorem thrdCreate_tWaitqueue (routine priority : Nat) :
    (k.thrdCreate routine priority).2.tWaitqueue = k.tWaitqueue :=
  congrArg Prod.snd (thrdCreate_queues routine priority)

@[simp] theorem osTaskKill_sleepQueue : k.osTaskKill.sleepQueue = k.sleepQueue := by
  have hf : ∀ (k : Kernel) p, (k.tfree p).sleepQueue = k.sleepQueue := by
    intro k p
    obtain _ | _ | i := p <;> rfl
  have hd : ∀ (k : Kernel) p, (k.osDelTask p).2.sleepQueue = k.sleepQueue :=
    fun k p => congrArg Base.sleepQueue (k.osDelTask_base p)
  exact (hf _ _).trans (hd _ _)

end Kernel

namespace Sys

variable {s s' : Sys} {a : Action} {e : Option Event}

/-- Apart from a sleep and a tick, no step changes `sleep_queue`. -/
theorem step_sleepQueue (hs : s.step a = some (e, s')) (hc : ∀ n, a ≠ .call (.thrdSleep n))
    (ht : ∀ sp, a ≠ .tick sp) : s'.k.sleepQueue = s.k.sleepQueue := by
  cases (steps_of_step hs).2 with
  | create routine priority hr => simp
  | launch hr =>
      unfold osStart Kernel.osFirstTask
      dsimp only
      split <;> rfl
  | call c hr hpc hp =>
      have hn : ∀ n, c ≠ .thrdSleep n := fun n h => hc n (h ▸ rfl)
      rcases Classical.em (∃ r p, c = .thrdCreate r p) with ⟨r, p, rfl⟩ | hne
      · simp [stepCall]
      · exact congrArg Base.sleepQueue (s.stepCall_base _ c (fun r p h => hne ⟨r, p, h⟩) hn)
  | resume hr hp hs =>
      cases eq_or_ne (s.pc _) .kill with
      | inl hk =>
          rw [stepResume_kill _ hk] at hs
          cases hs
          simp
      | inr hk => exact congrArg Base.sleepQueue (stepResume_base _ hk hs)
  | tick sp hr hg => exact absurd rfl (ht sp)

end Sys

/-- The system with a clock: the number of runs of `os_update`, and for every thread the number
of the run that may end its last sleep. -/
structure Clocked where
  sys : Sys
  now : Nat
  due : TaskId → Nat

namespace Clocked

/-- A call of `thrd_sleep` sets the time of its caller, and a tick moves the clock. -/
def step (c : Clocked) (a : Action) : Option (Option Event × Clocked) :=
  (c.sys.step a).map fun r => (r.1, {
    sys := r.2
    now :=
      match a with
      | .tick _ => c.now + 1
      | _ => c.now
    due :=
      match a, c.sys.k.runPtr with
      | .call (.thrdSleep ticks), some u =>
          if ticks.val = 0 then c.due else Function.update c.due u (c.now + ticks)
      | _, _ => c.due })

/-- The running system with a clock that starts at 0. -/
def system (vals : Nat → Nat) : TransitionSystem Clocked Action (Option Event) where
  init c := c = ⟨Sys.boot vals, 0, fun _ => 0⟩
  step := step

/-- A thread that is not asleep sleeps for less than 2^15 ticks, and a tick charges no sleeper
more than its priority covers. -/
def ChargeGuard (c : Clocked) (a : Action) : Prop :=
  match a with
  | .call (.thrdSleep ticks) =>
      ticks.val < 32768 ∧ ∀ u, c.sys.k.runPtr = some u → some u ∉ c.sys.k.sleepQueue.handles
  | .tick _ =>
      chargesCovered c.due (c.now + 1) (c.sys.k.sleepQueue.count / 2) c.sys.k.sleepQueue.count
        c.sys.k.sleepQueue = true
  | _ => True

variable {c c' : Clocked} {a : Action} {e : Option Event}

theorem sys_of_step (hs : c.step a = some (e, c')) : c.sys.step a = some (e, c'.sys) := by
  obtain ⟨r, hr, hx⟩ := Option.map_eq_some_iff.1 hs
  cases hx
  exact hr

theorem now_of_tick {sp : Addr} (hs : c.step (.tick sp) = some (e, c')) :
    c'.now = c.now + 1 ∧ c'.due = c.due := by
  obtain ⟨r, hr, hx⟩ := Option.map_eq_some_iff.1 hs
  cases hx
  exact ⟨rfl, rfl⟩

theorem call_of_sleep {ticks : SizeT} (hs : c.step (.call (.thrdSleep ticks)) = some (e, c')) :
    ∃ v, c.sys.k.runPtr = some v ∧ c'.now = c.now ∧
      c'.due = (if ticks.val = 0 then c.due else Function.update c.due v (c.now + ticks)) ∧
      c'.sys = (c.sys.stepCall v (.thrdSleep ticks)).2 := by
  obtain ⟨⟨e', s'⟩, hr, hx⟩ := Option.map_eq_some_iff.1 hs
  cases hx
  generalize ha : Action.call (.thrdSleep ticks) = a at hr
  cases (Sys.steps_of_step hr).2 with
  | call c' hrun hpc hp =>
      cases ha
      refine ⟨_, hrun, rfl, ?_, rfl⟩
      rw [hrun]
  | _ => cases ha

theorem same_of_step (hs : c.step a = some (e, c')) (hc : ∀ n, a ≠ .call (.thrdSleep n))
    (ht : ∀ sp, a ≠ .tick sp) : c'.now = c.now ∧ c'.due = c.due := by
  obtain ⟨r, hr, hx⟩ := Option.map_eq_some_iff.1 hs
  cases hx
  refine ⟨?_, ?_⟩
  · cases a <;> simp_all
  · split <;> simp_all

/-- A tick that meets the guard keeps the remaining sleepers in time, and wakes only threads whose
time is over. -/
theorem tick_inTime {sp : Addr} (hi : AllInTime c.due c.now c.sys.k.sleepQueue)
    (hg : c.ChargeGuard (.tick sp)) (hs : c.step (.tick sp) = some (e, c')) :
    AllInTime c'.due c'.now c'.sys.k.sleepQueue ∧
      ∀ u, some u ∈ c.sys.k.sleepQueue.handles → some u ∉ c'.sys.k.sleepQueue.handles →
        c'.due u ≤ c'.now := by
  have hq : c'.sys.k.sleepQueue = (Sys.save c.sys.k sp).osUpdate.sleepQueue := by
    rw [(Sys.tick_of_step (sys_of_step hs)).1]
    exact Kernel.osSchedule_sleepQueue _
  have hw := wakeSleepers_inTime (k := { Sys.save c.sys.k sp with
    osTickCnt := ((Sys.save c.sys.k sp).osTickCnt + 1) % wordSize }) (hi.mono (c.now.le_succ))
    (fun _ => hi.rootTicks) hg
  rw [hq, Kernel.osUpdate_sleepQueue, (now_of_tick hs).1, (now_of_tick hs).2]
  refine ⟨hw.1, fun u hu hu' => ?_⟩
  cases hw.2 u hu with
  | inl hm => exact absurd hm hu'
  | inr hd => exact hd

theorem sleep_inTime {ticks : SizeT} (hi : AllInTime c.due c.now c.sys.k.sleepQueue)
    (hg : c.ChargeGuard (.call (.thrdSleep ticks)))
    (hs : c.step (.call (.thrdSleep ticks)) = some (e, c')) :
    AllInTime c'.due c'.now c'.sys.k.sleepQueue := by
  obtain ⟨v, hrun, hnow, hdue, hsys⟩ := call_of_sleep hs
  rw [hnow, hdue, hsys]
  unfold Sys.stepCall
  dsimp only
  split
  · rw [Sys.complete_k]
    exact hi
  · exact hi.push hg.1 (hg.2 _ hrun)

theorem step_inTime (hi : AllInTime c.due c.now c.sys.k.sleepQueue) (hg : c.ChargeGuard a)
    (hs : c.step a = some (e, c')) : AllInTime c'.due c'.now c'.sys.k.sleepQueue := by
  rcases Classical.em (∃ sp, a = .tick sp) with ⟨sp, rfl⟩ | ht
  · exact (tick_inTime hi hg hs).1
  · rcases Classical.em (∃ n, a = .call (.thrdSleep n)) with ⟨n, rfl⟩ | hn
    · exact sleep_inTime hi hg hs
    · have hn' : ∀ n, a ≠ .call (.thrdSleep n) := fun n h => hn ⟨n, h⟩
      have ht' : ∀ sp, a ≠ .tick sp := fun sp h => ht ⟨sp, h⟩
      rw [(same_of_step hs hn' ht').1, (same_of_step hs hn' ht').2,
        Sys.step_sleepQueue (sys_of_step hs) hn' ht']
      exact hi

theorem run_inTime {vals : Nat → Nat} {h : List (Option Event)}
    (hr : (system vals).Run ChargeGuard h c) : AllInTime c.due c.now c.sys.k.sleepQueue := by
  refine hr.invariant (P := fun _ c => AllInTime c.due c.now c.sys.k.sleepQueue) ?_ ?_
  · rintro c rfl n hn
    cases (Multiset.notMem_zero n hn)
  · intro h c a e c' hi hg hs
    exact step_inTime hi hg hs

/-- A tick takes the entry of a thread out of `sleep_queue`, and links the thread, only if at
least the time for which the thread called `thrd_sleep` has passed. -/
theorem not_woken_early {vals : Nat → Nat} {h : List (Option Event)} {sp : Addr} {u : TaskId}
    (hr : (system vals).Run ChargeGuard h c) (hg : c.ChargeGuard (.tick sp))
    (hs : c.step (.tick sp) = some (e, c')) (hu : some u ∈ c.sys.k.sleepQueue.handles)
    (hu' : some u ∉ c'.sys.k.sleepQueue.handles) : c'.due u ≤ c'.now :=
  (tick_inTime (run_inTime hr) hg hs).2 u hu hu'

instance (c : Clocked) (a : Action) : Decidable (c.ChargeGuard a) :=
  match a with
  | .call (.thrdSleep _) => inferInstanceAs (Decidable (_ ∧ ∀ _, _))
  | .tick _ => inferInstanceAs (Decidable (_ = true))
  | .create _ _ | .launch | .resume => isTrue trivial
  | .call (.thrdCreate _ _) | .call .thrdYield | .call (.thrdExit _) | .call (.thrdJoin _)
  | .call (.semWait _) | .call (.semTimedwait _ _) | .call (.semTrywait _) | .call (.semPost _)
  | .call (.mtxLock _) | .call (.mtxTimedlock _ _) | .call (.mtxTrylock _)
  | .call (.mtxUnlock _) => isTrue trivial

/-- Performing a list of actions, and then a tick, shows that a tick wakes a thread. -/
theorem exists_wake {G : Clocked → Action → Prop} [∀ c a, Decidable (G c a)] (as : List Action)
    (u : TaskId) {P : Clocked → Prop} [∀ c, Decidable (P c)]
    (he : ((system fun _ => 0).exec G ⟨Sys.boot fun _ => 0, 0, fun _ => 0⟩ [] as).any (fun r =>
      decide (G r.2 (.tick 0) ∧ some u ∈ r.2.sys.k.sleepQueue.handles) &&
        (r.2.step (.tick 0)).any fun r' =>
          decide (some u ∉ r'.2.sys.k.sleepQueue.handles ∧ P r'.2)) = true) :
    ∃ h c e c', (system fun _ => 0).Run G h c ∧ G c (.tick 0) ∧ c.step (.tick 0) = some (e, c') ∧
      some u ∈ c.sys.k.sleepQueue.handles ∧ some u ∉ c'.sys.k.sleepQueue.handles ∧ P c' := by
  rcases TransitionSystem.exists_step_of_exec (M := system fun _ => 0) rfl as (.tick 0)
    (P := fun _ c => G c (.tick 0) ∧ some u ∈ c.sys.k.sleepQueue.handles)
    (Q := fun _ c' => some u ∉ c'.sys.k.sleepQueue.handles ∧ P c') he
    with ⟨h, c, e, c', hr, ⟨hg, hu⟩, hs, hc'⟩
  exact ⟨h, c, e, c', hr, hg, hs, hu, hc'⟩

/-- A thread that sleeps for ten ticks is woken by the eleventh: two of them are charged to it for
another thread, which sleeps for three ticks meanwhile. -/
theorem not_woken_early_two_threads :
    ∃ h c e c', (system fun _ => 0).Run ChargeGuard h c ∧ c.step (.tick 0) = some (e, c') ∧
      some (.slot 15) ∈ c.sys.k.sleepQueue.handles ∧
      some (.slot 15) ∉ c'.sys.k.sleepQueue.handles ∧ c'.due (.slot 15) = 10 ∧ c'.now = 11 ∧
      c'.due (.slot 15) ≤ c'.now := by
  rcases exists_wake (G := ChargeGuard)
    ([.create 1 1, .create 1 1, .launch, .call (.thrdSleep 10), .resume] ++
      List.replicate 5 (.tick 0) ++ [.call (.thrdSleep 3), .resume] ++ List.replicate 5 (.tick 0))
    (.slot 15) (P := fun c' => c'.due (.slot 15) = 10 ∧ c'.now = 11)
    (by decide +kernel) with ⟨h, c, e, c', hr, hg, hs, hu, hu', hd, hn⟩
  exact ⟨h, c, e, c', hr, hs, hu, hu', hd, hn, not_woken_early hr hg hs hu hu'⟩

/-- The first thread sleeps for ten ticks from the start, the second one for ten ticks from tick 5
on. It is charged nine ticks when the first one wakes up, and wakes up at tick 11. -/
theorem woken_early :
    ∃ h c e c', (system fun _ => 0).Run (fun _ _ => True) h c ∧ c.step (.tick 0) = some (e, c') ∧
      some (.slot 14) ∈ c.sys.k.sleepQueue.handles ∧
      some (.slot 14) ∉ c'.sys.k.sleepQueue.handles ∧ c'.now = 11 ∧ c'.due (.slot 14) = 15 := by
  rcases exists_wake (G := fun _ _ => True)
    [.create 1 1, .create 1 1, .launch, .call (.thrdSleep 10), .resume,
      .tick 0, .tick 0, .tick 0, .tick 0, .tick 0, .call (.thrdSleep 10), .resume,
      .tick 0, .tick 0, .tick 0, .tick 0, .tick 0] (.slot 14)
    (P := fun c => c.now = 11 ∧ c.due (.slot 14) = 15) (by decide +kernel)
    with ⟨h, c, e, c', hr, -, hs⟩
  exact ⟨h, c, e, c', hr, hs⟩

end Clocked

end MsTos
