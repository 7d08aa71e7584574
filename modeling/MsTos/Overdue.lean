-- SUMMARY: How long a sleeper can be overdue: by fewer ticks than the loop over `sleep_queue` has left unpaid since it fell asleep.
import MsTos.SleepTime
import MsTos.Undercharge

namespace MsTos

/-! ## Steps -/

namespace Clocked

variable {c c' : Clocked} {e : Option Event}

theorem tick_sleepQueue {sp : Addr} (hs : c.step (.tick sp) = some (e, c')) :
    c'.sys.k.sleepQueue = c.sys.k.sleepQueue.tick := by
  have hq : c'.sys.k.sleepQueue = (Sys.save c.sys.k sp).osUpdate.sleepQueue := by
    rw [(Sys.tick_of_step (sys_of_step hs)).1]
    exact Kernel.osSchedule_sleepQueue _
  rw [hq, Kernel.osUpdate_tick]
  rfl

theorem of_sleep {ticks : SizeT} (hs : c.step (.call (.thrdSleep ticks)) = some (e, c')) :
    ∃ v, c.sys.k.runPtr = some v ∧ c'.now = c.now ∧
      c'.due = (if ticks.val = 0 then c.due else Function.update c.due v (c.now + ticks)) ∧
      c'.sys.k.sleepQueue = if ticks.val = 0 then c.sys.k.sleepQueue
        else (c.sys.k.sleepQueue.push ticks ⟨some v, ticks⟩).2 := by
  obtain ⟨v, hrun, hnow, hdue, hsys⟩ := call_of_sleep hs
  refine ⟨v, hrun, hnow, hdue, ?_⟩
  rw [hsys]
  exact Sys.stepCall_sleepQueue _

end Clocked

/-- The system with a clock, and with a count of the ticks that have been left unpaid. -/
structure Tally where
  clock : Clocked
  /-- How long the last `thrd_sleep` of a thread is. -/
  asked : TaskId → Nat
  /-- The ticks since then at which the loop over `sleep_queue` has stopped at half of it. -/
  stops : TaskId → Nat

namespace Tally

variable {vals : Nat → Nat} {c c' : Tally} {h : List (Option Event)} {a : Action}
  {e : Option Event} {u : TaskId}

def queue (c : Tally) : PQueue SleepDeadline numThreads := c.clock.sys.k.sleepQueue

/-- The loop over `sleep_queue` stops at half of it in the next tick. -/
def stopsAtHalf (c : Tally) : Bool := c.queue.stopsAtHalf (c.queue.count / 2) c.queue.count

/-- A call of `thrd_sleep` starts the count of its caller, and a tick is counted for everybody if the
loop stops at half. -/
def step (c : Tally) (a : Action) : Option (Option Event × Tally) :=
  (c.clock.step a).map fun r => (r.1, {
    clock := r.2
    asked :=
      match a, c.clock.sys.k.runPtr with
      | .call (.thrdSleep ticks), some u =>
          if ticks.val = 0 then c.asked else Function.update c.asked u ticks
      | _, _ => c.asked
    stops :=
      match a, c.clock.sys.k.runPtr with
      | .call (.thrdSleep ticks), some u =>
          if ticks.val = 0 then c.stops else Function.update c.stops u 0
      | .tick _, _ => fun u => c.stops u + if c.stopsAtHalf then 1 else 0
      | _, _ => c.stops })

/-- The running system, with nothing counted yet. -/
def system (vals : Nat → Nat) : TransitionSystem Tally Action (Option Event) where
  init c := c = ⟨⟨Sys.boot vals, 0, fun _ => 0⟩, fun _ => 0, fun _ => 0⟩
  step := step

/-- A thread that is not asleep sleeps for less than 2^15 ticks, and its push meets no negative
priority. A tick wraps nothing, and for a sleeper whose time is over no more than `NUM_THREADS` ticks
have stopped at half of the queue, this one included. -/
def StopGuard (c : Tally) (a : Action) : Prop :=
  match a with
  | .call (.thrdSleep ticks) => Sys.PushOk c.queue ticks ∧
      ∀ u, c.clock.sys.k.runPtr = some u → some u ∉ c.queue.handles
  | .tick _ => c.queue.WakeFits (c.queue.count / 2) c.queue.count ∧
      ∀ u, some u ∈ c.queue.handles → c.clock.due u ≤ c.clock.now →
        (c.stops u + if c.stopsAtHalf then 1 else 0) ≤ numThreads
  | _ => True

instance (c : Tally) (a : Action) : Decidable (c.StopGuard a) :=
  match a with
  | .call (.thrdSleep _) => inferInstanceAs (Decidable (_ ∧ ∀ _, _))
  | .tick _ => inferInstanceAs (Decidable (_ ∧ ∀ _, _))
  | .create _ _ | .launch | .resume => isTrue trivial
  | .call (.thrdCreate _ _) | .call .thrdYield | .call (.thrdExit _) | .call (.thrdJoin _)
  | .call (.semWait _) | .call (.semTimedwait _ _) | .call (.semTrywait _) | .call (.semPost _)
  | .call (.mtxLock _) | .call (.mtxTimedlock _ _) | .call (.mtxTrylock _)
  | .call (.mtxUnlock _) => isTrue trivial

/-- How long the last sleep of a thread is. -/
def span (c : Tally) : ThrdPtr → Nat
  | none => 0
  | some u => c.asked u

/-- What a sleeper has left of its sleep, together with the ticks that have been left unpaid. -/
def left (c : Tally) : ThrdPtr → Int
  | none => 0
  | some u => c.clock.due u + c.stops u - c.clock.now

/-- Every sleeper is overdue by fewer ticks than have been left unpaid, and by fewer than
`NUM_THREADS`. -/
structure InBounds (c : Tally) : Prop where
  paying : c.queue.Paying c.span c.left 0
  unpaid : ∀ u, some u ∈ c.queue.handles → c.clock.now < c.clock.due u + c.stops u
  bound : ∀ u, some u ∈ c.queue.handles → c.clock.now < c.clock.due u + numThreads

theorem clock_of_step (hs : c.step a = some (e, c')) : c.clock.step a = some (e, c'.clock) := by
  obtain ⟨r, hr, hx⟩ := Option.map_eq_some_iff.1 hs
  cases hx
  exact hr

theorem tick_counts {sp : Addr} (hs : c.step (.tick sp) = some (e, c')) : c'.asked = c.asked ∧
    c'.stops = fun u => c.stops u + if c.stopsAtHalf then 1 else 0 := by
  obtain ⟨r, hr, hx⟩ := Option.map_eq_some_iff.1 hs
  cases hx
  exact ⟨rfl, rfl⟩

theorem sleep_counts {ticks : SizeT} {v : TaskId} (hs : c.step (.call (.thrdSleep ticks)) = some (e, c'))
    (hv : c.clock.sys.k.runPtr = some v) :
    c'.asked = (if ticks.val = 0 then c.asked else Function.update c.asked v ticks) ∧
      c'.stops = if ticks.val = 0 then c.stops else Function.update c.stops v 0 := by
  obtain ⟨r, hr, hx⟩ := Option.map_eq_some_iff.1 hs
  cases hx
  simp only [hv, and_self]

theorem same_counts (hs : c.step a = some (e, c')) (hc : ∀ n, a ≠ .call (.thrdSleep n))
    (ht : ∀ sp, a ≠ .tick sp) : c'.asked = c.asked ∧ c'.stops = c.stops := by
  obtain ⟨r, hr, hx⟩ := Option.map_eq_some_iff.1 hs
  cases hx
  refine ⟨?_, ?_⟩
  · split <;> simp_all
  · split <;> simp_all

theorem handles_of_tick {sp : Addr} (hs : c.step (.tick sp) = some (e, c')) :
    c'.queue.handles ≤ c.queue.handles := by
  have hq : c'.queue = c.queue.wake (c.queue.count / 2) c.queue.count :=
    Clocked.tick_sleepQueue (clock_of_step hs)
  rw [hq]
  exact PQueue.expire_handles_le

/-- A tick is paid for, or it is counted as one at which the loop has stopped at half. -/
theorem InBounds.tick_unpaid {sp : Addr} (h : c.InBounds) (hg : c.StopGuard (.tick sp))
    (hs : c.step (.tick sp) = some (e, c')) : c'.queue.Paying c'.span c'.left 0 ∧
      ∀ u, some u ∈ c'.queue.handles → c'.clock.now < c'.clock.due u + c'.stops u := by
  have hq : c'.queue = c.queue.wake (c.queue.count / 2) c.queue.count :=
    Clocked.tick_sleepQueue (clock_of_step hs)
  obtain ⟨hnow, hdue⟩ := Clocked.now_of_tick (clock_of_step hs)
  obtain ⟨hasked, hstops⟩ := tick_counts hs
  have hspan : c'.span = c.span := by
    funext p
    cases p with
    | none => rfl
    | some u => exact congrFun hasked u
  -- one more tick has to be paid for
  have hstart : c.queue.Paying c.span (fun p => c.left p - 1) 1 :=
    h.paying.mono fun p => by omega
  have hwake := hstart.wake hg.1
  rw [← hq, ← hspan] at hwake
  cases hstop : c.stopsAtHalf with
  | true =>
      rw [show c.queue.stopsAtHalf _ _ = true from hstop, if_pos rfl] at hwake
      simp only [hstop, if_pos] at hstops
      refine ⟨hwake.mono ?_, ?_⟩
      · intro p
        cases p with
        | none => exact le_refl _
        | some u =>
            simp only [left, hnow, hdue, hstops]
            omega
      · intro u hu
        have := h.unpaid u (Multiset.mem_of_le (handles_of_tick hs) hu)
        simp only [hnow, hdue, hstops]
        omega
  | false =>
      rw [show c.queue.stopsAtHalf _ _ = false from hstop, if_neg Bool.false_ne_true] at hwake
      simp only [hstop, Bool.false_eq_true, if_false, add_zero] at hstops
      have hleft : ∀ u, c.left (some u) - 1 = c'.left (some u) := by
        intro u
        simp only [left, hnow, hdue, hstops]
        omega
      refine ⟨hwake.1.mono ?_, ?_⟩
      · intro p
        cases p with
        | none => show (0 : Int) - 1 + 0 ≤ 0 + 0; decide
        | some u => rw [hleft]
      · intro u hu
        obtain ⟨n, hn, hnu⟩ := Multiset.mem_map.1 hu
        have hroot := hwake.1.lag.root_le hwake.1.rootLeast n hn
        have hpos := hwake.2
        rw [hnu, hleft] at hroot
        simp only [left] at hroot
        omega

theorem InBounds.tick {sp : Addr} (h : c.InBounds) (hg : c.StopGuard (.tick sp))
    (hs : c.step (.tick sp) = some (e, c')) : c'.InBounds := by
  obtain ⟨hnow, hdue⟩ := Clocked.now_of_tick (clock_of_step hs)
  obtain ⟨-, hstops⟩ := tick_counts hs
  obtain ⟨hpaying, hunpaid⟩ := h.tick_unpaid hg hs
  refine ⟨hpaying, hunpaid, ?_⟩
  intro u hu
  have hlt := hunpaid u hu
  rcases Nat.lt_or_ge c.clock.now (c.clock.due u) with hbefore | hover
  · rw [hnow, hdue]
    exact Nat.lt_of_le_of_lt hbefore (Nat.lt_add_of_pos_right (by decide))
  · have hstop := hg.2 u (Multiset.mem_of_le (handles_of_tick hs) hu) hover
    have hstops : c'.stops u ≤ numThreads := by rwa [hstops]
    omega

/-- Nothing that counts for the sleepers has changed. -/
theorem InBounds.congr (h : c.InBounds) (hq : c'.queue = c.queue) (ha : c'.asked = c.asked)
    (hs : c'.stops = c.stops) (hn : c'.clock.now = c.clock.now) (hd : c'.clock.due = c.clock.due) :
    c'.InBounds := by
  have hspan : c'.span = c.span := by
    funext p
    cases p with
    | none => rfl
    | some u => exact congrFun ha u
  have hleft : c'.left = c.left := by
    funext p
    cases p with
    | none => rfl
    | some u => simp only [left, hs, hn, hd]
  refine ⟨?_, ?_, ?_⟩
  · rw [hq, hspan, hleft]
    exact h.paying
  · rw [hq, hn, hd, hs]
    exact h.unpaid
  · rw [hq, hn, hd]
    exact h.bound

theorem InBounds.sleep {ticks : SizeT} (h : c.InBounds) (hg : c.StopGuard (.call (.thrdSleep ticks)))
    (hs : c.step (.call (.thrdSleep ticks)) = some (e, c')) : c'.InBounds := by
  obtain ⟨v, hr, hnow, hdue, hq⟩ := Clocked.of_sleep (clock_of_step hs)
  obtain ⟨hasked, hstops⟩ := sleep_counts hs hr
  rcases eq_or_ne ticks.val 0 with h0 | hne
  · rw [if_pos h0] at hdue hq hasked hstops
    exact h.congr hq hasked hstops hnow hdue
  · rw [if_neg hne] at hdue hq hasked hstops
    have hnew : some v ∉ c.queue.handles := hg.2 v hr
    obtain ⟨hlt, hfits⟩ := hg.1 hne
    have hself : c'.clock.due v = c.clock.now + ticks ∧ c'.stops v = 0 ∧ c'.asked v = ticks := by
      rw [hdue, hstops, hasked]
      simp only [Function.update_self, and_self]
    have hother : ∀ u, u ≠ v → c'.clock.due u = c.clock.due u ∧ c'.stops u = c.stops u ∧
        c'.asked u = c.asked u := by
      intro u hu
      rw [hdue, hstops, hasked]
      simp only [Function.update_of_ne hu, and_self]
    have hmem : ∀ u, some u ∈ c'.queue.handles → u = v ∨ u ≠ v ∧ some u ∈ c.queue.handles := by
      intro u hu
      rw [show c'.queue = _ from hq] at hu
      rcases eq_or_ne u v with huv | huv
      · exact .inl huv
      · refine .inr ⟨huv, (PQueue.mem_handles_push hu).resolve_left ?_⟩
        exact fun he => huv (Option.some.inj he)
    refine ⟨?_, ?_, ?_⟩
    · rw [show c'.queue = _ from hq]
      refine h.paying.push hne hlt hfits hnew ?_ hself.2.2 ?_ ?_
      · intro p hp
        cases p with
        | none => rfl
        | some u => exact (hother u fun he => hp (congrArg some he)).2.2
      · intro p hp
        cases p with
        | none => rfl
        | some u =>
            obtain ⟨hd, hst, -⟩ := hother u fun he => hp (congrArg some he)
            simp only [left, hnow, hd, hst]
      · simp only [left, hnow, hself.1, hself.2.1]
        omega
    · intro u hu
      rcases hmem u hu with rfl | ⟨huv, hu⟩
      · rw [hnow, hself.1]
        omega
      · rw [hnow, (hother u huv).1, (hother u huv).2.1]
        exact h.unpaid u hu
    · intro u hu
      rcases hmem u hu with rfl | ⟨huv, hu⟩
      · rw [hnow, hself.1]
        omega
      · rw [hnow, (hother u huv).1]
        exact h.bound u hu

theorem InBounds.step (h : c.InBounds) (hg : c.StopGuard a) (hs : c.step a = some (e, c')) :
    c'.InBounds := by
  by_cases ht : ∃ sp, a = .tick sp
  · obtain ⟨sp, rfl⟩ := ht
    exact h.tick hg hs
  · by_cases hn : ∃ n, a = .call (.thrdSleep n)
    · obtain ⟨n, rfl⟩ := hn
      exact h.sleep hg hs
    · have hn' : ∀ n, a ≠ .call (.thrdSleep n) := fun n h => hn ⟨n, h⟩
      have ht' : ∀ sp, a ≠ .tick sp := fun sp h => ht ⟨sp, h⟩
      obtain ⟨hasked, hstops⟩ := same_counts hs hn' ht'
      obtain ⟨hnow, hdue⟩ := Clocked.same_of_step (clock_of_step hs) hn' ht'
      exact h.congr (Sys.step_sleepQueue (Clocked.sys_of_step (clock_of_step hs)) hn' ht') hasked
        hstops hnow hdue

theorem run_inBounds (hr : (system vals).Run StopGuard h c) : c.InBounds := by
  refine hr.invariant (P := fun _ c => c.InBounds) ?_ ?_
  · rintro c rfl
    have hnone : ∀ n, n ∉ (PQueue.init : PQueue SleepDeadline numThreads).entries :=
      Multiset.notMem_zero
    have hheap := (Sys.boot_heapsOk vals).sleepQueue
    refine ⟨⟨hheap.1, hheap.2, fun n hn => absurd hn (hnone n), fun n hn => absurd hn (hnone n)⟩,
      fun u hu => absurd hu (Multiset.notMem_zero _), fun u hu => absurd hu (Multiset.notMem_zero _)⟩
  · exact fun _ _ _ _ _ hok hg hs => hok.step hg hs

/-- After every tick, a thread that is still in `sleep_queue` has been there for less than
`NUM_THREADS` ticks longer than it asked for. -/
theorem sleepers_not_overdue (hr : (system vals).Run StopGuard h c)
    (hu : some u ∈ c.clock.sys.k.sleepQueue.handles) :
    c.clock.now < c.clock.due u + numThreads :=
  (run_inBounds hr).bound u hu

/-- A thread that sleeps for three ticks is still asleep three ticks later, because it has not been
charged for five ticks at which the other one woke up. -/
theorem sleepers_not_overdue_two_threads :
    ∃ h c, (system fun _ => 0).Run StopGuard h c ∧
      some (.slot 15) ∈ c.clock.sys.k.sleepQueue.handles ∧ c.clock.due (.slot 15) = 3 ∧
      c.clock.now = 6 ∧ c.stops (.slot 15) = 5 ∧ c.clock.now < c.clock.due (.slot 15) + numThreads := by
  obtain ⟨h, c, hr, hu, hd, hn, hs⟩ := TransitionSystem.exists_run_of_exec
    (M := system fun _ => 0) (G := StopGuard)
    (s := ⟨⟨Sys.boot fun _ => 0, 0, fun _ => 0⟩, fun _ => 0, fun _ => 0⟩) rfl
    ([.create 1 1, .create 1 1, .launch, .call (.thrdSleep 3), .resume, .tick 0] ++
      (List.replicate 5 [.call (.thrdSleep 1), .resume, .tick 0, .resume]).flatten)
    (P := fun _ c => some (.slot 15) ∈ c.clock.sys.k.sleepQueue.handles ∧
      c.clock.due (.slot 15) = 3 ∧ c.clock.now = 6 ∧ c.stops (.slot 15) = 5)
    (by decide +kernel)
  exact ⟨h, c, hr, hu, hd, hn, hs, sleepers_not_overdue hr hu⟩

end Tally

namespace Clocked

/-- While the second thread sleeps for one tick over and over again, the first one, which is not
charged for any of these ticks, does not wake up. -/
theorem sleeper_overdue :
    ∃ h c e c', (system fun _ => 0).Run (fun _ _ => True) h c ∧ c.step (.tick 0) = some (e, c') ∧
      some (.slot 15) ∈ c'.sys.k.sleepQueue.handles ∧ c'.due (.slot 15) + numThreads ≤ c'.now := by
  obtain ⟨h, c, e, c', hr, -, hs, hu, hd⟩ := TransitionSystem.exists_step_of_exec
    (M := system fun _ => 0) (G := fun _ _ => True) (s := ⟨Sys.boot fun _ => 0, 0, fun _ => 0⟩) rfl
    ([.create 1 1, .create 1 1, .launch, .call (.thrdSleep 3), .resume, .tick 0] ++
      (List.replicate 17 [.call (.thrdSleep 1), .resume, .tick 0, .resume]).flatten ++
      [.call (.thrdSleep 1), .resume])
    (.tick 0) (P := fun _ _ => True)
    (Q := fun _ c' => some (.slot 15) ∈ c'.sys.k.sleepQueue.handles ∧
      c'.due (.slot 15) + numThreads ≤ c'.now)
    (by decide +kernel)
  exact ⟨h, c, e, c', hr, hs, hu, hd⟩

end Clocked

end MsTos
