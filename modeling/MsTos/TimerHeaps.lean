-- SUMMARY: The heap order of `sleep_queue` and `t_waitqueue` over whole runs.
import MsTos.PQueueHeap
import MsTos.TimedWait

namespace MsTos

/-! ## The loops of `os_update` -/

namespace PQueue

variable {active : ThrdPtr → Bool} {amount : Nat → Nat} {thresh fuel : Nat}
  {pq : PQueue SleepDeadline numThreads}

/-- A loop of `os_update`, as far as its queue is concerned: it pops the entries whose time is over
or whose thread is `active`, and takes `amount` of the ticks of each one off the next one. -/
def expire (active : ThrdPtr → Bool) (amount : Nat → Nat) (thresh : Nat) :
    Nat → PQueue SleepDeadline numThreads → PQueue SleepDeadline numThreads
  | 0, pq => pq
  | fuel + 1, pq =>
      if pq.count > thresh then
        if (pq.countDown.storage 1).priority ≤ 0 ∨ active (pq.countDown.storage 1).data.data then
          let (deadline, q) := pq.countDown.pop
          expire active amount thresh fuel (q.charge (amount deadline.ticks) deadline.ticks)
        else pq.countDown
      else pq

/-- What the loop over `sleep_queue` makes of it. -/
abbrev wake (thresh fuel : Nat) (pq : PQueue SleepDeadline numThreads) :
    PQueue SleepDeadline numThreads :=
  expire (fun _ => false) (fun ticks => toSize (ticks - 1)) thresh fuel pq

/-- What `os_update` makes of `sleep_queue`. -/
def tick (pq : PQueue SleepDeadline numThreads) : PQueue SleepDeadline numThreads :=
  pq.wake (pq.count / 2) pq.count

/-- No write of such a loop to the priority of the root gets below the least `int`. -/
def expireFits (active : ThrdPtr → Bool) (amount : Nat → Nat) (thresh : Nat) :
    Nat → PQueue SleepDeadline numThreads → Bool
  | 0, _ => true
  | fuel + 1, pq =>
      if pq.count > thresh then
        decide (-32768 < (pq.storage 1).priority) &&
        if (pq.countDown.storage 1).priority ≤ 0 ∨ active (pq.countDown.storage 1).data.data then
          let (deadline, q) := pq.countDown.pop
          decide (q.count > 0 → -32768 ≤ (q.storage 1).priority - amount deadline.ticks) &&
          expireFits active amount thresh fuel (q.charge (amount deadline.ticks) deadline.ticks)
        else true
      else true

/-- The loops of `os_update` only take entries out. -/
theorem expire_handles_le : (expire active amount thresh fuel pq).handles ≤ pq.handles := by
  induction fuel generalizing pq with
  | zero => exact le_refl _
  | succ fuel ih =>
      unfold expire
      split
      · rename_i hc
        have hpos : 0 < pq.countDown.count := Nat.zero_lt_of_lt hc
        split
        · refine ih.trans ?_
          have hcount : pq.countDown.handles = pq.handles := handles_countDown
          rw [handles_charge, ← hcount, handles_pop hpos]
          exact Multiset.le_cons_self _ _
        · exact handles_countDown.le
      · exact le_refl _

theorem countDown_ordered (h : pq.Ordered) (hr : pq.InRange) (hpos : 0 < pq.count)
    (hw : -32768 < (pq.storage 1).priority) : pq.countDown.Ordered ∧ pq.countDown.InRange := by
  have hroot := hr _ (mem_entries (le_refl 1) hpos)
  have hp : toInt ((pq.storage 1).priority - 1) = (pq.storage 1).priority - 1 :=
    toInt_of_mem (by omega) (by omega)
  refine ⟨h.setRoot fun _ => ?_, hr.setRoot fun _ => toInt_mem _⟩
  show toInt ((pq.storage 1).priority - 1) ≤ _
  omega

theorem charge_ordered {n : Nat} (ticks : Nat) (h : pq.Ordered) (hr : pq.InRange)
    (hw : 0 < pq.count → -32768 ≤ (pq.storage 1).priority - n) :
    (pq.charge n ticks).Ordered ∧ (pq.charge n ticks).InRange := by
  refine ⟨h.setRoot fun hpos => ?_, hr.setRoot fun _ => toInt_mem _⟩
  have hroot := hr _ (mem_entries (le_refl 1) hpos)
  have hp : toInt ((pq.storage 1).priority - n) = (pq.storage 1).priority - n :=
    toInt_of_mem (hw hpos) (by omega)
  show toInt ((pq.storage 1).priority - n) ≤ _
  omega

/-- A loop that wraps nowhere keeps the order. -/
theorem expire_ordered (h : pq.Ordered) (hr : pq.InRange)
    (hf : expireFits active amount thresh fuel pq = true) :
    (expire active amount thresh fuel pq).Ordered ∧
      (expire active amount thresh fuel pq).InRange := by
  induction fuel generalizing pq with
  | zero => exact ⟨h, hr⟩
  | succ fuel ih =>
      unfold expire
      unfold expireFits at hf
      split
      · rename_i hc
        have hpos : 0 < pq.count := Nat.zero_lt_of_lt hc
        rw [if_pos hc, Bool.and_eq_true, decide_eq_true_eq] at hf
        obtain ⟨hw, hf⟩ := hf
        obtain ⟨h₁, hr₁⟩ := countDown_ordered h hr hpos hw
        split
        · rename_i hp
          rw [if_pos hp, Bool.and_eq_true, decide_eq_true_eq] at hf
          obtain ⟨h₂, hr₂⟩ := charge_ordered pq.countDown.pop.1.ticks (h₁.pop hpos)
            (hr₁.pop hpos) hf.1
          exact ih h₂ hr₂ hf.2
        · exact ⟨h₁, hr₁⟩
      · exact ⟨h, hr⟩

end PQueue

namespace Kernel

variable {k : Kernel} {thresh fuel : Nat}

theorem wakeSleepers_sleepQueue : (wakeSleepers thresh fuel k).sleepQueue =
    PQueue.expire (fun _ => false) (fun ticks => toSize (ticks - 1)) thresh fuel k.sleepQueue := by
  induction fuel generalizing k with
  | zero => rfl
  | succ fuel ih =>
      have hq : ∀ (k : Kernel) d, ((k.osAddTaskMmang d).2.store d
          fun t => { t with state := .ACTIVE }).sleepQueue = k.sleepQueue := by
        intro k d
        cases d <;> rfl
      unfold wakeSleepers PQueue.expire
      simp only [Bool.false_eq_true, or_false]
      split
      · split
        · rw [ih]
          simp only [hq]
        · rfl
      · rfl

theorem expireDeadlines_tWaitqueue : (expireDeadlines thresh fuel k).tWaitqueue =
    PQueue.expire k.isActive id thresh fuel k.tWaitqueue := by
  induction fuel generalizing k with
  | zero => rfl
  | succ fuel ih =>
      have hq : ∀ (k : Kernel) d, (k.osAddTaskMmang d).2.tWaitqueue = k.tWaitqueue := by
        intro k d
        cases d <;> rfl
      have ha : ∀ (k : Kernel) q d q', Kernel.isActive
          { (Kernel.osAddTaskMmang { k with tWaitqueue := q } d).2 with tWaitqueue := q' } =
            k.isActive := by
        intro k q d q'
        cases d <;> rfl
      have ha' : ∀ (k : Kernel) q, Kernel.isActive { k with tWaitqueue := q } = k.isActive :=
        fun _ _ => rfl
      unfold expireDeadlines PQueue.expire
      simp only [ha']
      split
      · split
        · rw [ih]
          simp only [hq, ha, id]
        · rfl
      · rfl

theorem osUpdate_tick : k.osUpdate.sleepQueue = k.sleepQueue.tick := by
  rw [osUpdate_sleepQueue, wakeSleepers_sleepQueue]
  rfl

/-- No write of `os_update` to the priority of a root wraps. -/
def TickFits (k : Kernel) : Prop :=
  PQueue.expireFits (fun _ => false) (fun ticks => toSize (ticks - 1)) (k.sleepQueue.count / 2)
      k.sleepQueue.count k.sleepQueue = true ∧
    PQueue.expireFits k.sleepersWoken.isActive id (k.tWaitqueue.count / 2) k.tWaitqueue.count
      k.tWaitqueue = true

instance (k : Kernel) : Decidable k.TickFits := inferInstanceAs (Decidable (_ ∧ _))

/-- Both queues of the timers are heaps. -/
structure HeapsOk (k : Kernel) : Prop where
  sleepQueue : k.sleepQueue.Ordered ∧ k.sleepQueue.InRange
  tWaitqueue : k.tWaitqueue.Ordered ∧ k.tWaitqueue.InRange

theorem HeapsOk.osUpdate (h : k.HeapsOk) (hf : k.TickFits) : k.osUpdate.HeapsOk := by
  constructor
  · rw [osUpdate_tick]
    exact PQueue.expire_ordered h.sleepQueue.1 h.sleepQueue.2 hf.1
  · rw [osUpdate_tWaitqueue, expireDeadlines_tWaitqueue, sleepersWoken_tWaitqueue]
    exact PQueue.expire_ordered h.tWaitqueue.1 h.tWaitqueue.2 hf.2

end Kernel

/-- How long the call sleeps. -/
def Call.sleepTicks : Call → Nat
  | .thrdSleep ticks => ticks
  | _ => 0

namespace Sys

variable {vals : Nat → Nat} {s s' : Sys} {h : List (Option Event)} {a : Action} {e : Option Event}
  {t : TaskId}

/-- An entry of at most `INT_MAX` ticks is pushed, or none, and the push meets no negative priority. -/
def PushOk (pq : PQueue SleepDeadline numThreads) (ticks : Nat) : Prop :=
  ticks ≠ 0 → ticks < 32768 ∧ pq.PushFits ticks

/-- No push to a timer queue meets a negative priority, and no tick wraps the priority of a root. -/
def HeapGuard (s : Sys) (a : Action) : Prop :=
  match a with
  | .call c => PushOk s.k.sleepQueue c.sleepTicks ∧ PushOk s.k.tWaitqueue (c.timeout s.k)
  | .tick sp => (save s.k sp).TickFits
  | _ => True

instance (pq : PQueue SleepDeadline numThreads) (ticks : Nat) : Decidable (PushOk pq ticks) :=
  inferInstanceAs (Decidable (_ → _))

instance (s : Sys) (a : Action) : Decidable (s.HeapGuard a) :=
  match a with
  | .call _ => inferInstanceAs (Decidable (_ ∧ _))
  | .tick _ => inferInstanceAs (Decidable (Kernel.TickFits _))
  | .create _ _ | .launch | .resume => inferInstanceAs (Decidable True)

theorem stepCall_sleepQueue (c : Call) :
    (s.stepCall t c).2.k.sleepQueue =
      if c.sleepTicks = 0 then s.k.sleepQueue
      else (s.k.sleepQueue.push c.sleepTicks ⟨some t, c.sleepTicks⟩).2 := by
  have hb : (∀ r p, c ≠ .thrdCreate r p) → (∀ n, c ≠ .thrdSleep n) →
      (s.stepCall t c).2.k.sleepQueue = s.k.sleepQueue :=
    fun hc hn => congrArg Base.sleepQueue (s.stepCall_base t c hc hn)
  cases c with
  | thrdSleep ticks =>
      unfold stepCall Call.sleepTicks
      dsimp only
      split
      · rw [complete_k]
        rfl
      · rfl
  | thrdCreate r p => simp [stepCall, Call.sleepTicks]
  | _ => exact (hb (by simp) (by simp)).trans (if_pos rfl).symm

theorem PushOk.ordered {pq : PQueue SleepDeadline numThreads} {ticks : Nat} {item : SleepDeadline}
    (h : PushOk pq ticks) (ho : pq.Ordered ∧ pq.InRange) :
    (if ticks = 0 then pq else (pq.push ticks item).2).Ordered ∧
      (if ticks = 0 then pq else (pq.push ticks item).2).InRange := by
  split
  · exact ho
  · rename_i hne
    obtain ⟨hlt, hf⟩ := h hne
    exact ⟨ho.1.push ho.2 hlt hf item, ho.2.push ticks item⟩

theorem step_heapsOk (h : s.k.HeapsOk) (hg : s.HeapGuard a) (hs : s.step a = some (e, s')) :
    s'.k.HeapsOk := by
  by_cases hc : ∃ c, a = .call c
  · obtain ⟨c, rfl⟩ := hc
    cases (steps_of_step hs).2 with
    | call c hr hpc hp =>
        constructor
        · rw [stepCall_sleepQueue]
          exact hg.1.ordered h.sleepQueue
        · rw [stepCall_tWaitqueue c hr]
          exact hg.2.ordered h.tWaitqueue
  · by_cases ht : ∃ sp, a = .tick sp
    · obtain ⟨sp, rfl⟩ := ht
      have hk : (save s.k sp).osUpdate.HeapsOk :=
        Kernel.HeapsOk.osUpdate ⟨h.sleepQueue, h.tWaitqueue⟩ hg
      have hq : s'.k.sleepQueue = (save s.k sp).osUpdate.sleepQueue := by
        rw [(tick_of_step hs).1]
        exact Kernel.osSchedule_sleepQueue _
      have hw : s'.k.tWaitqueue = (save s.k sp).osUpdate.tWaitqueue := by
        rw [(tick_of_step hs).1]
        exact Kernel.osSchedule_tWaitqueue _
      constructor
      · rw [hq]
        exact hk.sleepQueue
      · rw [hw]
        exact hk.tWaitqueue
    · have hc' : ∀ c, a ≠ .call c := fun c h => hc ⟨c, h⟩
      have ht' : ∀ sp, a ≠ .tick sp := fun sp h => ht ⟨sp, h⟩
      constructor
      · rw [step_sleepQueue hs (fun n => hc' _) ht']
        exact h.sleepQueue
      · rw [step_tWaitqueue hs hc' ht']
        exact h.tWaitqueue

theorem boot_heapsOk (vals : Nat → Nat) : (boot vals).k.HeapsOk := by
  have hi : (PQueue.init : PQueue SleepDeadline numThreads).Ordered ∧
      (PQueue.init : PQueue SleepDeadline numThreads).InRange := by
    refine ⟨?_, fun n hn => absurd hn (Multiset.notMem_zero n)⟩
    intro i hi hn
    have hn' : i ≤ 0 := hn
    omega
  exact ⟨hi, hi⟩

/-- In every state both timer queues are heaps, so that their roots have minimal priorities. -/
theorem timer_heaps_ordered (hr : (system vals).Run HeapGuard h s) :
    s.k.sleepQueue.Ordered ∧ s.k.tWaitqueue.Ordered ∧
      (∀ n ∈ s.k.sleepQueue.entries, (s.k.sleepQueue.storage 1).priority ≤ n.priority) ∧
      ∀ n ∈ s.k.tWaitqueue.entries, (s.k.tWaitqueue.storage 1).priority ≤ n.priority := by
  have hok : s.k.HeapsOk := by
    refine hr.invariant (P := fun _ s => s.k.HeapsOk) ?_ ?_
    · rintro s rfl
      exact boot_heapsOk vals
    · exact fun _ _ _ _ _ hok hg hs => step_heapsOk hok hg hs
  exact ⟨hok.sleepQueue.1, hok.tWaitqueue.1, fun n hn => hok.sleepQueue.1.root_le hn,
    fun n hn => hok.tWaitqueue.1.root_le hn⟩

/-- Two threads sleep, and two wait for a semaphore with timeouts. -/
theorem timer_heaps_ordered_four_threads :
    ∃ h s, (system fun _ => 0).Run HeapGuard h s ∧ s.k.sleepQueue.count = 2 ∧
      s.k.tWaitqueue.count = 2 ∧ s.k.sleepQueue.Ordered ∧ s.k.tWaitqueue.Ordered := by
  obtain ⟨h, s, hr, hc, hw⟩ := exists_run (fun _ => 0) (G := HeapGuard)
    [.create 1 1, .create 1 1, .create 1 1, .create 1 1, .launch, .call (.thrdSleep 9), .resume,
      .tick 0, .call (.thrdSleep 5), .resume, .tick 0, .call (.semTimedwait 0 7), .tick 0,
      .call (.semTimedwait 0 6), .tick 0]
    (P := fun _ s => s.k.sleepQueue.count = 2 ∧ s.k.tWaitqueue.count = 2) (by decide +kernel)
  obtain ⟨hs, ht, -⟩ := timer_heaps_ordered hr
  exact ⟨h, s, hr, hc, hw, hs, ht⟩

/-- The second sleeper is charged more than its own sleep when the first one wakes up, and the next
push compares its negative priority as a `size_t`. -/
theorem sleep_queue_unordered :
    ∃ h s, (system fun _ => 0).Run (fun _ _ => True) h s ∧ s.k.sleepQueue.count = 2 ∧
      (s.k.sleepQueue.storage 2).priority < (s.k.sleepQueue.storage 1).priority := by
  obtain ⟨h, s, hr, hq⟩ := exists_run (fun _ => 0) (G := fun _ _ => True)
    [.create 1 1, .create 1 1, .launch, .call (.thrdSleep 10), .resume,
      .tick 0, .tick 0, .tick 0, .tick 0, .tick 0, .call (.thrdSleep 6), .resume,
      .tick 0, .tick 0, .tick 0, .tick 0, .tick 0, .resume, .call (.thrdSleep 4)]
    (P := fun _ s => s.k.sleepQueue.count = 2 ∧
      (s.k.sleepQueue.storage 2).priority < (s.k.sleepQueue.storage 1).priority)
    (by decide +kernel)
  exact ⟨h, s, hr, hq⟩

end Sys

end MsTos
