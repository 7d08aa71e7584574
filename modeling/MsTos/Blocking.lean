-- SUMMARY: Blocked threads: when a thread that blocks is linked again only by a signal, and how a stale deadline links it.
import MsTos.Expiring
import MsTos.WaitQueues

namespace MsTos

namespace View

variable {v v' : View} {o : Obj} {t : TaskId} {a : Action} {e : Option Event}

/-- Who links a thread that has blocked on an object. -/
theorem Waiting.linked_of_blocks (h : v.Waiting) (hs : v.Step a e v')
    (hq : v.Unqueued a) (hc : v.Spares a v') (hpc : v.pc t = .ret o.waitCall 0)
    (hl : v.linked t = false) (hl' : v'.linked t = true) :
    a = .call o.signalCall ∧ ∃ l, v.waiters o = some t :: l ∧ v'.waiters o = l := by
  have hblocks : blocksOn (v.pc t) = some o := by
    rw [hpc]
    exact blocksOn_waitCall o 0
  -- otherwise the thread would have been granted what it waits for
  have hm : some t ∈ v.waiters o := by
    by_contra hm
    exact Bool.false_ne_true (hl.symm.trans (h.granted t o hblocks hm))
  have hb : (v.thrds t).state = .BLOCKING := (h.blocking t).2 ⟨o, hblocks, hm⟩
  rcases hs.linked hl hl' with ⟨hn, -⟩ | ⟨o', l, hw, hw', hcall⟩ | ⟨sp, rfl, hm⟩
  · rw [hn] at hpc
    cases hpc
  · have ho : o' = o := by
      have := h.waiter_some (o := o') (by rw [hw]; exact List.mem_cons_self)
      rw [waitsOn_of_blocksOn hblocks] at this
      exact (Option.some.inj this).symm
    subst ho
    rcases hcall with hcall | ⟨u, n, timeout, rfl, rfl, hr, hu, hst⟩
    · exact ⟨hcall, l, hw, hw'⟩
    · -- the head of the queue is the thread whose wait is rolled back
      have hd := hq rfl u hr (.sem n) (by rw [hu]; rfl)
      rw [Dequeued, if_pos hst, hw] at hd
      cases hd
      rw [hpc] at hu
      cases hu
  · exact absurd hm (hc sp rfl t hb)

end View

/-! ## Runs -/

namespace Sys

variable {s s' : Sys} {a : Action} {e : Option Event} {vals : Nat → Nat}
  {h : List (Option Event)}

/-- The step is regular, a timed wait that ends has left its wait queue, and a tick does not come to
an old entry of a blocked thread. -/
def Clean (s : Sys) (a : Action) : Prop :=
  s.Regular a ∧ s.view.Unqueued a ∧ s.Unarmed a

instance (s : Sys) (a : Action) : Decidable (s.Clean a) :=
  inferInstanceAs (Decidable (_ ∧ _ ∧ _))

theorem Clean.spares (hg : s.Clean a) (hk : s.Sound) (hs : s.step a = some (e, s')) :
    s.view.Spares a s'.view := by
  rintro sp rfl t hb
  rw [hk.taken_tick hs]
  exact hg.2.2 t hb

theorem Clean.waiting (hg : s.Clean a) (hk : s.Sound) (hs : s.step a = some (e, s'))
    (hw : s.view.Waiting) : s'.view.Waiting :=
  hw.step (steps_of_step hs).1 (step_refines hk hg.1 hs).2 hg.2.1 (hg.spares hk hs)

theorem boot_val (hv : ValidVals vals) (n : Nat) : (boot vals).view.val n = vals n := by
  have hn := hv n
  simp only [numThreads] at hn
  show toInt (vals n) = vals n
  apply toInt_of_mem <;> omega

theorem boot_waiting (hv : ValidVals vals) : (boot vals).view.Waiting where
  idle := rfl
  ret := by
    intro t c r hu
    cases hu
  waiter := by
    intro o p hp
    cases o <;> cases hp
  nodup := by
    intro o
    cases o <;> exact List.nodup_nil
  val := by
    intro _ n
    have hn := hv n
    simp only [numThreads] at hn
    rw [boot_val hv, show (boot vals).view.waiters (.sem n) = [] from rfl, List.length_nil]
    omega
  blocking := by
    intro t
    constructor
    · intro hb
      cases t <;> cases hb
    · rintro ⟨o, ho, -⟩
      cases ho
  granted := by
    intro t o ho
    cases ho
  unlinked := by
    intro _ t hb
    cases t <;> cases hb

/-- Along every run that meets the conditions, the wait queues are in order. -/
theorem run_waiting (hv : ValidVals vals) (hr : (system vals).Run Clean h s) :
    s.Sound ∧ s.view.Waiting := by
  refine run_view (P := fun _ v => v.Waiting) hr (fun _ _ hg => hg.1) (boot_waiting hv) ?_
  intro h s s' a e hk hf hw hg hst hs
  exact hg.waiting hk hst hw

/-- A thread that has blocked on an object is linked again only by the call that gives the object
back and takes the thread's handle out of the wait queue; a tick links no blocked thread. -/
theorem blocked_until_signalled (hv : ValidVals vals) (hr : (system vals).Run Clean h s)
    (hg : s.Clean a) (hs : s.step a = some (e, s')) :
    (∀ (o : Obj) (t : TaskId), s.pc t = .ret o.waitCall 0 → s.k.runQueue.linked t = false →
      s'.k.runQueue.linked t = true → a = .call o.signalCall ∧
        ∃ l, (s.k.wq o).toList = some t :: l ∧ (s'.k.wq o).toList = l) ∧
    ∀ sp t, a = .tick sp → (s.k.thrds t).state = .BLOCKING →
      s'.k.runQueue.linked t = s.k.runQueue.linked t := by
  obtain ⟨hsound, hw⟩ := run_waiting hv hr
  have hf := (steps_of_step hs).1
  have hst := (step_refines hsound hg.1 hs).2
  refine ⟨?_, ?_⟩
  · intro o t hpc hl hl'
    exact hw.linked_of_blocks hst hg.2.1 (hg.spares hsound hs) hpc hl hl'
  · intro sp t ha hb
    have hl : s.k.runQueue.linked t = false := (hw.unlinked hf t hb).1
    obtain ⟨o, ho, -⟩ := (hw.blocking t).1 hb
    cases hl' : s'.k.runQueue.linked t with
    | false => rw [hl]
    | true =>
        rcases hst.linked hl hl' with ⟨hn, -⟩ | ⟨o, l, -, -, hc | ⟨_, _, _, -, hc, -⟩⟩ | ⟨sp', -, hm⟩
        · rw [hn] at ho
          cases ho
        · rw [ha] at hc
          cases hc
        · rw [ha] at hc
          cases hc
        · exact absurd hm (hg.spares hsound hs sp ha t hb)

/-- A thread that has blocked in `sem_wait` is linked again by `sem_post`, and by no tick before: these
do not come to the deadline that it still has from an earlier wait. -/
theorem blocked_until_signalled_three_threads :
    ∃ h s s', (system fun _ => 0).Run Clean h s ∧
      s.step (.call (.semPost 2)) = some (some ⟨.slot 13, .semPost 2, 0⟩, s') ∧
      s.pc (.slot 15) = .ret (.semWait 2) 0 ∧ s.k.runQueue.linked (.slot 15) = false ∧
      some (.slot 15) ∈ s.k.tWaitqueue.handles ∧ s'.k.runQueue.linked (.slot 15) = true ∧
      (∀ (o : Obj) (t : TaskId), s.pc t = .ret o.waitCall 0 → s.k.runQueue.linked t = false →
        s'.k.runQueue.linked t = true → Action.call (.semPost 2) = .call o.signalCall ∧
          ∃ l, (s.k.wq o).toList = some t :: l ∧ (s'.k.wq o).toList = l) ∧
      ∀ sp t, Action.call (.semPost 2) = .tick sp → (s.k.thrds t).state = .BLOCKING →
        s'.k.runQueue.linked t = s.k.runQueue.linked t := by
  rcases exists_step (fun _ => 0) (G := Clean)
    [.create 1 1, .create 1 1, .create 1 1, .launch, .call (.semTimedwait 0 9), .tick 0,
      .call (.semTimedwait 1 6), .tick 0, .call (.semPost 0), .tick 0, .resume, .call (.semWait 2),
      .tick 0] (.call (.semPost 2))
    (P := fun s => s.Clean (.call (.semPost 2)) ∧ s.pc (.slot 15) = .ret (.semWait 2) 0 ∧
      s.k.runQueue.linked (.slot 15) = false ∧ some (.slot 15) ∈ s.k.tWaitqueue.handles)
    (Q := fun e s' => e = some ⟨.slot 13, .semPost 2, 0⟩ ∧ s'.k.runQueue.linked (.slot 15) = true)
    (by decide +kernel) with ⟨h, s, e, s', hr, ⟨hg, hpc, hl, hm⟩, hs, rfl, hl'⟩
  obtain ⟨h₁, h₂⟩ := blocked_until_signalled (fun _ => Nat.zero_le _) hr hg hs
  exact ⟨h, s, s', hr, hs, hpc, hl, hm, hl', h₁, h₂⟩

/-- `A` waits with a deadline and is signalled early, while the deadline of `B` is at the root of
`t_waitqueue`. `A` blocks in another `sem_wait`; a tick later its old deadline links it. -/
theorem blocked_linked_by_tick :
    ∃ h s, (system fun _ => 0).Run (fun _ _ => True) h s ∧
      s.pc (.slot 15) = .ret (.semWait 2) 0 ∧ (s.k.thrds (.slot 15)).state = .BLOCKING ∧
      s.k.runQueue.linked (.slot 15) = false ∧
      (s.step (.tick 0)).any (fun r => r.2.k.runQueue.linked (.slot 15)) = true :=
  exists_run (fun _ => 0)
    [.create 1 1, .create 1 1, .create 1 1, .launch, .call (.semTimedwait 0 4), .tick 0,
      .call (.semTimedwait 1 2), .tick 0, .call (.semPost 0), .tick 0, .resume, .call (.semWait 2)]
    (by decide +kernel)

end Sys

end MsTos
