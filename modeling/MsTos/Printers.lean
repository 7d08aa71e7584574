-- SUMMARY: The printers of `main.c`: threads that print lines under a timed lock, and what arrives on the UART.
import MsTos.Clients
import MsTos.Formats
import MsTos.MutualExclusion

namespace MsTos

/-! ## Code -/

/-- Where `printer1` or `printer2` stands. -/
inductive PrinterPc where
  | lock
  | locking
  /-- In `uart_printf`, with these bytes still to send. -/
  | print (rest : List Byte)
  | unlock
  | unlocking
  | sleep
  | sleeping
  deriving DecidableEq

/-- What the printers differ in: the timeout of `mtx_timedlock`, and what `uart_printf` sends. -/
structure Printer where
  timeout : SizeT
  line : List Byte

/-- The duration of `thrd_sleep`. -/
def printerTicks : SizeT := ⟨10, by decide⟩

/-- The threads that print, and `uart_mtx`. -/
structure Printers where
  mtx : Nat
  printer : TaskId → Option Printer

/-- Where each of them stands. -/
abbrev PrinterApp := TaskId → PrinterPc

namespace Printer

variable (p : Printer) (m : Nat)

/-- The call that a printer makes next. -/
def next : PrinterPc → Option Call
  | .lock => some (.mtxTimedlock m p.timeout)
  | .unlock => some (.mtxUnlock m)
  | .sleep => some (.thrdSleep printerTicks)
  | _ => none

/-- The call that a printer is in. -/
def pending : PrinterPc → Option Call
  | .locking => some (.mtxTimedlock m p.timeout)
  | .unlocking => some (.mtxUnlock m)
  | .sleeping => some (.thrdSleep printerTicks)
  | _ => none

/-- A printer has made its call. -/
def enter : PrinterPc → PrinterPc
  | .lock => .locking
  | .unlock => .unlocking
  | .sleep => .sleeping
  | pc => pc

/-- The call has returned `r`. -/
def leave (r : Int) : PrinterPc → PrinterPc
  | .locking => if r = 0 then .print p.line else .sleep
  | .unlocking => .sleep
  | .sleeping => .lock
  | pc => pc

end Printer

/-- Every printer tries to lock the mutex, prints its line if it gets it, and sleeps. The other
threads may make any calls. Observed are the bytes on the UART. -/
def Printers.client (P : Printers) : Client PrinterApp Byte where
  calls app t c :=
    match P.printer t with
    | none => true
    | some p => p.next P.mtx (app t) = some c
  code app t :=
    match P.printer t, app t with
    | some _, .print (b :: rest) => some (some b, Function.update app t (.print rest))
    | some _, .print [] => some (none, Function.update app t .unlock)
    | _, _ => none
  enter app t _ :=
    match P.printer t with
    | none => app
    | some _ => Function.update app t (Printer.enter (app t))
  leave app e :=
    match P.printer e.thrd with
    | none => app
    | some p => Function.update app e.thrd (p.leave e.ret (app e.thrd))

/-- `main.c`: what `printer1` and `printer2` send. -/
def printer1 : Printer where
  timeout := ⟨30, by decide⟩
  line := ['h', 'e', 'l', 'l', 'o', '1', '\r', '\n'].map chr

def printer2 : Printer where
  timeout := ⟨50, by decide⟩
  line := ['h', 'e', 'l', 'l', 'o', '2', '\r', '\n'].map chr

/-- A printer sends its line by `uart_printf`, which has no arguments to fetch. -/
example (mem : BitVec 16 → Byte) (a : List (BitVec 16)) :
    uartPrintf mem printer1.line a = some printer1.line ∧
      uartPrintf mem printer2.line a = some printer2.line :=
  ⟨uartPrintf_plain (by decide), uartPrintf_plain (by decide)⟩

/-- What the UART has sent, the first byte first. -/
def sent (h : List (Option Byte)) : List Byte := h.reduceOption.reverse

/-! ## One printer -/

namespace Printer

variable {p : Printer} {m : Nat} {pc : PrinterPc} {c : Call} {r : Int}

theorem pending_enter (h : p.next m pc = some c) : p.pending m (Printer.enter pc) = some c := by
  cases pc <;> first | exact h | cases h

theorem pending_leave : p.pending m (p.leave r pc) = none := by
  cases pc with
  | locking => by_cases hr : r = 0 <;> simp [leave, pending, hr]
  | _ => rfl

/-- The printer has the mutex. -/
def holds : PrinterPc → Bool
  | .print _ | .unlock => true
  | _ => false

/-- What a printer that prints has still to send. -/
def printing : PrinterPc → Option (List Byte)
  | .print rest => some rest
  | _ => none

theorem holds_of_printing {rest : List Byte} (h : printing pc = some rest) : holds pc = true := by
  cases pc <;> first | rfl | cases h

theorem pending_of_holds (h : holds pc = true) : p.pending m pc = none := by
  cases pc <;> first | rfl | cases h

theorem printing_of_not_holds (h : holds pc = false) : printing pc = none := by
  cases pc <;> first | rfl | cases h

theorem printing_of_next (h : p.next m pc = some c) : printing pc = none := by
  cases pc <;> first | rfl | cases h

theorem printing_of_pending (h : p.pending m pc = some c) : printing pc = none := by
  cases pc <;> first | rfl | cases h

theorem holds_enter (h : p.next m pc = some c) : holds (enter pc) = false := by
  cases pc <;> first | rfl | cases h

/-- A call that returns gives the mutex to its caller, or leaves it as it is. -/
theorem leave_cases (hc : p.pending m pc = some c) :
    holds (p.leave r pc) = false ∨
      r = 0 ∧ c = .mtxTimedlock m p.timeout ∧ p.leave r pc = .print p.line := by
  cases pc with
  | locking =>
      cases hc
      by_cases hr : r = 0
      · exact .inr ⟨hr, rfl, if_pos hr⟩
      · exact .inl (by simp [leave, holds, hr])
  | unlocking | sleeping => exact .inl rfl
  | lock | print | unlock | sleep => cases hc

end Printer

/-! ## Steps -/

namespace Printers

variable {P : Printers} {s s' : AppSys PrinterApp} {t u : TaskId} {p : Printer}

/-- A printer that stands at `pc` is in the call that its thread is in, and holds the mutex where it
should. -/
structure Stands (P : Printers) (sys : Sys) (t : TaskId) (p : Printer) (pc : PrinterPc) : Prop where
  idle : p.pending P.mtx pc = none → sys.pc t = .user ∨ sys.pc t = .none
  pending : ∀ c, p.pending P.mtx pc = some c → inCall (sys.pc t) = some c
  held : Printer.holds pc = true → (sys.k.mtxs P.mtx).holder = some t

/-- A printer that prints goes on with its line, and one that does not may begin with it. -/
def Prints (p : Printer) (pc pc' : PrinterPc) : Prop :=
  Printer.printing pc' = Printer.printing pc ∨
    Printer.printing pc = none ∧ pc' = .print p.line

theorem allowed_cases {a : Action} {app : PrinterApp} (hp : P.printer t = some p)
    (h : P.client.allowed s a = some app) :
    (∃ c, a = .call c ∧ s.sys.k.runPtr = some t ∧ p.next P.mtx (s.app t) = some c ∧
        app t = Printer.enter (s.app t)) ∨
      (∀ c, a = .call c → s.sys.k.runPtr ≠ some t) ∧ app t = s.app t := by
  unfold Client.allowed at h
  split at h
  · rename_i c u hr
    obtain ⟨hc, h⟩ := Option.ite_none_right_eq_some.1 h
    cases h
    rcases eq_or_ne t u with rfl | hne
    · unfold client at hc ⊢
      simp only [hp, decide_eq_true_eq] at hc ⊢
      exact .inl ⟨c, rfl, hr, hc, Function.update_self _ _ _⟩
    · refine .inr ⟨fun _ _ => by rw [hr]; simpa using hne.symm, ?_⟩
      cases hu : P.printer u with
      | none => simp only [client, hu]
      | some q =>
          simp only [client, hu]
          exact Function.update_of_ne hne _ _
  · rename_i hn
    cases h
    refine .inr ⟨?_, rfl⟩
    rintro c rfl hr
    exact hn c t rfl hr

theorem returned_event {app : PrinterApp} {e : Event} (hp : P.printer e.thrd = some p) :
    P.client.returned app (some e) e.thrd = p.leave e.ret (app e.thrd) := by
  unfold Client.returned client
  simp [hp]

theorem returned_of_ne {app : PrinterApp} {e : Option Event}
    (he : ∀ ev, e = some ev → ev.thrd ≠ t) : P.client.returned app e t = app t := by
  cases e with
  | none => rfl
  | some e =>
      cases hu : P.printer e.thrd with
      | none => simp only [Client.returned, client, hu]
      | some q =>
          simp only [Client.returned, client, hu]
          exact Function.update_of_ne (he e rfl).symm _ _

/-- A call of a printer has returned. -/
theorem stands_of_event {app : PrinterApp} {c : Call} {r : Int} {a : Action} {sys : Sys}
    (hp : P.printer t = some p) (hst : s.sys.view.Step a (some ⟨t, c, r⟩) sys.view)
    (hw : s.sys.view.Waiting) (hk : s.sys.view.Holding) (hf : s.sys.k.fault = false)
    (hu : sys.pc t = .user) (hc : p.pending P.mtx (app t) = some c)
    (hn : Printer.printing (s.app t) = none) :
    P.Stands sys t p (P.client.returned app (some ⟨t, c, r⟩) t) ∧
      Prints p (s.app t) (P.client.returned app (some ⟨t, c, r⟩) t) := by
  have hleave := Printer.leave_cases (r := r) hc
  rw [show P.client.returned app (some ⟨t, c, r⟩) t = p.leave r (app t) from returned_event hp]
  refine ⟨⟨fun _ => .inl hu, fun c' hc' => ?_, fun hh => ?_⟩, ?_⟩
  · rw [Printer.pending_leave] at hc'
    cases hc'
  · rcases hleave with hnot | ⟨rfl, rfl, -⟩
    · rw [hnot] at hh
      cases hh
    · exact hst.acquired hw hk hf rfl (by simp [acquires])
  · rcases hleave with hnot | ⟨-, -, hl⟩
    · exact .inl ((Printer.printing_of_not_holds hnot).trans hn.symm)
    · exact .inr ⟨hn, hl⟩

/-- What a step of the kernel means to a printer. -/
theorem Stands.kernel {a : Action} {app : PrinterApp} {e : Option Event} {sys : Sys}
    (h : P.Stands s.sys t p (s.app t)) (hp : P.printer t = some p)
    (ha : P.client.allowed s a = some app) (hst : s.sys.view.Step a e sys.view)
    (hw : s.sys.view.Waiting) (hk : s.sys.view.Holding) (hf : s.sys.k.fault = false)
    (hg : s.sys.view.TriesFree a) :
    P.Stands sys t p (P.client.returned app e t) ∧
      Prints p (s.app t) (P.client.returned app e t) := by
  have hkeeps : (∀ ev, e = some ev → ev.thrd ≠ t) → Printer.holds (s.app t) = true →
      (sys.k.mtxs P.mtx).holder = some t := by
    intro he hh
    rcases (hst.holderStep P.mtx).unlocks hg (h.held hh) with hh' | he'
    · exact hh'
    · exact absurd rfl (he _ he')
  -- a thread that is in a call is not a printer in its own code
  have hbusy : ∀ c, inCall (s.sys.pc t) = some c → p.pending P.mtx (s.app t) = some c := by
    intro c hc
    cases hpd : p.pending P.mtx (s.app t) with
    | none =>
        rcases h.idle hpd with hi | hi <;>
          · rw [hi] at hc
            cases hc
    | some c' => rw [← hc, h.pending c' hpd]
  have happ := allowed_cases hp ha
  have hmoves := hst.moves t
  cases hmoves with
  | stays hna he hpc =>
      rcases happ with ⟨c, rfl, hr, -⟩ | ⟨-, happ⟩
      · exact absurd hr (hna c rfl)
      have hpc : sys.pc t = s.sys.pc t := hpc
      rw [returned_of_ne he, happ]
      refine ⟨⟨fun hn => ?_, fun c hc => ?_, hkeeps he⟩, .inl rfl⟩
      · rw [hpc]
        exact h.idle hn
      · rw [hpc]
        exact h.pending c hc
  | starts hna he hpc hpc' =>
      rcases happ with ⟨c, rfl, hr, -⟩ | ⟨-, happ⟩
      · exact absurd hr (hna c rfl)
      have hpc : s.sys.pc t = .none := hpc
      rw [returned_of_ne he, happ]
      refine ⟨⟨fun _ => .inl hpc', fun c hc => ?_, hkeeps he⟩, .inl rfl⟩
      have := h.pending c hc
      rw [hpc] at this
      cases this
  | enters c hr _ hc' =>
      rcases happ with ⟨c₁, hc₁, -, hnext, happ⟩ | ⟨hna, -⟩
      · cases hc₁
        have hpd := Printer.pending_enter hnext
        rw [show P.client.returned app none t = app t from rfl, happ]
        refine ⟨⟨fun hn => ?_, fun c' hc => ?_, fun hh => ?_⟩, .inl ?_⟩
        · rw [hpd] at hn
          cases hn
        · cases hpd.symm.trans hc
          exact hc'
        · rw [Printer.holds_enter hnext] at hh
          cases hh
        · rw [Printer.printing_of_next hnext,
            Printer.printing_of_not_holds (Printer.holds_enter hnext)]
      · exact absurd hr (hna c rfl)
  | returnsAtOnce c r hr _ hu =>
      rcases happ with ⟨c₁, hc₁, -, hnext, happ⟩ | ⟨hna, -⟩
      · cases hc₁
        exact stands_of_event hp hst hw hk hf hu (happ ▸ Printer.pending_enter hnext)
          (Printer.printing_of_next hnext)
      · exact absurd hr (hna c rfl)
  | exits r hr _ _ =>
      rcases happ with ⟨c₁, hc₁, -, hnext, -⟩ | ⟨hna, -⟩
      · cases hc₁
        cases hpc : s.app t <;> rw [hpc] at hnext <;> cases hnext
      · exact absurd hr (hna _ rfl)
  | goesOn c _ hc hc' =>
      rcases happ with ⟨c₁, hc₁, -⟩ | ⟨-, happ⟩
      · cases hc₁
      have hpd := hbusy c hc
      rw [show P.client.returned app none t = app t from rfl, happ]
      refine ⟨⟨fun hn => ?_, fun c' hc₁ => ?_, fun hh => ?_⟩, .inl rfl⟩
      · rw [hpd] at hn
        cases hn
      · cases hpd.symm.trans hc₁
        exact hc'
      · rw [Printer.pending_of_holds hh] at hpd
        cases hpd
  | returns c r _ hc hu =>
      rcases happ with ⟨c₁, hc₁, -⟩ | ⟨-, happ⟩
      · cases hc₁
      have hpd := hbusy c hc
      exact stands_of_event hp hst hw hk hf hu (happ ▸ hpd) (Printer.printing_of_pending hpd)
  | dies _ hpc _ =>
      have hpc : s.sys.pc t = .kill := hpc
      cases hpd : p.pending P.mtx (s.app t) with
      | none => rcases h.idle hpd with hi | hi <;> cases hpc.symm.trans hi
      | some c =>
          have := h.pending c hpd
          rw [hpc] at this
          cases this

/-- The printer that prints holds the mutex, and so it is the only one. -/
theorem eq_of_holds {sys : Sys} {q : Printer} {pc pc' : PrinterPc} (ht : P.Stands sys t p pc)
    (hu : P.Stands sys u q pc') (h : Printer.holds pc = true) (h' : Printer.holds pc' = true) :
    t = u :=
  Option.some.inj ((ht.held h).symm.trans (hu.held h'))

theorem code_of_printing (hp : P.printer t = some p) {app : PrinterApp} {e : Option Byte}
    (h : P.client.code s.app t = some (e, app)) :
    (∃ b rest, s.app t = .print (b :: rest) ∧ e = some b ∧
        app = Function.update s.app t (.print rest)) ∨
      s.app t = .print [] ∧ e = none ∧ app = Function.update s.app t .unlock := by
  cases hpc : s.app t with
  | print rest =>
      cases rest with
      | nil =>
          simp only [client, hp, hpc, Option.some.injEq, Prod.mk.injEq] at h
          exact .inr ⟨rfl, h.1.symm, h.2.symm⟩
      | cons b rest =>
          simp only [client, hp, hpc, Option.some.injEq, Prod.mk.injEq] at h
          exact .inl ⟨b, rest, rfl, h.1.symm, h.2.symm⟩
  | _ =>
      simp only [client, hp, hpc] at h
      cases h

theorem isSome_of_code {r : Option Byte × PrinterApp} (h : P.client.code s.app t = some r) :
    ∃ p, P.printer t = some p := by
  cases hp : P.printer t with
  | none =>
      simp only [client, hp] at h
      cases h
  | some p => exact ⟨p, rfl⟩

/-! ## What is sent -/

/-- The lines of printers, one after the other, and then what the printer that prints has sent of
its own. -/
def Whole (P : Printers) (app : PrinterApp) (out : List Byte) : Prop :=
  ∃ (ps : List Printer) (part : List Byte), out = ps.flatMap Printer.line ++ part ∧
    (∀ p ∈ ps, ∃ t, P.printer t = some p) ∧
    (∀ t p rest, P.printer t = some p → Printer.printing (app t) = some rest →
      part ++ rest = p.line) ∧
    (part = [] ∨ ∃ t p rest, P.printer t = some p ∧ Printer.printing (app t) = some rest)

theorem sent_none (h : List (Option Byte)) : sent (none :: h) = sent h := rfl

theorem sent_some (b : Byte) (h : List (Option Byte)) : sent (some b :: h) = sent h ++ [b] := by
  unfold sent
  rw [List.reduceOption_cons_of_some, List.reverse_cons]

variable {out : List Byte}

/-- Of the printers that go on, none begins with its line while another one prints. -/
theorem Whole.kernel {sys : Sys} {app' : PrinterApp} (h : P.Whole s.app out)
    (hs : ∀ t p, P.printer t = some p → P.Stands sys t p (app' t))
    (hp : ∀ t p, P.printer t = some p → Prints p (s.app t) (app' t)) : P.Whole app' out := by
  obtain ⟨ps, part, hout, hps, hrest, hpart⟩ := h
  refine ⟨ps, part, hout, hps, ?_, ?_⟩
  · intro t p rest ht hpr
    rcases hp t p ht with hsame | ⟨hn, hl⟩
    · exact hrest t p rest ht (hsame.symm.trans hpr)
    · rw [hl] at hpr
      cases hpr
      rcases hpart with rfl | ⟨u, q, rest, hu, hur⟩
      · exact List.nil_append _
      · rcases hp u q hu with hsame | ⟨hn', -⟩
        · have htu : t = u := eq_of_holds (hs t p ht) (hs u q hu) (by rw [hl]; rfl)
            (Printer.holds_of_printing (hsame.trans hur))
          rw [← htu, hn] at hur
          cases hur
        · rw [hn'] at hur
          cases hur
  · refine hpart.imp_right fun ⟨t, p, rest, ht, hr⟩ => ⟨t, p, rest, ht, ?_⟩
    rcases hp t p ht with hsame | ⟨hn, -⟩
    · exact hsame.trans hr
    · rw [hn] at hr
      cases hr

/-- The other printers do not print. -/
theorem printing_update (hs : ∀ t p, P.printer t = some p → P.Stands s.sys t p (s.app t))
    (ht : P.printer t = some p) (hh : Printer.holds (s.app t) = true) {pc : PrinterPc} {q : Printer}
    {rest : List Byte} (hu : P.printer u = some q)
    (hr : Printer.printing (Function.update s.app t pc u) = some rest) :
    u = t ∧ Printer.printing pc = some rest := by
  by_cases hne : u = t
  · subst hne
    rw [Function.update_self] at hr
    exact ⟨rfl, hr⟩
  · rw [Function.update_of_ne hne] at hr
    exact absurd (eq_of_holds (hs u q hu) (hs t p ht) (Printer.holds_of_printing hr) hh) hne

theorem Whole.code {app : PrinterApp} {e : Option Byte} {h : List (Option Byte)}
    (hw : P.Whole s.app (sent h))
    (hs : ∀ t p, P.printer t = some p → P.Stands s.sys t p (s.app t))
    (ht : P.printer t = some p) (hc : P.client.code s.app t = some (e, app)) :
    P.Whole app (sent (e :: h)) := by
  obtain ⟨ps, part, hout, hps, hrest, -⟩ := hw
  rcases code_of_printing ht hc with ⟨b, rest, hpc, rfl, rfl⟩ | ⟨hpc, rfl, rfl⟩
  · have hh : Printer.holds (s.app t) = true := by rw [hpc]; rfl
    have hline : part ++ b :: rest = p.line := hrest t p _ ht (by rw [hpc]; rfl)
    refine ⟨ps, part ++ [b], ?_, hps, ?_, .inr ⟨t, p, rest, ht, ?_⟩⟩
    · rw [sent_some, hout, List.append_assoc]
    · intro u q rest' hu hr
      obtain ⟨rfl, hr'⟩ := printing_update hs ht hh hu hr
      cases hu.symm.trans ht
      cases hr'
      rw [← hline, List.append_assoc]
      rfl
    · rw [Function.update_self]
      rfl
  · -- the line is complete
    have hh : Printer.holds (s.app t) = true := by rw [hpc]; rfl
    have hline : part ++ [] = p.line := hrest t p _ ht (by rw [hpc]; rfl)
    refine ⟨ps ++ [p], [], ?_, ?_, ?_, .inl rfl⟩
    · rw [sent_none, hout, List.flatMap_append, List.flatMap_singleton, ← hline]
      simp only [List.append_nil]
    · intro q hq
      rcases List.mem_append.1 hq with hq | hq
      · exact hps q hq
      · cases List.mem_singleton.1 hq
        exact ⟨t, ht⟩
    · intro u q rest hu hr
      cases (printing_update hs ht hh hu hr).2

theorem Stands.code {app : PrinterApp} {e : Option Byte} {q : Printer}
    (h : P.Stands s.sys u q (s.app u)) (ht : P.printer t = some p)
    (hpc : s.sys.pc t = .user) (hc : P.client.code s.app t = some (e, app)) :
    P.Stands s.sys u q (app u) := by
  have hown : ∀ {rest pc}, s.app t = .print rest → (pc = .unlock ∨ ∃ rest, pc = .print rest) →
      P.Stands s.sys u q (Function.update s.app t pc u) := by
    intro rest pc happ hpr
    by_cases hne : u = t
    · subst hne
      have hpd : q.pending P.mtx pc = none := by rcases hpr with rfl | ⟨rest, rfl⟩ <;> rfl
      rw [Function.update_self]
      refine ⟨fun _ => .inl hpc, fun c hc => ?_, fun _ => h.held (by rw [happ]; rfl)⟩
      rw [hpd] at hc
      cases hc
    · rw [Function.update_of_ne hne]
      exact h
  rcases code_of_printing ht hc with ⟨b, rest, happ, -, rfl⟩ | ⟨happ, -, rfl⟩
  · exact hown happ (.inr ⟨rest, rfl⟩)
  · exact hown happ (.inl rfl)

/-! ## Runs -/

variable {vals : Nat → Nat} {h : List (Option Byte)}

theorem run_whole (hv : ValidVals vals)
    (hr : (P.client.system vals fun _ => .lock).Run (AppSys.OnKernel Sys.MutexGuard) h s) :
    (∀ t p, P.printer t = some p → P.Stands s.sys t p (s.app t)) ∧ P.Whole s.app (sent h) := by
  induction hr with
  | init hi =>
      obtain rfl := hi
      refine ⟨fun t p _ => ⟨fun _ => .inr rfl, fun c hc => ?_, fun hh => ?_⟩, [], [], rfl, ?_, ?_,
        .inl rfl⟩
      · cases hc
      · cases hh
      · intro p hp
        cases hp
      · intro t p rest _ hr
        cases hr
  | @step h s s' a e hr hg hs ih =>
      obtain ⟨hstands, hwhole⟩ := ih
      cases a with
      | kernel a =>
          obtain ⟨rfl, app, ev, ha, hst, happ⟩ := AppSys.step_kernel hs
          obtain ⟨_, hk⟩ := AppSys.run_sys hr
          obtain ⟨hsound, hw, hh, -⟩ := Sys.run_holding hv hk
          have hf := (Sys.steps_of_step hst).1
          have hst := (Sys.step_refines hsound hg.1.1 hst).2
          have hboth := fun t p (hp : P.printer t = some p) =>
            (hstands t p hp).kernel hp ha hst hw hh hf hg.2
          rw [happ]
          exact ⟨fun t p hp => (hboth t p hp).1,
            hwhole.kernel (fun t p hp => (hboth t p hp).1) fun t p hp => (hboth t p hp).2⟩
      | code =>
          obtain ⟨hsys, t, hrun, hpc, hc⟩ := AppSys.step_code hs
          obtain ⟨p, hp⟩ := isSome_of_code hc
          rw [hsys]
          exact ⟨fun u q hu => (hstands u q hu).code hp hpc hc, hwhole.code hstands hp hc⟩

/-- The UART sends whole lines. Only the printer that holds the mutex may have sent a part of its
line after them. -/
theorem lines_whole (hv : ValidVals vals)
    (hr : (P.client.system vals fun _ => .lock).Run (AppSys.OnKernel Sys.MutexGuard) h s) :
    ∃ (ps : List Printer) (part : List Byte), sent h = ps.flatMap Printer.line ++ part ∧
      (∀ p ∈ ps, ∃ t, P.printer t = some p) ∧
      (part = [] ∨ ∃ t p, P.printer t = some p ∧ (s.sys.k.mtxs P.mtx).holder = some t ∧
        ∃ rest, s.app t = .print rest ∧ part ++ rest = p.line) := by
  obtain ⟨hstands, ps, part, hout, hps, hrest, hpart⟩ := run_whole hv hr
  refine ⟨ps, part, hout, hps, hpart.imp_right ?_⟩
  rintro ⟨t, p, rest, ht, hpr⟩
  refine ⟨t, p, ht, (hstands t p ht).held (Printer.holds_of_printing hpr), rest, ?_,
    hrest t p rest ht hpr⟩
  cases hpc : s.app t with
  | print _ =>
      rw [hpc] at hpr
      cases hpr
      rfl
  | _ =>
      rw [hpc] at hpr
      cases hpr

/-- `printer2` waits until `printer1` has sent its line, and begins with its own. -/
theorem lines_whole_two_printers :
    ∃ h s, ((Printers.client ⟨0, fun t => if t = .slot 15 then some printer1 else
          if t = .slot 14 then some printer2 else none⟩).system (fun _ => 0) fun _ => .lock).Run
        (AppSys.OnKernel Sys.MutexGuard) h s ∧
      sent h = printer1.line ++ ['h', 'e', 'l'].map chr ∧
      ∃ (ps : List Printer) (part : List Byte), sent h = ps.flatMap Printer.line ++ part ∧
        (part = [] ∨ ∃ (t : TaskId) (p : Printer), (s.sys.k.mtxs 0).holder = some t ∧ ∃ rest,
          s.app t = .print rest ∧ part ++ rest = p.line) := by
  rcases TransitionSystem.exists_run_of_exec
    (M := (Printers.client ⟨0, fun t => if t = .slot 15 then some printer1 else
      if t = .slot 14 then some printer2 else none⟩).system (fun _ => 0) fun _ => .lock)
    (G := AppSys.OnKernel Sys.MutexGuard) rfl
    ([.create 1 1, .create 1 2, .launch, .call (.mtxTimedlock 0 30), .resume].map .kernel ++
      [.code, .code, .code] ++
      [.tick 0, .call (.mtxTimedlock 0 50), .tick 0].map .kernel ++
      [.code, .code, .code, .code, .code, .code, .kernel (.call (.mtxUnlock 0))] ++
      [.call (.thrdSleep 10), .resume, .tick 0, .resume].map .kernel ++ [.code, .code, .code])
    (P := fun h _ => sent h = printer1.line ++ ['h', 'e', 'l'].map chr) (by decide +kernel)
    with ⟨h, s, hr, hsent⟩
  obtain ⟨ps, part, hout, -, hpart⟩ := lines_whole (fun _ => Nat.zero_le _) hr
  exact ⟨h, s, hr, hsent, ps, part, hout, hpart.imp_right fun ⟨t, p, _, hh, hrest⟩ =>
    ⟨t, p, hh, hrest⟩⟩

end Printers

end MsTos
