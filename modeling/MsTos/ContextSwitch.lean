-- SUMMARY: The context switch of `krnl_swtch.asm` and the initial stack of `thread.c`.
import MsTos.Cpu
import MsTos.Thread

namespace MsTos

/-- The bytes of a `thrd_t` that make up its context: `sp`, the stack and `ret_addr`. -/
abbrev contextSize : Nat := 2 + stackSize + 2

/-- Where the linker puts what the context switch uses. -/
structure Layout where
  /-- The address of a control block, which starts with `sp`. -/
  tcb : TaskId → Nat
  runPtr : Nat
  osSp : Nat
  ta0ctl : Nat
  wdtctl : Nat
  sfrie1 : Nat
  /-- The address of `os_tick`, in the vector of the watchdog timer. -/
  osTick : Word
  thrdExit : Word
  /-- Where `hw_stackframe_init` returns to in `os_syscall`. -/
  osSyscallBack : Word
  /-- Where `os_tick_init` returns to in `os_start`. -/
  osStartBack : Word
  tcb_ne : ∀ t, tcb t ≠ 0
  tcb_lt : ∀ t, tcb t + contextSize < 65536
  apart : ∀ t u, t ≠ u → tcb t + contextSize ≤ tcb u ∨ tcb u + contextSize ≤ tcb t
  /-- No variable lies in a control block. -/
  outside : ∀ a ∈ [runPtr, osSp, ta0ctl, wdtctl, sfrie1], ∀ t, a < tcb t ∨ tcb t + contextSize ≤ a
  runPtr_ne : ∀ a ∈ [osSp, ta0ctl, wdtctl, sfrie1], a ≠ runPtr

namespace Layout

/-- The addresses of the context of a thread. -/
def InBlock (L : Layout) (t : TaskId) (a : Nat) : Prop := L.tcb t ≤ a ∧ a < L.tcb t + contextSize

theorem tcb_inBlock {L : Layout} {t : TaskId} : L.InBlock t (L.tcb t) :=
  ⟨Nat.le_refl _, Nat.lt_add_of_pos_right (by decide)⟩

/-- `&this->ret_addr`, just behind the stack. -/
def retAddr (L : Layout) (t : TaskId) : Nat := L.tcb t + 2 + stackSize

theorem retAddr_inBlock {L : Layout} {t : TaskId} : L.InBlock t (L.retAddr t) := by
  unfold InBlock retAddr contextSize
  omega

theorem InBlock.not_inBlock {L : Layout} {t u : TaskId} {a : Nat} (h : L.InBlock t a)
    (hne : t ≠ u) : ¬ L.InBlock u a := by
  intro h'
  obtain ⟨hl, hr⟩ := h
  obtain ⟨hl', hr'⟩ := h'
  rcases L.apart t u hne with hlt | hlt <;> omega

theorem tcb_toNat (L : Layout) (t : TaskId) : (BitVec.ofNat 16 (L.tcb t)).toNat = L.tcb t := by
  have h := L.tcb_lt t
  rw [BitVec.toNat_ofNat]
  exact Nat.mod_eq_of_lt (by omega)

theorem retAddr_toNat (L : Layout) (t : TaskId) :
    (BitVec.ofNat 16 (L.retAddr t)).toNat = L.retAddr t := by
  have h := L.tcb_lt t
  have hb := (retAddr_inBlock (L := L) (t := t)).2
  rw [BitVec.toNat_ofNat]
  exact Nat.mod_eq_of_lt (by omega)

end Layout

/-! ## The initial stack (`thread.c`) -/

/-- `memset(a, 0, n)`. -/
def memset (mem : Nat → Word) (a n : Nat) : Nat → Word :=
  fun x => if a ≤ x ∧ x < a + n then 0 else mem x

/-- `hw_stackframe_init` of a frame at `a`. -/
def hwStackframeInit (mem : Nat → Word) (a : Nat) (pc sr : Word) : Nat → Word :=
  let mem := Function.update mem (a + 2) (pc &&& 0xFFFF)
  Function.update mem a (sr &&& 0xFF)

/-- `sw_stackframe_init` of a frame at `a`. -/
def swStackframeInit (mem : Nat → Word) (a : Nat) (arg : Word) : Nat → Word :=
  Function.update (memset mem a 24) (a + 16) arg

/-- `thrd_stack_init` of the control block at `this`. -/
def thrdStackInit (mem : Nat → Word) (this : Nat) (pc arg : Word) : Int × (Nat → Word) :=
  if this = 0 then (-1, mem)
  else if pc = 0 then (-1, mem)
  else
    let mem := memset mem (this + 2) stackSize
    let stackBase := this + 2 + stackSize
    let hwSfStart := stackBase - 4
    let swSfStart := stackBase - (4 + 24)
    let mem := hwStackframeInit mem hwSfStart pc gie
    let mem := swStackframeInit mem swSfStart arg
    (0, Function.update mem this (BitVec.ofNat 16 swSfStart))

/-- `thrd_init`, as far as the context is concerned. -/
def thrdInitContext (L : Layout) (mem : Nat → Word) (t : TaskId) (routine arg : Word) :
    Int × (Nat → Word) :=
  let (status, mem) := thrdStackInit mem (L.tcb t) routine arg
  if status < 0 then (status, mem)
  else (status, Function.update mem (L.tcb t + 2 + stackSize) L.thrdExit)

@[simp] theorem gie_byte : gie &&& 0xFF = gie := by decide

theorem hwStackframeInit_stored (mem : Nat → Word) (a : Nat) (pc sr : Word) :
    Stored 2 (hwStackframeInit mem a pc sr) a [sr &&& 0xFF, pc &&& 0xFFFF] := by
  refine ⟨Function.update_self .., ?_, trivial⟩
  exact (Function.update_of_ne (by omega) ..).trans (Function.update_self ..)

theorem hwStackframeInit_of_lt {mem : Nat → Word} {a x : Nat} (hx : x < a ∨ a + 4 ≤ x)
    (pc sr : Word) : hwStackframeInit mem a pc sr x = mem x :=
  (Function.update_of_ne (by omega) ..).trans (Function.update_of_ne (by omega) ..)

theorem swStackframeInit_stored (mem : Nat → Word) (a : Nat) (arg : Word) :
    Stored 2 (swStackframeInit mem a arg) a
      (Reg.all.map fun r => if r = .r12 then arg else 0) := by
  simp [Stored, Reg.all, swStackframeInit, memset, Function.update, Nat.add_assoc]

theorem swStackframeInit_of_lt {mem : Nat → Word} {a x : Nat} (hx : x < a ∨ a + 24 ≤ x)
    (arg : Word) : swStackframeInit mem a arg x = mem x :=
  (Function.update_of_ne (by omega) ..).trans (if_neg (by omega))

/-! ## The context switch (`krnl_swtch.asm`) -/

namespace Machine

def save (L : Layout) (m : Machine) : Machine :=
  let m := m.pushm
  let m := m.mov .r15 (m.mem L.runPtr)
  m.store (m.reg .r15).toNat m.sp

def restore (L : Layout) (m : Machine) : Machine :=
  let m := m.mov .r15 (m.mem L.runPtr)
  let m := { m with sp := m.mem (m.reg .r15).toNat }
  m.popm

def profileStart (L : Layout) (m : Machine) : Machine :=
  let m := m.store L.ta0ctl 0x004
  m.store L.ta0ctl 0x220

def profileEnd (L : Layout) (m : Machine) : Machine := m.store L.ta0ctl 0

/-- The first instructions of `os_tick`, up to the calls of `os_update` and `os_schedule`. -/
def osTickEnter (L : Layout) (m : Machine) : Machine :=
  let m := m.interrupt L.osTick
  let m := m.profileStart L
  m.save L

/-- The last instructions of `os_tick`. -/
def osTickEnd (L : Layout) (m : Machine) : Machine :=
  let m := m.profileEnd L
  let m := m.store m.sp.toNat (m.mem m.sp.toNat &&& ~~~cpuOff)
  m.reti

/-- The rest of `os_tick`. -/
def osTickLeave (L : Layout) (m : Machine) : Machine := (m.restore L).osTickEnd L

/-- `os_tick`, for what the calls of `os_update` and `os_schedule` do. -/
def osTick (L : Layout) (osUpdate osSchedule : Machine → Machine) (m : Machine) : Machine :=
  let m := m.osTickEnter L
  let m := osUpdate m
  let m := osSchedule m
  m.osTickLeave L

/-- The flags of the arithmetic instructions are not modelled. -/
def osSyscall (L : Layout) (m : Machine) : Machine :=
  let m := { m with sp := m.sp - 4 }
  let m := m.push (m.reg .r12)
  let m := m.push (m.reg .r13)
  let m := m.push (m.reg .r14)
  let m := m.mov .r12 m.sp
  let m := m.mov .r12 (m.reg .r12 + 6)
  let m := m.mov .r13 (m.mem (m.reg .r12 + 4).toNat)
  let m := m.mov .r14 m.sr
  let m := m.call L.osSyscallBack fun m =>
    { m with mem := hwStackframeInit m.mem (m.reg .r12).toNat (m.reg .r13) (m.reg .r14) }
  let m := m.pop .r14
  let m := m.pop .r13
  m.pop .r12

def osPreinit (L : Layout) (m : Machine) : Machine :=
  let m := m.osSyscall L
  let m := m.pushm
  m.store L.osSp m.sp

/-- `os_tick_init`, which is compiled to code that uses no register. -/
def osTickInit (L : Layout) (m : Machine) : Machine :=
  m.call L.osStartBack fun m =>
    let m := m.store L.wdtctl 0x5A3F
    m.store L.sfrie1 (m.mem L.sfrie1 ||| 0x0001)

/-- The last instructions of `os_start`, after the call of `os_first_task`. -/
def osStartLeave (L : Layout) (m : Machine) : Machine :=
  let m := m.restore L
  let m := m.osTickInit L
  m.reti

/-- `os_start`, for what the call of `os_first_task` does. -/
def osStart (L : Layout) (osFirstTask : Machine → Machine) (m : Machine) : Machine :=
  let m := m.osPreinit L
  let m := osFirstTask m
  m.osStartLeave L

end Machine

/-! ## Saved contexts -/

/-- The context `c` of `t` lies on its stack, and its control block points at it. -/
structure Saved (L : Layout) (mem : Nat → Word) (t : TaskId) (c : Context) : Prop where
  lower : L.tcb t + 2 + 28 ≤ c.sp.toNat
  upper : c.sp.toNat ≤ L.tcb t + contextSize
  sp : mem (L.tcb t) = c.sp - 28
  frame : Stored 2 mem (c.sp.toNat - 28) c.frame

variable {L : Layout} {mem mem' : Nat → Word} {t : TaskId} {c : Context}

@[simp] theorem Context.frame_length (c : Context) : c.frame.length = 14 := by
  simp [Context.frame, Reg.all]

/-- The context is what lies from the saved stack pointer on, and that stack pointer. -/
theorem Saved.congr (h : Saved L mem t c) (hsp : mem' (L.tcb t) = mem (L.tcb t))
    (hm : ∀ x, c.sp.toNat - 28 ≤ x → x < c.sp.toNat → mem' x = mem x) : Saved L mem' t c := by
  have hl := h.lower
  refine ⟨hl, h.upper, hsp.trans h.sp, h.frame.congr ?_ (by decide)⟩
  intro x hx hlt
  rw [Context.frame_length] at hlt
  exact hm x hx (by omega)

theorem Saved.congr_block (h : Saved L mem t c) (hm : ∀ x, L.InBlock t x → mem' x = mem x) :
    Saved L mem' t c := by
  have hl := h.lower
  have hu := h.upper
  have hsize : 0 < contextSize := by decide
  refine h.congr (hm _ ⟨Nat.le_refl _, by omega⟩) ?_
  intro x hx hlt
  exact hm x ⟨by omega, by omega⟩

/-- The frame lies in the control block, below `ret_addr`. -/
theorem Saved.inBlock (h : Saved L mem t c) {n : Nat} (hn : 2 < n) (hle : n ≤ 28) :
    L.InBlock t (c.sp.toNat - n) ∧ L.retAddr t ≠ c.sp.toNat - n := by
  have hl := h.lower
  have hu := h.upper
  have hsize : contextSize = 2 + stackSize + 2 := rfl
  unfold Layout.InBlock Layout.retAddr
  omega

/-- What a thread finds when it is resumed. -/
def Context.resumed (c : Context) : Context := { c with sr := c.sr &&& ~~~cpuOff }

namespace Machine

variable {m : Machine}

theorem outside_ne {a : Nat} (ha : a ∈ [L.runPtr, L.osSp, L.ta0ctl, L.wdtctl, L.sfrie1]) {x : Nat}
    (hx : L.InBlock t x) : x ≠ a := by
  rintro rfl
  have hlo := hx.1
  have hhi := hx.2
  rcases L.outside x ha t with h | h <;> omega

theorem ta0ctl_ne {x : Nat} (hx : L.InBlock t x) : x ≠ L.ta0ctl := outside_ne (by simp) hx

theorem runPtr_ne {x : Nat} (hx : L.InBlock t x) : x ≠ L.runPtr := outside_ne (by simp) hx

/-- The CPU pushes the program counter and the status register. -/
theorem interrupt_stored (hsp : 4 ≤ m.sp.toNat) (vector : Word) :
    Pushed 4 m (m.interrupt vector) ∧
      Stored 2 (m.interrupt vector).mem (m.interrupt vector).sp.toNat [m.sr, m.pc] := by
  have h₁ := pushed_push (m := m) (by omega) m.pc
  have hs₁ := h₁.sp
  have h₂ := pushed_push (m := m.push m.pc) (by omega) m.sr
  have hnil : Stored 2 m.mem m.sp.toNat [] := trivial
  have hst := push_stored hnil (by omega) m.pc
  have h := h₁.trans h₂
  exact ⟨⟨h.reg, h.sp, h.mem⟩, push_stored hst (by omega) m.sr⟩

/-- The entry of `os_tick` saves the context of the thread that it interrupts. -/
theorem osTickEnter_saved (hrun : m.mem L.runPtr = BitVec.ofNat 16 (L.tcb t))
    (hl : L.tcb t + 2 + 28 ≤ m.sp.toNat) (hu : m.sp.toNat ≤ L.tcb t + contextSize) :
    Saved L (m.osTickEnter L).mem t m.context ∧
      (m.osTickEnter L).sp.toNat + 28 = m.sp.toNat ∧
      (m.osTickEnter L).mem L.runPtr = m.mem L.runPtr ∧
      ∀ x, x ≠ L.tcb t → x ≠ L.ta0ctl → x < m.sp.toNat - 28 ∨ m.sp.toNat ≤ x →
        (m.osTickEnter L).mem x = m.mem x := by
  obtain ⟨h₁, hst₁⟩ := m.interrupt_stored (by omega) L.osTick
  have hs₁ := h₁.sp
  generalize hm₁ : m.interrupt L.osTick = m₁ at h₁ hst₁ hs₁
  -- the profiler is in no thread's memory
  have hprof : ∀ x, x ≠ L.ta0ctl → (m₁.profileStart L).mem x = m₁.mem x := by
    intro x hx
    exact (Function.update_of_ne hx ..).trans (Function.update_of_ne hx ..)
  have hst₂ : Stored 2 (m₁.profileStart L).mem (m₁.profileStart L).sp.toNat [m.sr, m.pc] := by
    refine hst₁.congr ?_ (by decide)
    intro x hx hlt
    have hlt' : x < m₁.sp.toNat + 4 := hlt
    exact hprof x (ta0ctl_ne (t := t) ⟨by omega, by omega⟩)
  generalize hm₂ : m₁.profileStart L = m₂ at hprof hst₂
  have hsp₂ : m₂.sp = m₁.sp := by
    rw [← hm₂]
    rfl
  have hreg₂ : m₂.reg = m.reg := by
    rw [← hm₂]
    exact h₁.reg
  obtain ⟨h₃, hst₃⟩ := pushm_stored (m := m₂) hst₂ (by rw [hsp₂]; omega)
  have hs₃ := h₃.sp
  rw [hsp₂] at hs₃
  rw [hreg₂] at hst₃
  have hmem : ∀ x, x ≠ L.ta0ctl → x < m.sp.toNat - 28 ∨ m.sp.toNat ≤ x →
      m₂.pushm.mem x = m.mem x := by
    intro x hx ho
    rw [h₃.mem x (by rw [hsp₂]; omega), hprof x hx, h₁.mem x (by omega)]
  have hptr : m₂.pushm.mem L.runPtr = m.mem L.runPtr := by
    apply hmem L.runPtr (L.runPtr_ne _ (by simp)).symm
    rcases L.outside L.runPtr (by simp) t with h | h <;> omega
  have htcb : (m₂.pushm.mem L.runPtr).toNat = L.tcb t := by
    rw [hptr, hrun, L.tcb_toNat]
  have hfinal : (m.osTickEnter L).mem = Function.update m₂.pushm.mem (L.tcb t) m₂.pushm.sp := by
    rw [← htcb, ← hm₂, ← hm₁]
    rfl
  have hsp : (m.osTickEnter L).sp = m₂.pushm.sp := by
    rw [← hm₂, ← hm₁]
    rfl
  have hne : L.runPtr ≠ L.tcb t := (runPtr_ne L.tcb_inBlock).symm
  rw [hfinal, hsp]
  refine ⟨⟨hl, hu, ?_, ?_⟩, by omega, ?_, ?_⟩
  · rw [Function.update_self]
    show m₂.pushm.sp = m.sp - 28
    bv_omega
  · have hat : m.context.sp.toNat - 28 = m₂.pushm.sp.toNat := by
      show m.sp.toNat - 28 = _
      omega
    rw [hat]
    refine hst₃.congr ?_ (by decide)
    intro x hx _
    exact Function.update_of_ne (by omega) ..
  · rw [Function.update_of_ne hne, hptr]
  · intro x hx hx' ho
    rw [Function.update_of_ne hx, hmem x hx' ho]

/-- `restore` loads the registers, and leaves the hardware stack frame. -/
theorem restore_frame (hrun : m.mem L.runPtr = BitVec.ofNat 16 (L.tcb t)) (hs : Saved L m.mem t c) :
    (m.restore L).reg = c.reg ∧ (m.restore L).mem = m.mem ∧
      (m.restore L).sp.toNat + 4 = c.sp.toNat ∧
      Stored 2 m.mem (m.restore L).sp.toNat [c.sr, c.pc] := by
  have hl := hs.lower
  have hlt := L.tcb_lt t
  have hu := hs.upper
  have hsp : (c.sp - 28).toNat = c.sp.toNat - 28 := by bv_omega
  have hload : m.mem (m.mem L.runPtr).toNat = c.sp - 28 := by
    rw [hrun, L.tcb_toNat]
    exact hs.sp
  have hfr : Stored 2 m.mem (c.sp - 28).toNat (Reg.all.map c.reg ++ [c.sr, c.pc]) := by
    rw [hsp]
    exact hs.frame
  obtain ⟨hreg, hmem, hsp', hst⟩ := popm_stored
    (m := { m.mov .r15 (m.mem L.runPtr) with sp := c.sp - 28 }) hfr
    (by show (c.sp - 28).toNat + 24 < 65536; omega)
  have he : m.restore L = ({ m.mov .r15 (m.mem L.runPtr) with sp := c.sp - 28 } : Machine).popm := by
    rw [← hload]
    rfl
  rw [he]
  have hsp'' : ({ m.mov .r15 (m.mem L.runPtr) with sp := c.sp - 28 } : Machine).popm.sp.toNat =
      (c.sp - 28).toNat + 24 := hsp'
  refine ⟨hreg, hmem, by omega, ?_⟩
  rw [hsp'']
  exact hst

/-- The last instructions of `os_tick` take the hardware stack frame off the stack. -/
theorem osTickEnd_frame {sr pc : Word} (hst : Stored 2 m.mem m.sp.toNat [sr, pc])
    (hin : ∀ x, m.sp.toNat ≤ x → x < m.sp.toNat + 4 → L.InBlock t x) :
    (m.osTickEnd L).context = ⟨m.reg, m.sp + 4, pc, sr &&& ~~~cpuOff⟩ ∧
      ∀ x, x ≠ L.ta0ctl → x ≠ m.sp.toNat → (m.osTickEnd L).mem x = m.mem x := by
  have hat := hin _ (Nat.le_refl _) (by omega)
  have hat' := hin (m.sp.toNat + 2) (by omega) (by omega)
  have hlt := L.tcb_lt t
  have hadd : (m.sp + 2).toNat = m.sp.toNat + 2 := by
    apply add_two_toNat
    have hhi := hat'.2
    omega
  have hend : ∀ x, x ≠ L.ta0ctl → (m.profileEnd L).mem x = m.mem x :=
    fun x hx => Function.update_of_ne hx ..
  have hmem : (m.osTickEnd L).mem =
      Function.update (m.profileEnd L).mem m.sp.toNat (sr &&& ~~~cpuOff) := by
    rw [← hst.1, ← hend _ (ta0ctl_ne hat)]
    rfl
  have hsr : (m.osTickEnd L).sr = sr &&& ~~~cpuOff :=
    (congrFun hmem m.sp.toNat).trans (Function.update_self ..)
  have hpc : (m.osTickEnd L).pc = pc := by
    refine (congrFun hmem (m.sp + 2).toNat).trans ?_
    rw [Function.update_of_ne (by omega), hadd, hend _ (ta0ctl_ne hat')]
    exact hst.2.1
  refine ⟨?_, ?_⟩
  · show (⟨m.reg, m.sp + 4, (m.osTickEnd L).pc, (m.osTickEnd L).sr⟩ : Context) = _
    rw [hpc, hsr]
  · intro x hx hne
    rw [hmem, Function.update_of_ne hne, hend x hx]

/-- The end of `os_tick` resumes the thread that `run_ptr` points at. -/
theorem osTickLeave_resumed (hrun : m.mem L.runPtr = BitVec.ofNat 16 (L.tcb t))
    (hs : Saved L m.mem t c) :
    (m.osTickLeave L).context = c.resumed ∧
      ∀ x, x ≠ L.ta0ctl → x ≠ c.sp.toNat - 4 → (m.osTickLeave L).mem x = m.mem x := by
  obtain ⟨hreg, hmem, hsp, hst⟩ := restore_frame hrun hs
  have hl := hs.lower
  have hu := hs.upper
  rw [← hmem] at hst
  unfold osTickLeave
  generalize m.restore L = m₁ at hreg hmem hsp hst
  obtain ⟨hctx, hframe⟩ := osTickEnd_frame (L := L) (t := t) hst fun x hx hlt =>
    ⟨by omega, by omega⟩
  have hsp' : m₁.sp + 4 = c.sp := by bv_omega
  refine ⟨?_, ?_⟩
  · rw [hctx, hreg, hsp']
    rfl
  · intro x hx ho
    rw [hframe x hx (by omega), hmem]

/-- The end of `os_start` starts the thread that `run_ptr` points at. -/
theorem osStartLeave_resumed (hrun : m.mem L.runPtr = BitVec.ofNat 16 (L.tcb t))
    (hs : Saved L m.mem t c) :
    (m.osStartLeave L).context = c ∧
      ∀ x, x ≠ L.wdtctl → x ≠ L.sfrie1 → x ≠ c.sp.toNat - 6 →
        (m.osStartLeave L).mem x = m.mem x := by
  obtain ⟨hreg, hmem, hsp, hst⟩ := restore_frame hrun hs
  have hl := hs.lower
  have hu := hs.upper
  rw [← hmem] at hst
  unfold osStartLeave
  generalize m.restore L = m₁ at hreg hmem hsp hst
  have hlt := L.tcb_lt t
  have hpush := pushed_push (m := m₁) (by omega) L.osStartBack
  have hsp₂ := hpush.sp
  -- the return address lies below the hardware stack frame, and the call takes it off again
  have hframe : ∀ x, x ≠ L.wdtctl → x ≠ L.sfrie1 → x ≠ m₁.sp.toNat - 2 →
      (m₁.osTickInit L).mem x = m₁.mem x := by
    intro x hw hs hx
    refine (Function.update_of_ne hs ..).trans ((Function.update_of_ne hw ..).trans ?_)
    exact Function.update_of_ne (by rw [sub_two_toNat (by omega)]; exact hx) ..
  have hsp₁ : (m₁.osTickInit L).sp = m₁.sp := by
    show m₁.sp - 2 + 2 = m₁.sp
    exact BitVec.sub_add_cancel ..
  have hin : ∀ x, m₁.sp.toNat ≤ x → x < m₁.sp.toNat + 4 → (m₁.osTickInit L).mem x = m₁.mem x := by
    intro x hx hlt'
    have hb : L.InBlock t x := ⟨by omega, by omega⟩
    exact hframe x (outside_ne (by simp) hb) (outside_ne (by simp) hb) (by omega)
  have hadd : (m₁.sp + 2).toNat = m₁.sp.toNat + 2 := add_two_toNat (by omega)
  have hsp' : m₁.sp + 4 = c.sp := by bv_omega
  refine ⟨?_, ?_⟩
  · show (⟨m₁.reg, (m₁.osTickInit L).sp + 4, (m₁.osTickInit L).mem ((m₁.osTickInit L).sp + 2).toNat,
      (m₁.osTickInit L).mem (m₁.osTickInit L).sp.toNat⟩ : Context) = c
    rw [hsp₁, hin _ (by omega) (by omega), hin _ (by omega) (by omega), hadd, hst.1, hst.2.1,
      hreg, hsp']
  · intro x hw hs hx
    refine (hframe x hw hs (by omega)).trans ?_
    rw [hmem]

/-- `os_syscall` leaves a trapframe, and writes 8 bytes more below it. -/
theorem osSyscall_frame (hsp : 12 ≤ m.sp.toNat) :
    (m.osSyscall L).sp = m.sp - 4 ∧ ∀ x, x < m.sp.toNat - 12 ∨ m.sp.toNat ≤ x →
      (m.osSyscall L).mem x = m.mem x := by
  unfold osSyscall
  have hsp₁ : (m.sp - 4).toNat = m.sp.toNat - 4 := by bv_omega
  generalize hm₁ : { m with sp := m.sp - 4 } = m₁
  obtain ⟨hs₁, hmem₁⟩ : m₁.sp = m.sp - 4 ∧ m₁.mem = m.mem := by
    rw [← hm₁]
    exact ⟨rfl, rfl⟩
  rw [← hs₁] at hsp₁ ⊢
  rw [← hmem₁]
  clear hm₁ hmem₁ hs₁
  have h₁ := pushed_push (m := m₁) (by omega) (m₁.reg .r12)
  have hs₁ := h₁.sp
  dsimp only
  generalize m₁.push (m₁.reg .r12) = m₂ at h₁ hs₁
  have h₂ := pushed_push (m := m₂) (by omega) (m₂.reg .r13)
  have hs₂ := h₂.sp
  generalize m₂.push (m₂.reg .r13) = m₃ at h₂ hs₂
  have h₃ := pushed_push (m := m₃) (by omega) (m₃.reg .r14)
  have hs₃ := h₃.sp
  generalize m₃.push (m₃.reg .r14) = m₄ at h₃ hs₃
  have h := (h₁.trans h₂).trans h₃
  refine ⟨?_, ?_⟩
  · show m₄.sp - 2 + 2 + 2 + 2 + 2 = m₁.sp
    bv_omega
  · intro x hx
    refine (hwStackframeInit_of_lt (a := (m₄.sp + 6).toNat) (by bv_omega) ..).trans ?_
    refine (Function.update_of_ne ?_ ..).trans (h.mem x (by omega))
    show x ≠ (m₄.sp - 2).toNat
    bv_omega

/-- `os_preinit` writes to the stack of its caller and to `os_sp`. -/
theorem osPreinit_frame (hsp : 28 ≤ m.sp.toNat) {x : Nat} (hx : x ≠ L.osSp)
    (ho : x < m.sp.toNat - 28 ∨ m.sp.toNat ≤ x) : (m.osPreinit L).mem x = m.mem x := by
  obtain ⟨hsp₁, hmem⟩ := osSyscall_frame (L := L) (m := m) (by omega)
  unfold osPreinit
  generalize m.osSyscall L = m₁ at hsp₁ hmem
  have hsub : m₁.sp.toNat = m.sp.toNat - 4 := by
    rw [hsp₁]
    bv_omega
  have hnil : Stored 2 m₁.mem m₁.sp.toNat [] := trivial
  obtain ⟨hpush, -⟩ := pushm_stored hnil (by omega)
  have hsp₂ := hpush.sp
  refine (Function.update_of_ne hx ..).trans ?_
  rw [hpush.mem x (by omega), hmem x (by omega)]

end Machine

/-- The initial context of a thread, with the stack pointer at the return address. -/
def Context.initial (L : Layout) (t : TaskId) (routine arg : Word) : Context where
  reg r := if r = .r12 then arg else 0
  sp := BitVec.ofNat 16 (L.retAddr t)
  pc := routine
  sr := gie

/-- A new thread does not sleep in a low power mode. -/
@[simp] theorem Context.initial_resumed (L : Layout) (t : TaskId) (routine arg : Word) :
    (initial L t routine arg).resumed = initial L t routine arg := by
  simp [resumed, initial, gie, cpuOff]

theorem thrdStackInit_eq {this : Nat} (ht : this ≠ 0) {pc : Word} (hpc : pc ≠ 0) (arg : Word) :
    thrdStackInit mem this pc arg =
      (0, Function.update
        (swStackframeInit
          (hwStackframeInit (memset mem (this + 2) stackSize) (this + 2 + stackSize - 4) pc gie)
          (this + 2 + stackSize - 28) arg)
        this (BitVec.ofNat 16 (this + 2 + stackSize - 28))) := by
  unfold thrdStackInit
  rw [if_neg ht, if_neg hpc]

theorem thrdStackInit_frame (mem : Nat → Word) {this : Nat} (ht : this ≠ 0) {pc : Word}
    (hpc : pc ≠ 0) (arg : Word) :
    (thrdStackInit mem this pc arg).1 = 0 ∧
      (thrdStackInit mem this pc arg).2 this = BitVec.ofNat 16 (this + 2 + stackSize - 28) ∧
      Stored 2 (thrdStackInit mem this pc arg).2 (this + 2 + stackSize - 28)
        ((Reg.all.map fun r => if r = .r12 then arg else 0) ++ [gie, pc]) ∧
      ∀ x, x < this ∨ this + 2 + stackSize ≤ x → (thrdStackInit mem this pc arg).2 x = mem x := by
  have hsize : 28 ≤ stackSize := by decide
  have hmask : pc &&& 0xFFFF = pc := BitVec.and_allOnes
  rw [thrdStackInit_eq ht hpc]
  have hmem₁ : ∀ x, x < this + 2 ∨ this + 2 + stackSize ≤ x →
      memset mem (this + 2) stackSize x = mem x := fun x hx => if_neg (by omega)
  generalize memset mem (this + 2) stackSize = mem₁ at hmem₁
  have hhw := hwStackframeInit_stored mem₁ (this + 2 + stackSize - 4) pc gie
  have hmem₂ : ∀ x, x < this ∨ this + 2 + stackSize ≤ x →
      hwStackframeInit mem₁ (this + 2 + stackSize - 4) pc gie x = mem x := by
    intro x hx
    rw [hwStackframeInit_of_lt (by omega), hmem₁ x (by omega)]
  generalize hwStackframeInit mem₁ (this + 2 + stackSize - 4) pc gie = mem₂ at hhw hmem₂
  have hadd : this + 2 + stackSize - 4 = this + 2 + stackSize - 28 + 24 := by omega
  rw [gie_byte, hmask, hadd] at hhw
  have hsw := swStackframeInit_stored mem₂ (this + 2 + stackSize - 28) arg
  have hhw' : Stored 2 (swStackframeInit mem₂ (this + 2 + stackSize - 28) arg)
      (this + 2 + stackSize - 28 + 24) [gie, pc] :=
    hhw.congr (fun x hx _ => swStackframeInit_of_lt (.inr hx) arg) (by decide)
  refine ⟨rfl, Function.update_self .., ?_, ?_⟩
  · refine (Stored.append_iff.2 ⟨hsw, hhw'⟩).congr ?_ (by decide)
    intro x hx _
    have hne : x ≠ this := by omega
    exact Function.update_of_ne hne ..
  · intro x hx
    have hne : x ≠ this := by omega
    refine (Function.update_of_ne hne ..).trans ?_
    rw [swStackframeInit_of_lt (by omega), hmem₂ x (by omega)]

/-- A new thread is ready to be resumed. -/
theorem thrdInitContext_saved (L : Layout) (mem : Nat → Word) (t : TaskId) {routine : Word}
    (hr : routine ≠ 0) (arg : Word) :
    (thrdInitContext L mem t routine arg).1 = 0 ∧
      Saved L (thrdInitContext L mem t routine arg).2 t (.initial L t routine arg) ∧
      (thrdInitContext L mem t routine arg).2 (L.retAddr t) = L.thrdExit ∧
      ∀ x, ¬ L.InBlock t x → (thrdInitContext L mem t routine arg).2 x = mem x := by
  obtain ⟨hstatus, hsp, hst, hmem⟩ := thrdStackInit_frame mem (L.tcb_ne t) hr arg
  have hlt := L.tcb_lt t
  have hsize : contextSize = 2 + stackSize + 2 := rfl
  have hstack : 28 ≤ stackSize := by decide
  have hret : (BitVec.ofNat 16 (L.tcb t + 2 + stackSize)).toNat = L.tcb t + 2 + stackSize :=
    L.retAddr_toNat t
  unfold thrdInitContext
  generalize thrdStackInit mem (L.tcb t) routine arg = r at hstatus hsp hst hmem
  obtain ⟨status, mem₁⟩ := r
  obtain rfl := hstatus
  dsimp only at hsp hst hmem ⊢
  rw [if_neg (by decide)]
  refine ⟨rfl, ⟨?_, ?_, ?_, ?_⟩, Function.update_self .., ?_⟩
  · show _ ≤ (BitVec.ofNat 16 (L.tcb t + 2 + stackSize)).toNat
    omega
  · show (BitVec.ofNat 16 (L.tcb t + 2 + stackSize)).toNat ≤ _
    omega
  · refine (Function.update_of_ne (by omega) ..).trans (hsp.trans ?_)
    show _ = BitVec.ofNat 16 (L.tcb t + 2 + stackSize) - 28
    bv_omega
  · show Stored 2 _ ((BitVec.ofNat 16 (L.tcb t + 2 + stackSize)).toNat - 28) _
    rw [hret]
    refine hst.congr ?_ (by decide)
    intro x hx hlt'
    refine Function.update_of_ne ?_ ..
    have hlen : ((Reg.all.map fun r => if r = .r12 then arg else 0) ++ [gie, routine]).length =
      14 := rfl
    omega
  · intro x hx
    unfold Layout.InBlock at hx
    refine (Function.update_of_ne (by omega) ..).trans (hmem x (by omega))

end MsTos
