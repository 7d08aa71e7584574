-- SUMMARY: Launching the system and returning from it: `os_start` and `os_cleanup` in every code and data model.
import Mathlib.Tactic.IntervalCases
import MsTos.CpuX

namespace MsTos

/-- The offset of the trapframe from the pushed registers in `os_syscall`. -/
def Model.frameOffset (M : Model) : Long := if M.largeCode || M.largeData then 12 else 6

/-- The word of a trapframe that holds the status register. -/
def Model.frameSr (M : Model) (pc sr : Long) : Word :=
  let pcHigh : Word := (pc >>> 16).setWidth 16
  let sr : Word := sr.setWidth 16
  if M.largeCode then (sr &&& (0x0FFF : Word)) ||| ((pcHigh &&& (0x000F : Word)) <<< 12)
  else sr &&& (0x00FF : Word)

/-- The registers that a function keeps for its caller. -/
def Reg.saved : List Reg := [.r4, .r5, .r6, .r7, .r8, .r9, .r10]

namespace CpuX

/-! ## The code (`krnl_swtch.asm`) -/

/-- `hw_stackframe_init`, where its code needs no stack. -/
def hwStackframeInit (M : Model) (m : CpuX) : CpuX :=
  let frame := (m.reg .r12).toNat
  let mem := Function.update m.mem (frame + 2) ((m.reg .r13).setWidth 16)
  { m with mem := Function.update mem frame (M.frameSr (m.reg .r13) (m.reg .r14)) }

section

variable (M : Model) (osSp : Nat) (back : Long) (init : CpuX → CpuX) (m : CpuX)

/-- The first instructions of `os_syscall`, which allocate the trapframe and prepare the arguments of
`hw_stackframe_init`. -/
def osSyscallArgs : CpuX :=
  let m := m.movSp M.data (m.sp - 4)
  let m := m.push M.data (m.reg .r12)
  let m := m.push M.data (m.reg .r13)
  let m := m.push M.data (m.reg .r14)
  let m := m.mov M.data .r12 m.sp
  let m := m.mov M.data .r12 (m.reg .r12 + M.frameOffset)
  let m := m.mov M.data .r13 (M.data.load m.mem (M.data.trunc (m.reg .r12 + 4)).toNat)
  m.mov M.data .r14 (m.sr.setWidth 20)

/-- `os_syscall`, for the code `init` of `hw_stackframe_init`, which returns to `back`. -/
def osSyscall : CpuX :=
  let m := m.osSyscallArgs M
  let m := m.call M.code back init
  let m := m.pop M.data .r14
  let m := m.pop M.data .r13
  m.pop M.data .r12

/-- `os_preinit`, with which `os_start` begins. The variable `os_sp` lies at `osSp`. -/
def osPreinit : CpuX :=
  let m := m.osSyscall M back init
  let m := m.pushm M.data
  { m with mem := M.data.store m.mem osSp m.sp }

def osCleanup : CpuX :=
  let m := m.movSp M.data (M.data.load m.mem osSp)
  let m := m.popm M.data
  m.reti M

end

/-! ## What the rest of the system does -/

variable {M : Model} {osSp n : Nat} {back : Long} {init : CpuX → CpuX} {m m₁ m₂ m' : CpuX}

/-- The code of `hw_stackframe_init` stores the program counter and the status register that it gets
into the frame. It keeps the registers of its caller and what lies at the stack pointer and above. -/
structure StackframeInit (M : Model) (init : CpuX → CpuX) : Prop where
  sp : ∀ m, (init m).sp = m.sp
  reg : ∀ m, ∀ r ∈ Reg.saved, (init m).reg r = m.reg r
  frame_sr : ∀ m, m.sp.toNat ≤ (m.reg .r12).toNat →
    (init m).mem (m.reg .r12).toNat = M.frameSr (m.reg .r13) (m.reg .r14)
  frame_pc : ∀ m, m.sp.toNat ≤ (m.reg .r12).toNat →
    (init m).mem ((m.reg .r12).toNat + 2) = (m.reg .r13).setWidth 16
  mem : ∀ m x, m.sp.toNat ≤ x → x ≠ (m.reg .r12).toNat → x ≠ (m.reg .r12).toNat + 2 →
    (init m).mem x = m.mem x

theorem hwStackframeInit_spec (M : Model) : StackframeInit M (hwStackframeInit M) where
  sp _ := rfl
  reg _ _ _ := rfl
  frame_sr _ _ := Function.update_self ..
  frame_pc _ _ := (Function.update_of_ne (by omega) ..).trans (Function.update_self ..)
  mem _ _ _ hx hx' := (Function.update_of_ne hx ..).trans (Function.update_of_ne hx' ..)

/-- From `m`, the end of `os_preinit`, to `m'` neither `os_sp` nor what `os_start` has pushed to the
launching stack, which ends at `top`, is written to. -/
structure KeepsLaunch (M : Model) (osSp top : Nat) (m m' : CpuX) : Prop where
  osSp : M.data.load m'.mem osSp = M.data.load m.mem osSp
  stack : ∀ x, m.sp.toNat ≤ x → x < top → m'.mem x = m.mem x

/-- `m'` is what a return from a function to the caller in `m` leaves, in which the return address
is on the stack. -/
structure Returned (M : Model) (m m' : CpuX) : Prop where
  pc : m'.pc = M.code.load m.mem m.sp.toNat
  reg : ∀ r ∈ Reg.saved, m'.reg r = m.reg r
  sp : m'.sp = m.sp + M.code.bytes

/-! ## The stack pointer -/

theorem osSyscall_sp (hf : StackframeInit M init) :
    (m.osSyscall M back init).sp = M.data.trunc (m.sp - 4) := by
  have hcall : ∀ m : CpuX, (m.call M.code back init).sp = m.sp := fun _ => call_sp hf.sp back
  unfold osSyscall
  show (call M.code _ back init).sp + M.data.bytes + M.data.bytes + M.data.bytes = _
  rw [hcall]
  show M.data.trunc (m.sp - 4) - M.data.bytes - M.data.bytes - M.data.bytes + M.data.bytes +
    M.data.bytes + M.data.bytes = _
  bv_omega

/-- `os_cleanup` goes back by what `os_start` went down: the trapframe and the registers. -/
theorem osCleanup_sp_eq (hf : StackframeInit M init) {top : Nat}
    (hk : KeepsLaunch M osSp top (m.osPreinit M osSp back init) m') :
    (m'.osCleanup M osSp).sp =
      M.data.trunc (M.data.trunc (M.data.trunc (m.sp - 4) - (12 * M.data.bytes : Nat))) +
        (12 * M.data.bytes : Nat) + 4 := by
  have hsave : M.data.load (m.osPreinit M osSp back init).mem osSp =
      M.data.trunc ((m.osSyscall M back init).pushm M.data).sp := Width.load_store
  show ((m'.movSp M.data (M.data.load m'.mem osSp)).popm M.data).sp + 4 = _
  rw [popm_sp, hk.osSp, hsave, pushm_sp, osSyscall_sp hf]
  rfl

/-- The frame that `reti` takes off the stack is the one that `os_syscall` has put there, so that the
return address stays. An operand of 16 bits leaves no more than that of the stack pointer. -/
theorem osCleanup_sp (hf : StackframeInit M init) {top : Nat}
    (hk : KeepsLaunch M osSp top (m.osPreinit M osSp back init) m') :
    (m'.osCleanup M osSp).sp.setWidth 16 = m.sp.setWidth 16 := by
  rw [osCleanup_sp_eq hf hk]
  cases M.data with
  | w =>
      unfold Width.trunc Width.bytes
      bv_omega
  | a =>
      unfold Width.trunc Width.bytes
      bv_omega

/-- A return would have taken the return address off the stack. -/
theorem Returned.sp_ne (h : Returned M m m') : m'.sp.setWidth 16 ≠ m.sp.setWidth 16 := by
  have hsp := h.sp
  cases hc : M.code with
  | w =>
      rw [hc] at hsp
      have hsp : m'.sp = m.sp + 2 := hsp
      bv_omega
  | a =>
      rw [hc] at hsp
      have hsp : m'.sp = m.sp + 4 := hsp
      bv_omega

/-- In no model does `os_cleanup` resume the caller of `os_start` as a return would. -/
theorem launch_never_returns (hf : StackframeInit M init)
    (hk : KeepsLaunch M osSp m.sp.toNat (m.osPreinit M osSp back init) m') :
    ¬ Returned M m (m'.osCleanup M osSp) :=
  fun h => h.sp_ne (osCleanup_sp hf hk)

/-- The models for which the project is built: the small ones. -/
def smallModel : Model := ⟨true, false, false⟩

/-- `main` has just called `os_start`, and is to go on at 0x5000. -/
def launching : CpuX where
  reg _ := 0
  sp := 0x43FC
  pc := 0x53D0
  sr := gie
  mem x := if x = 0x43FC then 0x5000 else 0

/-- A thread calls `os_exit`, from another stack and with other registers. -/
def exiting : CpuX :=
  { launching.osPreinit smallModel 0x2400 0x53F0 (hwStackframeInit smallModel) with
    reg := fun _ => 0xBEEF
    sp := 0x3000 }

theorem exiting_keeps : KeepsLaunch smallModel 0x2400 launching.sp.toNat
    (launching.osPreinit smallModel 0x2400 0x53F0 (hwStackframeInit smallModel)) exiting :=
  ⟨rfl, fun _ _ _ => rfl⟩

theorem launch_never_returns_small :
    StackframeInit smallModel (hwStackframeInit smallModel) ∧
      KeepsLaunch smallModel 0x2400 launching.sp.toNat
        (launching.osPreinit smallModel 0x2400 0x53F0 (hwStackframeInit smallModel)) exiting ∧
      ¬ Returned smallModel launching (exiting.osCleanup smallModel 0x2400) :=
  ⟨hwStackframeInit_spec _, exiting_keeps,
    launch_never_returns (hwStackframeInit_spec _) exiting_keeps⟩

/-- The caller is resumed with its registers, but the return address is still on the stack. -/
theorem return_address_left :
    KeepsLaunch smallModel 0x2400 launching.sp.toNat
        (launching.osPreinit smallModel 0x2400 0x53F0 (hwStackframeInit smallModel)) exiting ∧
      (exiting.osCleanup smallModel 0x2400).pc = 0x5000 ∧
      (∀ r ∈ Reg.saved, (exiting.osCleanup smallModel 0x2400).reg r = 0) ∧
      (exiting.osCleanup smallModel 0x2400).sp = 0x43FC ∧
      ¬ Returned smallModel launching (exiting.osCleanup smallModel 0x2400) := by
  refine ⟨exiting_keeps, by decide, by decide, by decide, ?_⟩
  intro h
  exact absurd h.sp (by decide)

/-- `n` rounds of the loop of `main`, each of which calls `os_start`, lets the system run until
`os_cleanup`, and then goes on without moving the stack pointer. -/
inductive Relaunched (M : Model) (osSp : Nat) (back : Long) (init : CpuX → CpuX) :
    Nat → CpuX → CpuX → Prop
  | zero {m : CpuX} : Relaunched M osSp back init 0 m m
  | succ {n : Nat} {m m₁ m₂ m₃ : CpuX} {resume : Long} : Relaunched M osSp back init n m m₁ →
      KeepsLaunch M osSp (m₁.push M.code resume).sp.toNat
        ((m₁.push M.code resume).osPreinit M osSp back init) m₂ →
      m₃.sp = (m₂.osCleanup M osSp).sp → Relaunched M osSp back init (n + 1) m m₃

theorem push_sp_setWidth (W : Width) (m : CpuX) (v : Long) :
    (m.push W v).sp.setWidth 16 = m.sp.setWidth 16 - BitVec.ofNat 16 W.bytes := by
  cases W with
  | w =>
      show (m.sp - 2).setWidth 16 = m.sp.setWidth 16 - 2
      bv_omega
  | a =>
      show (m.sp - 4).setWidth 16 = m.sp.setWidth 16 - 4
      bv_omega

/-- With every launch the stack pointer sinks by the size of a return address. -/
theorem Relaunched.drift (hf : StackframeInit M init) (hr : Relaunched M osSp back init n m m') :
    m'.sp.setWidth 16 = m.sp.setWidth 16 - BitVec.ofNat 16 (n * M.code.bytes) := by
  induction hr with
  | zero =>
      rw [Nat.zero_mul]
      exact (BitVec.sub_zero _).symm
  | succ _ hk hsp ih =>
      rw [hsp, osCleanup_sp hf hk, push_sp_setWidth, ih, Nat.add_mul, Nat.one_mul]
      bv_omega

/-! ## The rest of the context -/

/-- The launching stack has room, addresses and registers fit into the operands, `os_sp` lies outside
of the stack, and `os_syscall` takes the frame to lie where it is. -/
structure Fits (M : Model) (osSp : Nat) (m : CpuX) : Prop where
  offset : M.frameOffset.toNat = 3 * M.data.bytes
  lower : 64 ≤ m.sp.toNat
  upper : m.sp.toNat + 4 < M.data.limit
  reg : ∀ r ∈ Reg.saved, M.data.trunc (m.reg r) = m.reg r
  osSp : osSp + M.data.bytes ≤ m.sp.toNat - 4 - 12 * M.data.bytes ∨ m.sp.toNat ≤ osSp

theorem bytes_le (W : Width) : W.bytes ≤ 4 := by
  cases W <;> decide

theorem limit_le (W : Width) : W.limit ≤ 1048576 := by
  cases W <;> decide

theorem movSp_sub (hfit : Fits M osSp m) : (m.movSp M.data (m.sp - 4)).sp.toNat + 4 = m.sp.toNat := by
  have hlower := hfit.lower
  have hupper := hfit.upper
  have hsub : (m.sp - 4).toNat = m.sp.toNat - 4 := by bv_omega
  show (M.data.trunc (m.sp - 4)).toNat + 4 = _
  rw [Width.trunc_of_lt (by omega)]
  omega

/-- The registers that `os_syscall` uses are none that a function keeps. -/
theorem mov_saved {W : Width} {r s : Reg} {v : Long} (hs : s ∉ Reg.saved) (hr : r ∈ Reg.saved) :
    (m.mov W s v).reg r = m.reg r := by
  apply Function.update_of_ne
  rintro rfl
  exact hs hr

theorem pop_saved {W : Width} {r s : Reg} (hs : s ∉ Reg.saved) (hr : r ∈ Reg.saved) :
    (m.pop W s).reg r = m.reg r := by
  apply Function.update_of_ne
  rintro rfl
  exact hs hr

theorem osSyscallArgs_frame (hfit : Fits M osSp m) :
    (m.osSyscallArgs M).sp.toNat + 3 * M.data.bytes + 4 = m.sp.toNat ∧
      ((m.osSyscallArgs M).reg .r12).toNat + 4 = m.sp.toNat ∧
      (m.osSyscallArgs M).reg .r13 = M.data.load m.mem m.sp.toNat ∧
      (∀ r ∈ Reg.saved, (m.osSyscallArgs M).reg r = m.reg r) ∧
      ∀ x, m.sp.toNat ≤ x + 4 → (m.osSyscallArgs M).mem x = m.mem x := by
  have hlower := hfit.lower
  have hupper := hfit.upper
  have hbytes := bytes_le M.data
  have hlimit := limit_le M.data
  have hs₁ := movSp_sub hfit
  unfold osSyscallArgs
  generalize hm₁ : m.movSp M.data (m.sp - 4) = m₁ at hs₁
  obtain ⟨hreg₁, hmem₁⟩ : m₁.reg = m.reg ∧ m₁.mem = m.mem := by
    rw [← hm₁]
    exact ⟨rfl, rfl⟩
  dsimp only
  obtain ⟨hs₂, hreg₂, hmem₂⟩ := push_frame (m := m₁) (W := M.data) (by omega) (m₁.reg .r12)
  generalize m₁.push M.data (m₁.reg .r12) = m₂ at hs₂ hreg₂ hmem₂
  obtain ⟨hs₃, hreg₃, hmem₃⟩ := push_frame (m := m₂) (W := M.data) (by omega) (m₂.reg .r13)
  generalize m₂.push M.data (m₂.reg .r13) = m₃ at hs₃ hreg₃ hmem₃
  obtain ⟨hs₄, hreg₄, hmem₄⟩ := push_frame (m := m₃) (W := M.data) (by omega) (m₃.reg .r14)
  generalize m₃.push M.data (m₃.reg .r14) = m₄ at hs₄ hreg₄ hmem₄
  have hreg : m₄.reg = m.reg := hreg₄.trans (hreg₃.trans (hreg₂.trans hreg₁))
  have hmem : ∀ x, m.sp.toNat ≤ x + 4 → m₄.mem x = m.mem x := by
    intro x hx
    rw [hmem₄ x (by omega), hmem₃ x (by omega), hmem₂ x (by omega), hmem₁]
  have hoff := hfit.offset
  have hframe : (m₄.sp + M.frameOffset).toNat + 4 = m.sp.toNat := by bv_omega
  have hr12 : M.data.trunc (M.data.trunc m₄.sp + M.frameOffset) = m₄.sp + M.frameOffset := by
    rw [Width.trunc_of_lt (v := m₄.sp) (by omega), Width.trunc_of_lt (by omega)]
  have hret : M.data.trunc (m₄.sp + M.frameOffset + 4) = m.sp := by
    rw [Width.trunc_of_lt (by bv_omega)]
    bv_omega
  have hpc : M.data.load m₄.mem m.sp.toNat = M.data.load m.mem m.sp.toNat :=
    Width.load_congr fun y hy _ => hmem y (by omega)
  refine ⟨by show m₄.sp.toNat + _ + 4 = _; omega, ?_, ?_, ?_, hmem⟩
  · show (M.data.trunc (M.data.trunc m₄.sp + M.frameOffset)).toNat + 4 = _
    rw [hr12]
    exact hframe
  · show M.data.trunc (M.data.load m₄.mem
      (M.data.trunc (M.data.trunc (M.data.trunc m₄.sp + M.frameOffset) + 4)).toNat) = _
    rw [hr12, hret, Width.trunc_load, hpc]
  · intro r hr
    rw [← hreg]
    show ((((m₄.mov _ _ _).mov _ _ _).mov _ _ _).mov _ _ _).reg r = m₄.reg r
    rw [mov_saved (by decide) hr, mov_saved (by decide) hr, mov_saved (by decide) hr,
      mov_saved (by decide) hr]

/-- `os_syscall` leaves a trapframe with the return address of `os_start` below that address. -/
theorem osSyscall_frame (hf : StackframeInit M init) (hfit : Fits M osSp m) (back : Long) :
    (m.osSyscall M back init).sp.toNat + 4 = m.sp.toNat ∧
      (∀ r ∈ Reg.saved, (m.osSyscall M back init).reg r = m.reg r) ∧
      (∃ sr, (m.osSyscall M back init).mem (m.sp.toNat - 4) =
        M.frameSr (M.data.load m.mem m.sp.toNat) sr) ∧
      (m.osSyscall M back init).mem (m.sp.toNat - 2) =
        (M.data.load m.mem m.sp.toNat).setWidth 16 := by
  have hlower := hfit.lower
  have hsp : (m.osSyscall M back init).sp.toNat + 4 = m.sp.toNat := by
    rw [osSyscall_sp hf]
    exact movSp_sub hfit
  obtain ⟨hs, hr12, hr13, hreg, -⟩ := osSyscallArgs_frame hfit
  unfold osSyscall at hsp ⊢
  generalize m.osSyscallArgs M = m₁ at hsp hs hr12 hr13 hreg ⊢
  have hdata := bytes_le M.data
  have hcode := bytes_le M.code
  obtain ⟨hs₂, hreg₂, -⟩ := push_frame (m := m₁) (W := M.code) (by omega) back
  have hkeep := hf.reg (m₁.push M.code back)
  have hsr := hf.frame_sr (m₁.push M.code back)
  have hpc := hf.frame_pc (m₁.push M.code back)
  rw [hreg₂] at hkeep hsr hpc
  refine ⟨hsp, ?_, ⟨m₁.reg .r14, ?_⟩, ?_⟩
  · intro r hr
    have hr' := (hkeep r hr).trans (hreg r hr)
    rw [← hr']
    show (((((init _).ret M.code).pop _ _).pop _ _).pop _ _).reg r = (init _).reg r
    rw [pop_saved (by decide) hr, pop_saved (by decide) hr, pop_saved (by decide) hr]
    rfl
  · have hat : m.sp.toNat - 4 = (m₁.reg .r12).toNat := by omega
    rw [hat, ← hr13]
    exact hsr (by omega)
  · have hat : m.sp.toNat - 2 = (m₁.reg .r12).toNat + 2 := by omega
    rw [hat, ← hr13]
    exact hpc (by omega)

/-- `os_preinit` saves the registers below the trapframe, and where they lie in `os_sp`. -/
theorem osPreinit_frame (hf : StackframeInit M init) (hfit : Fits M osSp m) (back : Long) :
    (m.osPreinit M osSp back init).sp.toNat + 12 * M.data.bytes + 4 = m.sp.toNat ∧
      M.data.load (m.osPreinit M osSp back init).mem osSp = (m.osPreinit M osSp back init).sp ∧
      (∃ f : Reg → Long, (∀ r ∈ Reg.saved, f r = m.reg r) ∧
        Stored M.data.bytes (M.data.load (m.osPreinit M osSp back init).mem)
          (m.osPreinit M osSp back init).sp.toNat (Reg.all.map f)) ∧
      (∃ sr, (m.osPreinit M osSp back init).mem (m.sp.toNat - 4) =
        M.frameSr (M.data.load m.mem m.sp.toNat) sr) ∧
      (m.osPreinit M osSp back init).mem (m.sp.toNat - 2) =
        (M.data.load m.mem m.sp.toNat).setWidth 16 := by
  have hlower := hfit.lower
  have hupper := hfit.upper
  have hout := hfit.osSp
  have hbytes := bytes_le M.data
  obtain ⟨hsp₁, hreg₁, ⟨sr, hsr⟩, hpc⟩ := osSyscall_frame hf hfit back
  unfold osPreinit
  generalize m.osSyscall M back init = m₁ at hsp₁ hreg₁ hsr hpc ⊢
  obtain ⟨hsp₂, hmem₂, hst⟩ := pushm_stored (m := m₁) (W := M.data) (by omega)
  dsimp only
  generalize m₁.pushm M.data = m₂ at hsp₂ hmem₂ hst ⊢
  refine ⟨?_, ?_, ⟨fun r => M.data.trunc (m₁.reg r), ?_, ?_⟩, ⟨sr, ?_⟩, ?_⟩
  · omega
  · rw [Width.load_store, Width.trunc_of_lt (by omega)]
  · intro r hr
    show M.data.trunc (m₁.reg r) = m.reg r
    rw [hreg₁ r hr]
    exact hfit.reg r hr
  · refine hst.congr ?_ Width.bytes_pos
    intro x hx hlt
    have hlen : M.data.bytes * (Reg.all.map fun r => M.data.trunc (m₁.reg r)).length =
      12 * M.data.bytes := Nat.mul_comm ..
    exact Width.load_congr fun y hy hylt => Width.store_of_lt (by omega)
  · rw [Width.store_of_lt (by omega), hmem₂ _ (by omega), hsr]
  · rw [Width.store_of_lt (by omega), hmem₂ _ (by omega), hpc]

/-- Without the large code model the trapframe has no upper bits of the program counter. -/
theorem frameSr_small (hc : M.largeCode = false) (pc sr : Long) :
    ((M.frameSr pc sr) >>> 12).setWidth 4 = 0 := by
  rw [Model.frameSr, hc]
  apply BitVec.eq_of_getLsbD_eq
  intro i hi
  interval_cases i <;> simp

theorem frameSr_large (hc : M.largeCode = true) (pc sr : Long) :
    ((M.frameSr pc sr) >>> 12).setWidth 4 = ((pc >>> 16).setWidth 16).setWidth 4 := by
  rw [Model.frameSr, hc]
  apply BitVec.eq_of_getLsbD_eq
  intro i hi
  interval_cases i <;> simp

theorem zero_append (v : Word) : ((0 : BitVec 4) ++ v : BitVec 20) = v.setWidth 20 := by
  apply BitVec.eq_of_toNat_eq
  rw [BitVec.toNat_append, BitVec.toNat_setWidth]
  simp
  omega

/-- What `reti` makes of a trapframe is the return address of `os_start`. -/
theorem frame_pc (hoff : M.frameOffset.toNat = 3 * M.data.bytes) (mem : Nat → Word) (x : Nat)
    (sr : Long) :
    ((if M.msp430x then ((M.frameSr (M.data.load mem x) sr) >>> 12).setWidth 4 else 0) ++
      (M.data.load mem x).setWidth 16 : BitVec 20) = M.code.load mem x := by
  obtain ⟨msp430x, largeCode, largeData⟩ := M
  cases largeCode with
  | false =>
      -- the return address is a word
      have hcode : Model.code ⟨msp430x, false, largeData⟩ = .w := rfl
      have hhigh : (if msp430x then ((Model.frameSr ⟨msp430x, false, largeData⟩
          ((Model.data ⟨msp430x, false, largeData⟩).load mem x) sr) >>> 12).setWidth 4 else 0) =
          (0 : BitVec 4) := by
        rw [frameSr_small rfl, ite_self]
      have hlow : ((Model.data ⟨msp430x, false, largeData⟩).load mem x).setWidth 16 = mem x := by
        cases Model.data ⟨msp430x, false, largeData⟩ with
        | w => exact BitVec.setWidth_setWidth_of_le _ (by decide)
        | a => exact BitVec.setWidth_append_eq_right
      rw [hhigh, hlow, hcode]
      exact zero_append (mem x)
  | true =>
      -- the frame is where it is taken to be in the large data model only
      cases msp430x with
      | false => cases largeData <;> cases hoff
      | true =>
          cases largeData with
          | false => cases hoff
          | true =>
              rw [if_pos rfl, frameSr_large rfl]
              exact Width.append_setWidth _

/-- Where everything fits, `os_cleanup` resumes the caller of `os_start` with its registers, and only
the stack pointer is not that of a return. -/
theorem osCleanup_resumes (hf : StackframeInit M init) (hfit : Fits M osSp m)
    (hk : KeepsLaunch M osSp m.sp.toNat (m.osPreinit M osSp back init) m') :
    (m'.osCleanup M osSp).pc = M.code.load m.mem m.sp.toNat ∧
      (∀ r ∈ Reg.saved, (m'.osCleanup M osSp).reg r = m.reg r) ∧
      (m'.osCleanup M osSp).sp = m.sp := by
  have hlower := hfit.lower
  have hupper := hfit.upper
  have hbytes := bytes_le M.data
  have hlimit := limit_le M.data
  obtain ⟨hsp, hload, ⟨f, hreg, hst⟩, ⟨sr, hsr⟩, hpc⟩ := osPreinit_frame hf hfit back
  obtain ⟨hosSp, hstack⟩ := hk
  generalize m.osPreinit M osSp back init = m₁ at hsp hload hst hsr hpc hosSp hstack
  have hst' : Stored M.data.bytes (M.data.load m'.mem) m₁.sp.toNat (Reg.all.map f) := by
    refine hst.congr ?_ Width.bytes_pos
    intro x hx hlt
    have hlen : M.data.bytes * (Reg.all.map f).length = 12 * M.data.bytes := Nat.mul_comm ..
    exact Width.load_congr fun y hy hylt => hstack y (by omega) (by omega)
  have hmov : (m'.movSp M.data (M.data.load m'.mem osSp)).sp = m₁.sp := by
    show M.data.trunc (M.data.load m'.mem osSp) = m₁.sp
    rw [Width.trunc_load, hosSp, hload]
  have hmem : (m'.movSp M.data (M.data.load m'.mem osSp)).mem = m'.mem := rfl
  unfold osCleanup
  dsimp only
  generalize m'.movSp M.data (M.data.load m'.mem osSp) = m₂ at hmov hmem ⊢
  rw [← hmov] at hsp hst' hstack
  rw [← hmem] at hst' hstack
  obtain ⟨hregs, hmem₃, hsp₃⟩ := popm_stored hst' (by omega)
  rw [← hmem₃] at hstack
  generalize m₂.popm M.data = m₃ at hregs hsp₃ hstack ⊢
  have hlow : m₃.mem m₃.sp.toNat = M.frameSr (M.data.load m.mem m.sp.toNat) sr := by
    have hat : m₃.sp.toNat = m.sp.toNat - 4 := by omega
    rw [hat, hstack _ (by omega) (by omega), hsr]
  have hhigh : m₃.mem (m₃.sp + 2).toNat = (M.data.load m.mem m.sp.toNat).setWidth 16 := by
    have hat : (m₃.sp + 2).toNat = m.sp.toNat - 2 := by bv_omega
    rw [hat, hstack _ (by omega) (by omega), hpc]
  refine ⟨?_, ?_, ?_⟩
  · show ((if M.msp430x then ((m₃.mem m₃.sp.toNat) >>> 12).setWidth 4 else 0) ++
      m₃.mem (m₃.sp + 2).toNat : BitVec 20) = _
    rw [hlow, hhigh]
    exact frame_pc hfit.offset m.mem m.sp.toNat sr
  · intro r hr
    rw [← hreg r hr, ← hregs]
    rfl
  · show m₃.sp + 4 = m.sp
    bv_omega

end CpuX

end MsTos
