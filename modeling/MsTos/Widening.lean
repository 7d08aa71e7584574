-- SUMMARY: In the small models the CPU with 20-bit registers does what the machine of the context switch does.
import MsTos.ContextSwitch
import MsTos.Launch

namespace MsTos

namespace Machine

/-- `os_syscall` up to the call of `hw_stackframe_init`. -/
def osSyscallArgs (m : Machine) : Machine :=
  let m := { m with sp := m.sp - 4 }
  let m := m.push (m.reg .r12)
  let m := m.push (m.reg .r13)
  let m := m.push (m.reg .r14)
  let m := m.mov .r12 m.sp
  let m := m.mov .r12 (m.reg .r12 + 6)
  let m := m.mov .r13 (m.mem (m.reg .r12 + 4).toNat)
  m.mov .r14 m.sr

theorem osSyscall_eq {L : Layout} {m : Machine} :
    m.osSyscall L = (((m.osSyscallArgs.call L.osSyscallBack fun m =>
      { m with mem := hwStackframeInit m.mem (m.reg .r12).toNat (m.reg .r13) (m.reg .r14) }).pop
        .r14).pop .r13).pop .r12 :=
  rfl

theorem osSyscallArgs_sp (m : Machine) : m.osSyscallArgs.sp = m.sp - 10 := by
  show m.sp - 4 - 2 - 2 - 2 = m.sp - 10
  bv_omega

end Machine

namespace CpuX

/-- `x` is the machine `m` of the small models, with wider registers. -/
structure Widens (m : Machine) (x : CpuX) : Prop where
  reg : ∀ r, x.reg r = (m.reg r).setWidth 20
  sp : x.sp = m.sp.setWidth 20
  pc : x.pc = m.pc.setWidth 20
  sr : x.sr = m.sr
  mem : x.mem = m.mem

namespace Widens

variable {m : Machine} {x : CpuX} {v : Word} {w : Long} {r : Reg}

theorem sp_toNat (h : Widens m x) : x.sp.toNat = m.sp.toNat := by
  rw [h.sp]
  bv_omega

/-- A word fits into an operand of 16 bits. -/
theorem trunc_word (v : Word) : Width.trunc .w (v.setWidth 20) = v.setWidth 20 := by
  unfold Width.trunc
  bv_omega

theorem mov (h : Widens m x) (hw : Width.trunc .w w = v.setWidth 20) :
    Widens (m.mov r v) (x.mov .w r w) := by
  refine ⟨?_, h.sp, h.pc, h.sr, h.mem⟩
  intro r'
  show Function.update x.reg r (Width.trunc .w w) r' = (Function.update m.reg r v r').setWidth 20
  rcases eq_or_ne r' r with rfl | hne
  · rw [Function.update_self, Function.update_self, hw]
  · rw [Function.update_of_ne hne, Function.update_of_ne hne, h.reg]

theorem push (h : Widens m x) (hsp : 2 ≤ m.sp.toNat) (hw : w = v.setWidth 20) :
    Widens (m.push v) (x.push .w w) := by
  have hsub : x.sp - 2 = (m.sp - 2).setWidth 20 := by
    rw [h.sp]
    bv_omega
  have hat : (x.sp - 2).toNat = (m.sp - 2).toNat := by
    rw [hsub]
    bv_omega
  have hv : w.setWidth 16 = v := by
    rw [hw]
    bv_omega
  refine ⟨h.reg, hsub, h.pc, h.sr, ?_⟩
  show Function.update x.mem (x.sp - 2).toNat (w.setWidth 16) = Function.update m.mem _ v
  rw [hat, hv, h.mem]

theorem pop (h : Widens m x) (hsp : m.sp.toNat + 2 < 65536) :
    Widens (m.pop r) (x.pop .w r) := by
  have hadd : x.sp + 2 = (m.sp + 2).setWidth 20 := by
    rw [h.sp]
    bv_omega
  refine ⟨?_, hadd, h.pc, h.sr, h.mem⟩
  intro r'
  show Function.update x.reg r ((x.mem x.sp.toNat).setWidth 20) r' =
    (Function.update m.reg r (m.mem m.sp.toNat) r').setWidth 20
  rcases eq_or_ne r' r with rfl | hne
  · rw [Function.update_self, Function.update_self, h.mem, h.sp_toNat]
  · rw [Function.update_of_ne hne, Function.update_of_ne hne, h.reg]

theorem ret (h : Widens m x) (hsp : m.sp.toNat + 2 < 65536) : Widens m.ret (x.ret .w) := by
  have hadd : x.sp + 2 = (m.sp + 2).setWidth 20 := by
    rw [h.sp]
    bv_omega
  refine ⟨h.reg, hadd, ?_, h.sr, h.mem⟩
  show (x.mem x.sp.toNat).setWidth 20 = (m.mem m.sp.toNat).setWidth 20
  rw [h.mem, h.sp_toNat]

theorem pushList (rs : List Reg) (h : Widens m x) (hsp : 2 * rs.length ≤ m.sp.toNat) :
    Widens (rs.foldl (fun m r => m.push (m.reg r)) m)
      (rs.foldl (fun m r => m.push .w (m.reg r)) x) := by
  induction rs generalizing m x with
  | nil => exact h
  | cons r rs ih =>
      rw [List.length_cons] at hsp
      have hp := Machine.push_sp (m := m) (by omega) (m.reg r)
      have hlen : 2 * rs.length ≤ (m.push (m.reg r)).sp.toNat := by omega
      exact ih (h.push (by omega) (h.reg r)) hlen

theorem pushm (h : Widens m x) (hsp : 24 ≤ m.sp.toNat) : Widens m.pushm (x.pushm .w) :=
  h.pushList Reg.all.reverse hsp

theorem hwStackframeInit (h : Widens m x) : Widens
    { m with mem := MsTos.hwStackframeInit m.mem (m.reg .r12).toNat (m.reg .r13) (m.reg .r14) }
    (x.hwStackframeInit smallModel) := by
  have hframe : (x.reg .r12).toNat = (m.reg .r12).toNat := by
    rw [h.reg]
    bv_omega
  have hpc : (x.reg .r13).setWidth 16 = m.reg .r13 &&& 0xFFFF := by
    have hmask : m.reg .r13 &&& 0xFFFF = m.reg .r13 := BitVec.and_allOnes
    rw [hmask, h.reg]
    bv_omega
  have hsr : (x.reg .r14).setWidth 16 = m.reg .r14 := by
    rw [h.reg]
    bv_omega
  refine ⟨h.reg, h.sp, h.pc, h.sr, ?_⟩
  show Function.update (Function.update x.mem ((x.reg .r12).toNat + 2) ((x.reg .r13).setWidth 16))
    (x.reg .r12).toNat ((x.reg .r14).setWidth 16 &&& 0x00FF) = _
  rw [hframe, hpc, hsr, h.mem]
  rfl

/-- The arguments of the call in `os_syscall` are those of the context switch. -/
theorem osSyscallArgs (h : Widens m x) (hsp : 10 ≤ m.sp.toNat) :
    Widens m.osSyscallArgs (x.osSyscallArgs smallModel) := by
  have hdata : smallModel.data = .w := rfl
  have hoff : smallModel.frameOffset = 6 := rfl
  unfold CpuX.osSyscallArgs Machine.osSyscallArgs
  rw [hdata, hoff]
  -- the trapframe
  have h₁ : Widens { m with sp := m.sp - 4 } (x.movSp .w (x.sp - 4)) := by
    refine ⟨h.reg, ?_, h.pc, h.sr, h.mem⟩
    show ((x.sp - 4).setWidth 16).setWidth 20 = (m.sp - 4).setWidth 20
    rw [h.sp]
    bv_omega
  have hs₁ : ({ m with sp := m.sp - 4 } : Machine).sp.toNat + 4 = m.sp.toNat := by
    show (m.sp - 4).toNat + 4 = m.sp.toNat
    bv_omega
  generalize ({ m with sp := m.sp - 4 } : Machine) = m₁ at h₁ hs₁ ⊢
  generalize x.movSp .w (x.sp - 4) = x₁ at h₁ ⊢
  dsimp only
  have hs₂ := Machine.push_sp (m := m₁) (by omega) (m₁.reg .r12)
  have h₂ := h₁.push (by omega) (h₁.reg .r12)
  generalize m₁.push (m₁.reg .r12) = m₂ at h₂ hs₂ ⊢
  generalize x₁.push .w (x₁.reg .r12) = x₂ at h₂ ⊢
  have hs₃ := Machine.push_sp (m := m₂) (by omega) (m₂.reg .r13)
  have h₃ := h₂.push (by omega) (h₂.reg .r13)
  generalize m₂.push (m₂.reg .r13) = m₃ at h₃ hs₃ ⊢
  generalize x₂.push .w (x₂.reg .r13) = x₃ at h₃ ⊢
  have hs₄ := Machine.push_sp (m := m₃) (by omega) (m₃.reg .r14)
  have h₄ := h₃.push (by omega) (h₃.reg .r14)
  generalize m₃.push (m₃.reg .r14) = m₄ at h₄ hs₄ ⊢
  generalize x₃.push .w (x₃.reg .r14) = x₄ at h₄ ⊢
  -- the arguments
  have h₅ : Widens (m₄.mov .r12 m₄.sp) (x₄.mov .w .r12 x₄.sp) := by
    apply h₄.mov
    rw [h₄.sp, trunc_word]
  generalize m₄.mov .r12 m₄.sp = m₅ at h₅ ⊢
  generalize x₄.mov .w .r12 x₄.sp = x₅ at h₅ ⊢
  have h₆ : Widens (m₅.mov .r12 (m₅.reg .r12 + 6)) (x₅.mov .w .r12 (x₅.reg .r12 + 6)) := by
    apply h₅.mov
    rw [h₅.reg]
    unfold Width.trunc
    bv_omega
  generalize m₅.mov .r12 (m₅.reg .r12 + 6) = m₆ at h₆ ⊢
  generalize x₅.mov .w .r12 (x₅.reg .r12 + 6) = x₆ at h₆ ⊢
  have h₇ : Widens (m₆.mov .r13 (m₆.mem (m₆.reg .r12 + 4).toNat))
      (x₆.mov .w .r13 (Width.load .w x₆.mem (Width.trunc .w (x₆.reg .r12 + 4)).toNat)) := by
    have hat : (Width.trunc .w (x₆.reg .r12 + 4)).toNat = (m₆.reg .r12 + 4).toNat := by
      rw [h₆.reg]
      unfold Width.trunc
      bv_omega
    apply h₆.mov
    rw [hat, h₆.mem]
    exact trunc_word _
  generalize m₆.mov .r13 (m₆.mem (m₆.reg .r12 + 4).toNat) = m₇ at h₇ ⊢
  generalize x₆.mov .w .r13 (Width.load .w x₆.mem (Width.trunc .w (x₆.reg .r12 + 4)).toNat) = x₇
    at h₇ ⊢
  have h₈ : Widens (m₇.mov .r14 m₇.sr) (x₇.mov .w .r14 (x₇.sr.setWidth 20)) := by
    apply h₇.mov
    rw [h₇.sr, trunc_word]
  exact h₈

/-- In the small models `os_syscall` is that of the context switch. -/
theorem osSyscall {L : Layout} (h : Widens m x) (hsp : 12 ≤ m.sp.toNat) :
    Widens (m.osSyscall L)
      (x.osSyscall smallModel (L.osSyscallBack.setWidth 20) (CpuX.hwStackframeInit smallModel)) := by
  have hdata : smallModel.data = .w := rfl
  have hcode : smallModel.code = .w := rfl
  have h₀ := h.osSyscallArgs (by omega)
  have hs₀ := m.osSyscallArgs_sp
  rw [Machine.osSyscall_eq]
  unfold CpuX.osSyscall Machine.call CpuX.call
  rw [hdata, hcode]
  generalize m.osSyscallArgs = m₀ at h₀ hs₀ ⊢
  generalize x.osSyscallArgs smallModel = x₀ at h₀ ⊢
  dsimp only
  -- the call
  have hlow : 2 ≤ m₀.sp.toNat := by
    rw [hs₀]
    bv_omega
  have hs₁ := Machine.push_sp hlow L.osSyscallBack
  have h₁ := h₀.push (v := L.osSyscallBack) hlow rfl
  have hback : (m₀.push L.osSyscallBack).sp + 2 = m₀.sp := BitVec.sub_add_cancel ..
  generalize m₀.push L.osSyscallBack = m₁ at h₁ hs₁ hback ⊢
  generalize x₀.push .w (L.osSyscallBack.setWidth 20) = x₁ at h₁ ⊢
  have h₂ := h₁.hwStackframeInit.ret (show m₁.sp.toNat + 2 < 65536 by omega)
  generalize hm₂ : Machine.ret _ = m₂ at h₂ ⊢
  generalize CpuX.ret .w _ = x₂ at h₂ ⊢
  have hs₂ : m₂.sp = m.sp - 10 := by
    rw [← hs₀, ← hback, ← hm₂]
    rfl
  -- the trapframe is left where it was
  have h₃ := h₂.pop (r := .r14) (by rw [hs₂]; bv_omega)
  have hs₃ : (m₂.pop .r14).sp = m₂.sp + 2 := rfl
  generalize m₂.pop .r14 = m₃ at h₃ hs₃ ⊢
  generalize x₂.pop .w .r14 = x₃ at h₃ ⊢
  have h₄ := h₃.pop (r := .r13) (by rw [hs₃, hs₂]; bv_omega)
  have hs₄ : (m₃.pop .r13).sp = m₃.sp + 2 := rfl
  generalize m₃.pop .r13 = m₄ at h₄ hs₄ ⊢
  generalize x₃.pop .w .r13 = x₄ at h₄ ⊢
  exact h₄.pop (by rw [hs₄, hs₃, hs₂]; bv_omega)

/-- In the small models `os_preinit` is that of the context switch. -/
theorem osPreinit {L : Layout} (h : Widens m x) (hsp : 28 ≤ m.sp.toNat) :
    Widens (m.osPreinit L) (x.osPreinit smallModel L.osSp (L.osSyscallBack.setWidth 20)
      (CpuX.hwStackframeInit smallModel)) := by
  have h₁ := h.osSyscall (L := L) (by omega)
  have hs₁ := (Machine.osSyscall_frame (L := L) (m := m) (by omega)).1
  unfold Machine.osPreinit CpuX.osPreinit
  generalize m.osSyscall L = m₁ at h₁ hs₁ ⊢
  generalize x.osSyscall smallModel _ _ = x₁ at h₁ ⊢
  have h₂ := h₁.pushm (by rw [hs₁]; bv_omega)
  have hdata : smallModel.data = .w := rfl
  rw [hdata]
  dsimp only
  generalize m₁.pushm = m₂ at h₂ ⊢
  generalize x₁.pushm .w = x₂ at h₂ ⊢
  refine ⟨h₂.reg, h₂.sp, h₂.pc, h₂.sr, ?_⟩
  have hv : x₂.sp.setWidth 16 = m₂.sp := by
    rw [h₂.sp]
    bv_omega
  show Function.update x₂.mem L.osSp (x₂.sp.setWidth 16) = Function.update m₂.mem L.osSp m₂.sp
  rw [hv, h₂.mem]

end Widens

end CpuX

end MsTos
