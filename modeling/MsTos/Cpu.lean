-- SUMMARY: The CPU in the small code and data model, and the instructions of `krnl_swtch.asm`.
import MsTos.Lib.WordStack
import Mathlib.Init

namespace MsTos

/-- A 16-bit register or memory word. -/
abbrev Word := BitVec 16

/-- The general purpose registers. -/
inductive Reg where
  | r4 | r5 | r6 | r7 | r8 | r9 | r10 | r11 | r12 | r13 | r14 | r15
  deriving DecidableEq

/-- `r4` to `r15`, as they lie in `sw_stackframe_t`. -/
def Reg.all : List Reg := [.r4, .r5, .r6, .r7, .r8, .r9, .r10, .r11, .r12, .r13, .r14, .r15]

theorem Reg.mem_all (r : Reg) : r ∈ Reg.all := by
  cases r <;> decide

/-- `GIE`: the general interrupt enable bit of the status register. -/
def gie : Word := 0x0008

/-- `CPUOFF`: the low power bit that turns the CPU off. -/
def cpuOff : Word := 0x0010

/-- `SCG0`: the only bit of the status register that an interrupt leaves alone. -/
def scg0 : Word := 0x0040

/-- The CPU and its memory, a word at every even address. -/
structure Machine where
  reg : Reg → Word
  sp : Word
  pc : Word
  sr : Word
  mem : Nat → Word

/-- What a thread sees of the CPU. -/
structure Context where
  reg : Reg → Word
  sp : Word
  pc : Word
  sr : Word

namespace Context

/-- The words of the hardware and software stack frames of an interrupted thread. -/
def frame (c : Context) : List Word := Reg.all.map c.reg ++ [c.sr, c.pc]

end Context

namespace Machine

/-- The context of the thread that runs. -/
def context (m : Machine) : Context := ⟨m.reg, m.sp, m.pc, m.sr⟩

/-! ## Instructions -/

/-- `mov` to a register. -/
def mov (m : Machine) (r : Reg) (v : Word) : Machine := { m with reg := Function.update m.reg r v }

/-- `mov` to memory. -/
def store (m : Machine) (a : Nat) (v : Word) : Machine :=
  { m with mem := Function.update m.mem a v }

def push (m : Machine) (v : Word) : Machine :=
  { m with sp := m.sp - 2, mem := Function.update m.mem (m.sp - 2).toNat v }

def pop (m : Machine) (r : Reg) : Machine :=
  { m with reg := Function.update m.reg r (m.mem m.sp.toNat), sp := m.sp + 2 }

def ret (m : Machine) : Machine := { m with pc := m.mem m.sp.toNat, sp := m.sp + 2 }

/-- The call of a function that does `f` before it returns to `back`. -/
def call (m : Machine) (back : Word) (f : Machine → Machine) : Machine := (f (m.push back)).ret

/-- The CPU takes an interrupt. -/
def interrupt (m : Machine) (vector : Word) : Machine :=
  let m := m.push m.pc
  let m := m.push m.sr
  { m with sr := m.sr &&& scg0, pc := vector }

def reti (m : Machine) : Machine :=
  { m with sr := m.mem m.sp.toNat, pc := m.mem (m.sp + 2).toNat, sp := m.sp + 4 }

/-- `_push r15` to `_push r4`, or `_pushm #12, r15`. -/
def pushm (m : Machine) : Machine := Reg.all.reverse.foldl (fun m r => m.push (m.reg r)) m

/-- `_pop r4` to `_pop r15`, or `_popm #12, r15`. -/
def popm (m : Machine) : Machine := Reg.all.foldl pop m

/-! ## The stack -/

variable {m : Machine} {vs : List Word} {v : Word}

theorem sub_two_toNat {x : Word} (h : 2 ≤ x.toNat) : (x - 2).toNat = x.toNat - 2 := by
  bv_omega

theorem add_two_toNat {x : Word} (h : x.toNat + 2 < 65536) : (x + 2).toNat = x.toNat + 2 := by
  bv_omega

theorem push_sp (hsp : 2 ≤ m.sp.toNat) (v : Word) : (m.push v).sp.toNat + 2 = m.sp.toNat := by
  show (m.sp - 2).toNat + 2 = m.sp.toNat
  rw [sub_two_toNat hsp]
  omega

/-- The stack of words. -/
def stack : StackMachine Machine Reg Word Word where
  size := 2
  limit := 65536
  sp m := m.sp.toNat
  reg := reg
  mem := mem
  load m x := m x
  norm v := v
  push := push
  pop := pop
  size_pos := by decide
  load_congr h := h _ (Nat.le_refl _) (by omega)
  push_reg _ _ := rfl
  push_sp _ v h := push_sp h v
  push_mem m v h x hx := by
    have hs := push_sp h v
    exact Function.update_of_ne (show x ≠ (m.push v).sp.toNat by omega) ..
  push_load _ _ := Function.update_self ..
  pop_mem _ _ := rfl
  pop_sp _ _ h := add_two_toNat h
  pop_reg _ _ := Function.update_self ..
  pop_reg_of_ne _ _ _ h := Function.update_of_ne h ..

theorem push_stored (h : Stored 2 m.mem m.sp.toNat vs) (hsp : 2 ≤ m.sp.toNat) (v : Word) :
    Stored 2 (m.push v).mem (m.push v).sp.toNat (v :: vs) := stack.top_push h hsp v

/-- Pushing changes the memory below the stack pointer only. -/
structure Pushed (n : Nat) (m m' : Machine) : Prop where
  reg : m'.reg = m.reg
  sp : m'.sp.toNat + n = m.sp.toNat
  mem : ∀ x, x < m'.sp.toNat ∨ m.sp.toNat ≤ x → m'.mem x = m.mem x

theorem Pushed.of_stack {n : Nat} {m' : Machine} (h : stack.Pushed n m m') : Pushed n m m' :=
  ⟨h.reg, h.sp, h.mem⟩

theorem pushed_push (hsp : 2 ≤ m.sp.toNat) (v : Word) : Pushed 2 m (m.push v) :=
  .of_stack (stack.pushed_push hsp v)

theorem Pushed.trans {n n' : Nat} {m₁ m₂ m₃ : Machine} (h : Pushed n m₁ m₂) (h' : Pushed n' m₂ m₃) :
    Pushed (n + n') m₁ m₃ := by
  have hsp := h.sp
  have hsp' := h'.sp
  refine ⟨h'.reg.trans h.reg, by omega, ?_⟩
  intro x hx
  rw [h'.mem x (by omega), h.mem x (by omega)]

theorem pushm_stored (h : Stored 2 m.mem m.sp.toNat vs) (hsp : 24 ≤ m.sp.toNat) :
    Pushed 24 m m.pushm ∧ Stored 2 m.pushm.mem m.pushm.sp.toNat (Reg.all.map m.reg ++ vs) := by
  obtain ⟨hpush, hst⟩ := stack.pushList Reg.all.reverse h hsp
  rw [List.reverse_reverse] at hst
  exact ⟨.of_stack hpush, hst⟩

theorem popm_stored {f : Reg → Word} (h : Stored 2 m.mem m.sp.toNat (Reg.all.map f ++ vs))
    (hsp : m.sp.toNat + 24 < 65536) :
    m.popm.reg = f ∧ m.popm.mem = m.mem ∧ m.popm.sp.toNat = m.sp.toNat + 24 ∧
      Stored 2 m.mem (m.sp.toNat + 24) vs := by
  obtain ⟨hin, -, hmem, hend, hrest⟩ := stack.popList Reg.all (by decide) f h hsp
  unfold StackMachine.Top at hrest
  rw [hmem, hend] at hrest
  exact ⟨funext fun r => hin r (Reg.mem_all r), hmem, hend, hrest⟩

end Machine

end MsTos
