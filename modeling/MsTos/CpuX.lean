-- SUMMARY: The CPU of the MSP430X in every code and data model of `data_model.h`, and its stack in each of them.
import MsTos.Cpu

namespace MsTos

/-- A 20-bit register. -/
abbrev Long := BitVec 20

/-- The operand size of an instruction, `.w` or `.a`. -/
inductive Width where
  | w | a

namespace Width

/-- The size of an operand in memory. -/
def bytes : Width → Nat
  | w => 2
  | a => 4

/-- What an instruction that computes `v` leaves in a register. -/
def trunc : Width → Long → Long
  | w, v => (v.setWidth 16).setWidth 20
  | a, v => v

/-- The operand at an address. -/
def load : Width → (Nat → Word) → Nat → Long
  | w, mem, x => (mem x).setWidth 20
  | a, mem, x => (mem (x + 2)).setWidth 4 ++ mem x

/-- The memory after an operand was written to an address. -/
def store : Width → (Nat → Word) → Nat → Long → (Nat → Word)
  | w, mem, x, v => Function.update mem x (v.setWidth 16)
  | a, mem, x, v =>
      Function.update (Function.update mem (x + 2) ((v >>> 16).setWidth 16)) x (v.setWidth 16)

variable {W : Width} {mem mem' : Nat → Word} {x y : Nat} {v : Long}

theorem bytes_pos : 0 < W.bytes := by
  cases W <;> decide

/-- The two words of a 20-bit operand. -/
theorem append_setWidth (v : Long) :
    (((v >>> 16).setWidth 16).setWidth 4 ++ v.setWidth 16 : BitVec 20) = v := by
  apply BitVec.eq_of_getLsbD_eq
  intro i hi
  rw [BitVec.getLsbD_append]
  split
  · rename_i h
    simp [h]
  · have hlt : i - 16 < 4 := by omega
    have hadd : 16 + (i - 16) = i := by omega
    simp [hlt, hadd]

@[simp] theorem load_store : W.load (W.store mem x v) x = W.trunc v := by
  cases W with
  | w => exact congrArg (BitVec.setWidth 20) (Function.update_self ..)
  | a =>
      show (Function.update (Function.update mem (x + 2) _) x _ (x + 2)).setWidth 4 ++
        Function.update (Function.update mem (x + 2) _) x _ x = v
      rw [Function.update_of_ne (by omega), Function.update_self, Function.update_self]
      exact append_setWidth v

theorem load_congr (h : ∀ y, x ≤ y → y < x + W.bytes → mem' y = mem y) :
    W.load mem' x = W.load mem x := by
  cases W with
  | w => exact congrArg (BitVec.setWidth 20) (h x (Nat.le_refl x) (Nat.lt_add_of_pos_right bytes_pos))
  | a =>
      show (mem' (x + 2)).setWidth 4 ++ mem' x = (mem (x + 2)).setWidth 4 ++ mem x
      rw [h x (Nat.le_refl x) (Nat.lt_add_of_pos_right bytes_pos),
        h (x + 2) (Nat.le_add_right x 2) (Nat.add_lt_add_left (by decide) x)]

/-- A write changes nothing but the operand. -/
theorem store_of_lt (h : y < x ∨ x + W.bytes ≤ y) : W.store mem x v y = mem y := by
  have hpos := bytes_pos (W := W)
  cases W with
  | w => exact Function.update_of_ne (by omega) ..
  | a =>
      have hb : bytes a = 4 := rfl
      exact (Function.update_of_ne (by omega) ..).trans (Function.update_of_ne (by omega) ..)

/-- The number of values of an operand. -/
def limit : Width → Nat
  | w => 65536
  | a => 1048576

theorem trunc_of_lt (h : v.toNat < W.limit) : W.trunc v = v := by
  cases W with
  | w =>
      have h : v.toNat < 65536 := h
      show (v.setWidth 16).setWidth 20 = v
      bv_omega
  | a => rfl

@[simp] theorem trunc_load : W.trunc (W.load mem x) = W.load mem x := by
  cases W with
  | w =>
      show (((mem x).setWidth 20).setWidth 16).setWidth 20 = (mem x).setWidth 20
      bv_omega
  | a => rfl

end Width

/-- The symbols that `data_model.h` asks for. -/
structure Model where
  msp430x : Bool
  largeCode : Bool
  largeData : Bool

namespace Model

/-- The operand size of `_push`, `_pop`, `_mov`, `_add` and `_sub`. -/
def data (M : Model) : Width := if M.largeData && M.msp430x then .a else .w

/-- The size of the return address that `_call` pushes. -/
def code (M : Model) : Width := if M.largeCode && M.msp430x then .a else .w

end Model

/-- The registers, with 20 bits, and the memory, a word at every even address. -/
structure CpuX where
  reg : Reg → Long
  sp : Long
  pc : Long
  sr : Word
  mem : Nat → Word

namespace CpuX

/-! ## Instructions -/

def mov (W : Width) (m : CpuX) (r : Reg) (v : Long) : CpuX :=
  { m with reg := Function.update m.reg r (W.trunc v) }

/-- An instruction that computes a new stack pointer. -/
def movSp (W : Width) (m : CpuX) (v : Long) : CpuX := { m with sp := W.trunc v }

def push (W : Width) (m : CpuX) (v : Long) : CpuX :=
  { m with
    sp := m.sp - W.bytes
    mem := W.store m.mem (m.sp - W.bytes).toNat v }

def pop (W : Width) (m : CpuX) (r : Reg) : CpuX :=
  { m with
    reg := Function.update m.reg r (W.load m.mem m.sp.toNat)
    sp := m.sp + W.bytes }

def ret (W : Width) (m : CpuX) : CpuX :=
  { m with
    pc := W.load m.mem m.sp.toNat
    sp := m.sp + W.bytes }

/-- The call of a function that does `f` before it returns to `back`. -/
def call (W : Width) (m : CpuX) (back : Long) (f : CpuX → CpuX) : CpuX := (f (m.push W back)).ret W

/-- The MSP430X takes the upper 4 bits of the program counter from the word of the status register. -/
def reti (M : Model) (m : CpuX) : CpuX :=
  let status := m.mem m.sp.toNat
  let high : BitVec 4 := if M.msp430x then (status >>> 12).setWidth 4 else 0
  { m with
    sr := status &&& 0x0FFF
    pc := high ++ m.mem (m.sp + 2).toNat
    sp := m.sp + 4 }

/-- `_push r15` to `_push r4`, or `_pushm #12, r15`. -/
def pushm (W : Width) (m : CpuX) : CpuX := Reg.all.reverse.foldl (fun m r => m.push W (m.reg r)) m

/-- `_pop r4` to `_pop r15`, or `_popm #12, r15`. -/
def popm (W : Width) (m : CpuX) : CpuX := Reg.all.foldl (pop W) m

/-! ## The stack pointer -/

variable {W : Width} {m : CpuX}

theorem pushm_sp : (m.pushm W).sp = m.sp - (12 * W.bytes : Nat) := by
  cases W with
  | w =>
      show m.sp - 2 - 2 - 2 - 2 - 2 - 2 - 2 - 2 - 2 - 2 - 2 - 2 = m.sp - 24
      bv_omega
  | a =>
      show m.sp - 4 - 4 - 4 - 4 - 4 - 4 - 4 - 4 - 4 - 4 - 4 - 4 = m.sp - 48
      bv_omega

theorem popm_sp : (m.popm W).sp = m.sp + (12 * W.bytes : Nat) := by
  cases W with
  | w =>
      show m.sp + 2 + 2 + 2 + 2 + 2 + 2 + 2 + 2 + 2 + 2 + 2 + 2 = m.sp + 24
      bv_omega
  | a =>
      show m.sp + 4 + 4 + 4 + 4 + 4 + 4 + 4 + 4 + 4 + 4 + 4 + 4 = m.sp + 48
      bv_omega

/-- A function that leaves the stack pointer alone is called and returns. -/
theorem call_sp {f : CpuX → CpuX} (hf : ∀ m, (f m).sp = m.sp) (back : Long) :
    (m.call W back f).sp = m.sp := by
  show (f (m.push W back)).sp + W.bytes = m.sp
  rw [hf]
  exact BitVec.sub_add_cancel ..

/-! ## What lies on the stack -/

variable {v : Long} {vs : List Long}

theorem sub_bytes_toNat (h : W.bytes ≤ m.sp.toNat) :
    (m.sp - W.bytes).toNat = m.sp.toNat - W.bytes := by
  cases W with
  | w =>
      have h : 2 ≤ m.sp.toNat := h
      show (m.sp - 2).toNat = m.sp.toNat - 2
      bv_omega
  | a =>
      have h : 4 ≤ m.sp.toNat := h
      show (m.sp - 4).toNat = m.sp.toNat - 4
      bv_omega

theorem add_bytes_toNat (h : m.sp.toNat + W.bytes < 1048576) :
    (m.sp + W.bytes).toNat = m.sp.toNat + W.bytes := by
  cases W with
  | w =>
      have h : m.sp.toNat + 2 < 1048576 := h
      show (m.sp + 2).toNat = m.sp.toNat + 2
      bv_omega
  | a =>
      have h : m.sp.toNat + 4 < 1048576 := h
      show (m.sp + 4).toNat = m.sp.toNat + 4
      bv_omega

theorem push_sp (h : W.bytes ≤ m.sp.toNat) (v : Long) :
    (m.push W v).sp.toNat + W.bytes = m.sp.toNat := by
  show (m.sp - W.bytes).toNat + W.bytes = m.sp.toNat
  rw [sub_bytes_toNat h]
  omega

/-- Pushing changes the memory below the stack pointer only. -/
theorem push_frame (h : W.bytes ≤ m.sp.toNat) (v : Long) :
    (m.push W v).sp.toNat + W.bytes = m.sp.toNat ∧ (m.push W v).reg = m.reg ∧
      ∀ x, x < (m.push W v).sp.toNat ∨ m.sp.toNat ≤ x → (m.push W v).mem x = m.mem x := by
  have hs := push_sp h v
  refine ⟨hs, rfl, ?_⟩
  intro x hx
  have hout : x < (m.push W v).sp.toNat ∨ (m.push W v).sp.toNat + W.bytes ≤ x := by omega
  exact Width.store_of_lt hout

/-- The stack of operands of one size. -/
def stack (W : Width) : StackMachine CpuX Reg Long Word where
  size := W.bytes
  limit := 1048576
  sp m := m.sp.toNat
  reg := reg
  mem := mem
  load := W.load
  norm := W.trunc
  push := push W
  pop := pop W
  size_pos := Width.bytes_pos
  load_congr := Width.load_congr
  push_reg _ _ := rfl
  push_sp _ v h := push_sp h v
  push_mem _ v h := (push_frame h v).2.2
  push_load _ _ := Width.load_store
  pop_mem _ _ := rfl
  pop_sp _ _ h := add_bytes_toNat h
  pop_reg _ _ := Function.update_self ..
  pop_reg_of_ne _ _ _ h := Function.update_of_ne h ..

theorem pushm_stored (h : 12 * W.bytes ≤ m.sp.toNat) :
    (m.pushm W).sp.toNat + 12 * W.bytes = m.sp.toNat ∧
      (∀ x, m.sp.toNat ≤ x → (m.pushm W).mem x = m.mem x) ∧
      Stored W.bytes (W.load (m.pushm W).mem) (m.pushm W).sp.toNat
        (Reg.all.map fun r => W.trunc (m.reg r)) := by
  have hlen : W.bytes * Reg.all.reverse.length = 12 * W.bytes := Nat.mul_comm ..
  have hnil : (stack W).Top m [] := trivial
  obtain ⟨hpush, hst⟩ := (stack W).pushList Reg.all.reverse hnil (hlen ▸ h)
  rw [List.reverse_reverse, List.append_nil] at hst
  rw [← hlen]
  exact ⟨hpush.sp, fun x hx => hpush.mem x (.inr hx), hst⟩

theorem popm_stored {f : Reg → Long}
    (hst : Stored W.bytes (W.load m.mem) m.sp.toNat (Reg.all.map f))
    (h : m.sp.toNat + 12 * W.bytes < 1048576) : (m.popm W).reg = f ∧ (m.popm W).mem = m.mem ∧
      (m.popm W).sp.toNat = m.sp.toNat + 12 * W.bytes := by
  have hlen : W.bytes * Reg.all.length = 12 * W.bytes := Nat.mul_comm ..
  rw [← List.append_nil (Reg.all.map f)] at hst
  rw [← hlen] at h ⊢
  obtain ⟨hin, -, hmem, hend, -⟩ := (stack W).popList Reg.all (by decide) f hst h
  exact ⟨funext fun r => hin r (Reg.mem_all r), hmem, hend⟩

end CpuX

end MsTos
