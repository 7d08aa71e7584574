-- SUMMARY: When the peeks of the ring buffer, which do not wrap around, agree with its pops and pushes.
import MsTos.QueueRuns

namespace MsTos

namespace Queue

open Fifo (Op Event accepted taken)

variable {α : Type} [Inhabited α] {size d : Nat} {q q' : Queue α size} {h : List (Event α)}

/-- What was written to the storage, oldest first: the zeros of `memset`, then the accepted items. -/
def written (size : Nat) (h : List (Event α)) : List α :=
  List.replicate size default ++ accepted h

theorem length_written : (written size h).length = size + (accepted h).length := by
  rw [written, List.length_append, List.length_replicate]

/-- The heads go round with what is pushed and popped, and every slot holds what was last written to
it: the slot behind the newest item the oldest one. -/
structure Stores (h : List (Event α)) (q : Queue α size) : Prop where
  read_eq : q.read = taken h % size
  write_eq : q.write = (accepted h).length % size
  storage_eq : ∀ d, d < size → (written size h)[(accepted h).length + d]? =
    some (q.storage (((accepted h).length + 1 + d) % size))

theorem Stores.init : Stores [] (init : Queue α size) := by
  refine ⟨(Nat.zero_mod size).symm, (Nat.zero_mod size).symm, ?_⟩
  intro d hd
  show (List.replicate size default ++ [])[0 + d]? = some default
  rw [List.append_nil, Nat.zero_add]
  exact List.getElem?_replicate_of_lt hd

theorem Stores.push (hs : Stores h q) (hroom : q.count < size) (a : α) :
    Stores (.pushed a true :: h) (q.push a).2 := by
  have hlen : (accepted (.pushed a true :: h)).length = (accepted h).length + 1 := by
    rw [accepted, List.length_append, List.length_singleton]
  have hnext : (q.write + 1) % size = ((accepted h).length + 1) % size := by
    rw [hs.write_eq, Nat.mod_add_mod]
  have happ : written size (.pushed a true :: h) = written size h ++ [a] := by
    rw [written, accepted, ← List.append_assoc, written]
  rw [push_of_lt hroom, hnext]
  refine ⟨hs.read_eq, ?_, ?_⟩
  · rw [hlen]
  · intro d hd
    rw [hlen, happ]
    dsimp only
    rcases Nat.lt_or_ge (d + 1) size with hlt | hge
    · -- an older item is one place further behind
      have hne : ((accepted h).length + 1 + 1 + d) % size ≠ ((accepted h).length + 1) % size := by
        intro he
        have hmod := Nat.sub_mod_eq_zero_of_mod_eq he
        rw [Nat.mod_eq_of_lt (by omega)] at hmod
        omega
      rw [List.getElem?_append_left (by rw [length_written]; omega), Function.update_of_ne hne,
        Nat.add_assoc _ 1 d, Nat.add_comm 1 d, hs.storage_eq (d + 1) hlt]
      congr 3
      omega
    · obtain rfl : size = d + 1 := by omega
      have hslot : ((accepted h).length + 1 + 1 + d) % (d + 1) = ((accepted h).length + 1) % (d + 1) := by
        rw [Nat.add_assoc _ 1 d, Nat.add_comm 1 d, Nat.add_mod_right]
      have hat : (accepted h).length + 1 + d = (written (d + 1) h).length := by
        rw [length_written]
        omega
      rw [hslot, Function.update_self, hat, List.getElem?_concat_length]

theorem Stores.step (hs : Stores h q) {op : Op α} {e : Event α}
    (hstep : (system α size).step q op = some (e, q')) : Stores (e :: h) q' := by
  cases op with
  | push a =>
      obtain ⟨rfl, rfl⟩ := Prod.mk.inj (Option.some.inj hstep)
      by_cases hroom : q.count < size
      · have hpush := hs.push hroom a
        have hzero : (q.push a).1 = 0 := by
          rw [push_of_lt hroom]
        rwa [decide_eq_true hzero]
      · rw [push_of_full hroom]
        exact ⟨hs.read_eq, hs.write_eq, hs.storage_eq⟩
  | pop =>
      obtain ⟨rfl, rfl⟩ := Prod.mk.inj (Option.some.inj hstep)
      rcases Nat.eq_zero_or_pos q.count with h0 | hpos
      · rw [pop_of_zero h0]
        exact ⟨hs.read_eq, hs.write_eq, hs.storage_eq⟩
      · rw [pop_of_pos hpos]
        refine ⟨?_, hs.write_eq, hs.storage_eq⟩
        show (q.read + 1) % size = (taken h + 1) % size
        rw [hs.read_eq, Nat.mod_add_mod]

theorem stores {G : Queue α size → Op α → Prop} (hr : (system α size).Run G h q) : Stores h q := by
  refine hr.invariant ?_ ?_
  · rintro q rfl
    exact .init
  · intro h q op e q' hs _ hstep
    exact hs.step hstep

/-! ## Peeks -/

/-- `front` and `back` return the oldest and the newest item, and read within the storage. -/
structure PeeksAgree (q : Queue α size) : Prop where
  front : q.front = q.pop.1
  back : q.back = q.toList.getLast?
  frontIndex_lt : q.frontIndex < size
  backIndex_lt : q.backIndex < size

/-- Neither head is about to wrap around, and the newest item equals the one that was written to
the storage `size - 1` pushes before it. -/
def PeeksFit (size : Nat) (h : List (Event α)) : Prop :=
  ¬ size ∣ taken h + 1 ∧ ¬ size ∣ (accepted h).length + 1 ∧
    (accepted h).getLast? = (written size h)[(accepted h).length]?

instance [DecidableEq α] : Decidable (PeeksFit size h) :=
  inferInstanceAs (Decidable (_ ∧ _ ∧ _))

/-- A head that is not about to wrap around has its next slot behind it. -/
theorem mod_add_one_lt_iff {n : Nat} (hsize : 0 < size) : n % size + 1 < size ↔ ¬ size ∣ n + 1 := by
  have hlt := Nat.mod_lt n hsize
  have hmod : (n + 1) % size = (n % size + 1) % size := (Nat.mod_add_mod n size 1).symm
  rw [Nat.dvd_iff_mod_eq_zero, hmod]
  rcases Nat.lt_or_ge (n % size + 1) size with h | h
  · rw [Nat.mod_eq_of_lt h]
    omega
  · have he : n % size + 1 = size := by omega
    rw [he, Nat.mod_self]
    omega

omit [Inhabited α] in
/-- Within the storage `front` reads what the next pop takes. -/
theorem front_eq (hpos : 0 < q.count) (hlt : q.frontIndex < size) : q.front = q.pop.1 := by
  have hindex : (q.read + 1) % size = q.frontIndex := Nat.mod_eq_of_lt hlt
  rw [front, if_pos hpos, pop_of_pos hpos, hindex]

section

variable (hs : Stores h q) (hsize : 0 < size)
include hs hsize

theorem Stores.frontIndex_lt_iff : q.frontIndex < size ↔ ¬ size ∣ taken h + 1 := by
  rw [frontIndex, hs.read_eq, mod_add_one_lt_iff hsize]

theorem Stores.backIndex_lt_iff : q.backIndex < size ↔ ¬ size ∣ (accepted h).length + 1 := by
  rw [backIndex, hs.write_eq, mod_add_one_lt_iff hsize]

/-- Within the storage `back` reads the slot that the next push will write to. -/
theorem Stores.back_eq (hpos : 0 < q.count) (hlt : q.backIndex < size) :
    q.back = (written size h)[(accepted h).length]? := by
  have hindex : ((accepted h).length + 1 + 0) % size = q.backIndex := by
    rw [Nat.add_zero, ← Nat.mod_add_mod, ← hs.write_eq]
    exact Nat.mod_eq_of_lt hlt
  have hslot := hs.storage_eq 0 hsize
  rw [hindex, Nat.add_zero] at hslot
  rw [back, if_pos hpos, hslot]

end

omit [Inhabited α] in
/-- The newest item of a queue that is not empty is the last one that was accepted. -/
theorem getLast?_toList (hh : Fifo.Holds size h q.toList) (hpos : 0 < q.count) :
    q.toList.getLast? = (accepted h).getLast? := by
  have hlen := hh.length_add
  rw [length_toList] at hlen
  rw [← hh.items, List.getLast?_drop, if_neg (by omega)]

/-- In a queue that is not empty the peeks agree with the operations if and only if no head is about
to wrap around and the slot behind the newest item happens to hold an equal one. -/
theorem peeks_agree_iff (hsize : 2 ≤ size) (hr : (system α size).Run (fun _ _ => True) h q)
    (hpos : 0 < q.count) : PeeksAgree q ↔ PeeksFit size h := by
  have hs := stores hr
  have hsize : 0 < size := by omega
  have hlast := getLast?_toList (holds hsize hr) hpos
  constructor
  · rintro ⟨-, hback, hfront, hlt⟩
    refine ⟨(hs.frontIndex_lt_iff hsize).1 hfront, (hs.backIndex_lt_iff hsize).1 hlt, ?_⟩
    rw [← hlast, ← hback, hs.back_eq hsize hpos hlt]
  · rintro ⟨hfront, hlt, heq⟩
    have hfront := (hs.frontIndex_lt_iff hsize).2 hfront
    have hlt := (hs.backIndex_lt_iff hsize).2 hlt
    refine ⟨front_eq hpos hfront, ?_, hfront, hlt⟩
    rw [hs.back_eq hsize hpos hlt, hlast, heq]

/-- The slot behind the newest element still holds the first one, which is equal to it. -/
theorem peeks_agree_iff_four_steps :
    ∃ (h : List (Event Nat)) (q : Queue Nat 3), (system Nat 3).Run (fun _ _ => True) h q ∧
      accepted h = [7, 8, 7] ∧ q.toList = [8, 7] ∧ PeeksFit 3 h ∧ PeeksAgree q := by
  obtain ⟨h, q, hr, hacc, hl, hpos, hfit⟩ := TransitionSystem.exists_run_of_exec
    (M := system Nat 3) (G := fun _ _ => True) (s := init) rfl [.push 7, .pop, .push 8, .push 7]
    (P := fun h q => accepted h = [7, 8, 7] ∧ q.toList = [8, 7] ∧ 0 < q.count ∧ PeeksFit 3 h)
    (by decide +kernel)
  exact ⟨h, q, hr, hacc, hl, hfit, (peeks_agree_iff (by decide) hr hpos).2 hfit⟩

/-- After a push, a pop and another push `front` reads behind the storage of two elements, and `back`
returns the element that is gone. -/
theorem peeks_disagree :
    ∃ (h : List (Event Nat)) (q : Queue Nat 2), (system Nat 2).Run (fun _ _ => True) h q ∧
      0 < q.count ∧ q.toList = [8] ∧ q.frontIndex = 2 ∧ q.back = some 7 ∧ ¬ PeeksAgree q := by
  have hrun := TransitionSystem.Run.init (M := system Nat 2) (G := fun _ _ => True) rfl
  have hrun := hrun.step trivial (a := .push 7) rfl
  have hrun := hrun.step trivial (a := .pop) rfl
  have hrun := hrun.step trivial (a := .push 8) rfl
  refine ⟨_, _, hrun, by decide, by decide, by decide, by decide, ?_⟩
  intro h
  exact absurd h.frontIndex_lt (by decide)

end Queue

end MsTos
