-- SUMMARY: Families of disjoint lists of nodes, each under its head node.
import MsTos.Lib.LinkedCycle

/-!
# Families of lists

What a program with intrusive lists has in mind: every list has a head node, and a node is in at most
one list. A node that is in no list is free or has never been initialised.
-/

variable {ν : Type*} {next prev : ν → Option ν} {a b h h' x y : ν} {l l₁ l₂ : List ν}

/-! ## Neighbours -/

section Follower

variable [DecidableEq ν]

/-- The node behind `x`. -/
def follower (l : List ν) (x : ν) : Option ν := l[l.idxOf x + 1]?

theorem follower_append (hx : x ∉ l₁) : follower (l₁ ++ x :: l₂) x = l₂.head? := by
  have hi : (l₁ ++ x :: l₂).idxOf x = l₁.length := by
    rw [List.idxOf_append_of_notMem hx, List.idxOf_cons_self, Nat.add_zero]
  unfold follower
  rw [hi, List.getElem?_append_right (by omega)]
  cases l₂ <;> simp

theorem follower_cons_self (x : ν) (l : List ν) : follower (x :: l) x = l.head? := by
  unfold follower
  rw [List.idxOf_cons_self]
  cases l <;> rfl

theorem follower_mem (hy : follower (h :: l) x = some y) : y ∈ l := by
  unfold follower at hy
  rw [List.getElem?_cons_succ] at hy
  exact List.mem_of_getElem? hy

theorem follower_ne_head (hnd : (h :: l).Nodup) (hy : follower (h :: l) x = some y) : y ≠ h := by
  rintro rfl
  exact (List.nodup_cons.1 hnd).1 (follower_mem hy)

theorem follower_ne (hnd : l.Nodup) (hx : x ∈ l) : follower l x ≠ some x := by
  obtain ⟨l₁, l₂, rfl⟩ := List.append_of_mem hx
  obtain ⟨-, hnd₂, hdisj⟩ := List.nodup_append.1 hnd
  have hx₁ : x ∉ l₁ := fun hm => hdisj x hm x List.mem_cons_self rfl
  rw [follower_append hx₁]
  exact fun hy => (List.nodup_cons.1 hnd₂).1 (List.mem_of_mem_head? hy)

theorem head?_drop_idxOf (l : List ν) (h x : ν) :
    (l.drop ((h :: l).idxOf x) ++ [h]).head? = some ((follower (h :: l) x).getD h) := by
  unfold follower
  rw [List.head?_append, List.head?_drop, List.getElem?_cons_succ]
  cases l[(h :: l).idxOf x]? <;> rfl

/-- In a cycle, the head follows on the last node. -/
theorem Segment.next_follower (hs : Segment next prev h l h) (hnd : (h :: l).Nodup)
    (hx : x ∈ h :: l) : next x = some ((follower (h :: l) x).getD h) := by
  obtain ⟨l₁, l₂, hl⟩ := List.append_of_mem hx
  have hx₁ : x ∉ l₁ := by
    rw [hl] at hnd
    intro hm
    exact (List.nodup_append.1 hnd).2.2 x hm x (by simp) rfl
  have hn : next x = some ((l₂ ++ [h]).head (by simp)) := by
    cases l₁ with
    | nil =>
        cases hl
        exact hs.next_start
    | cons z l₁ =>
        cases hl
        exact (Segment.append_iff.1 hs).2.next_start
  rw [hn, hl, follower_append hx₁]
  cases l₂ <;> rfl

/-- In a cycle, the last node goes before the head. -/
theorem Segment.prev_follower (hs : Segment next prev h l h) (hnd : (h :: l).Nodup)
    (hx : x ∈ h :: l) : prev x = some ((follower (h :: l.reverse) x).getD h) := by
  refine hs.reverse.next_follower ?_ ?_
  · rw [List.nodup_cons, List.mem_reverse, List.nodup_reverse, ← List.nodup_cons]
    exact hnd
  · rwa [List.mem_cons, List.mem_reverse, ← List.mem_cons]

end Follower

/-! ## Families -/

/-- Where a node is: never initialised, in no list, or in the list under `h`. -/
inductive Place (ν : Type*) where
  | raw
  | free
  | on (h : ν)
  deriving DecidableEq

/-- Lists under their heads. `elems h` only counts if `h` is a head. -/
structure ListFamily (ν : Type*) where
  place : ν → Place ν
  elems : ν → List ν
  on_iff : ∀ h x, place x = .on h ↔ place h = .on h ∧ x ∈ h :: elems h
  nodup : ∀ h, place h = .on h → (h :: elems h).Nodup

namespace ListFamily

variable (f : ListFamily ν)

/-- There is a list under `h`. -/
abbrev IsHead (h : ν) : Prop := f.place h = .on h

/-- The node is in no list. -/
abbrev Off (x : ν) : Prop := ∀ h, f.place x ≠ .on h

/-- No node has been initialised. -/
def raw (ν : Type*) : ListFamily ν where
  place _ := .raw
  elems _ := []
  on_iff _ _ := ⟨nofun, nofun⟩
  nodup _ := nofun

variable {f}

theorem isHead_of_on (hx : f.place x = .on h) : f.IsHead h := ((f.on_iff h x).1 hx).1

theorem mem_of_on (hx : f.place x = .on h) : x ∈ h :: f.elems h := ((f.on_iff h x).1 hx).2

theorem on_of_mem (hh : f.IsHead h) (hx : x ∈ h :: f.elems h) : f.place x = .on h :=
  (f.on_iff h x).2 ⟨hh, hx⟩

theorem nodup_reverse (hh : f.IsHead h) : (h :: (f.elems h).reverse).Nodup := by
  rw [List.nodup_cons, List.mem_reverse, List.nodup_reverse, ← List.nodup_cons]
  exact f.nodup h hh

variable (f) [DecidableEq ν]

omit [DecidableEq ν] in
variable {f} in
theorem head_notMem (hh : f.IsHead h) : h ∉ f.elems h := (List.nodup_cons.1 (f.nodup h hh)).1

variable {f} in
/-- A node in the middle of a list. -/
theorem follower_of_split (hh : f.IsHead h) (hl : h :: f.elems h = l₁ ++ x :: l₂) :
    f.place x = .on h ∧ follower (h :: f.elems h) x = l₂.head? := by
  have hx₁ : x ∉ l₁ := fun hm =>
    (List.nodup_append.1 (hl ▸ f.nodup h hh)).2.2 x hm x List.mem_cons_self rfl
  refine ⟨on_of_mem hh (by rw [hl]; simp), ?_⟩
  rw [hl, follower_append hx₁]

variable {f} in
/-- Behind the last node there is room for one more. -/
theorem idxOf_of_follower_none (hx : f.place x = .on h)
    (hn : follower (h :: f.elems h) x = none) :
    (h :: f.elems h).idxOf x = (f.elems h).length := by
  have hlt := List.idxOf_lt_length_of_mem (mem_of_on hx)
  unfold follower at hn
  rw [List.getElem?_cons_succ, List.getElem?_eq_none_iff] at hn
  rw [List.length_cons] at hlt
  omega

/-- Initialise a node that is in no list. -/
def clear (x : ν) (hx : f.Off x) : ListFamily ν where
  place := Function.update f.place x .free
  elems := f.elems
  on_iff h y := by
    have hoff : ∀ z, Function.update f.place x .free z = .on h ↔ f.place z = .on h := by
      intro z
      rcases eq_or_ne z x with rfl | hz
      · rw [Function.update_self]
        exact iff_of_false nofun (hx h)
      · rw [Function.update_of_ne hz]
    rw [hoff, hoff, f.on_iff]
  nodup h hh := by
    rcases eq_or_ne h x with rfl | hne
    · rw [Function.update_self] at hh
      cases hh
    · rw [Function.update_of_ne hne] at hh
      exact f.nodup h hh

/-- Let the list under `h` be `l`. The nodes that were in it and are no longer are free. -/
def setList (h : ν) (l : List ν) (hnd : (h :: l).Nodup)
    (hl : ∀ x ∈ h :: l, f.place x = .on h ∨ f.Off x) : ListFamily ν where
  place x :=
    if (h :: l).contains x then .on h else if f.place x = .on h then .free else f.place x
  elems := Function.update f.elems h l
  on_iff h' x := by
    simp only [List.contains_iff_mem]
    rcases eq_or_ne h' h with rfl | hne
    · rw [Function.update_self, if_pos List.mem_cons_self]
      constructor
      · intro hx
        by_contra hn
        rw [if_neg (by simpa using hn)] at hx
        split at hx
        · cases hx
        · contradiction
      · rintro ⟨-, hx⟩
        rw [if_pos hx]
    · have hon : ∀ z, (if z ∈ h :: l then Place.on h else if f.place z = .on h then .free
          else f.place z) = .on h' ↔ f.place z = .on h' := by
        intro z
        by_cases hz : z ∈ h :: l
        · rw [if_pos hz]
          refine iff_of_false (by simpa using hne.symm) ?_
          rcases hl z hz with hz | hz
          · rw [hz]
            simpa using hne.symm
          · exact hz h'
        · rw [if_neg hz]
          split
          · rename_i hz'
            rw [hz']
            exact iff_of_false nofun (by simpa using hne.symm)
          · rfl
      rw [hon, hon, Function.update_of_ne hne, f.on_iff]
  nodup h' hh := by
    rcases eq_or_ne h' h with rfl | hne
    · rwa [Function.update_self]
    · rw [Function.update_of_ne hne]
      refine f.nodup h' ?_
      simp only [List.contains_iff_mem] at hh
      split at hh
      · cases hh
        contradiction
      · split at hh
        · cases hh
        · exact hh


section

variable {f} {hnd : (h :: l).Nodup} {hl : ∀ x ∈ h :: l, f.place x = .on h ∨ f.Off x}

@[simp] theorem setList_elems : (f.setList h l hnd hl).elems = Function.update f.elems h l := rfl

theorem setList_on_ne (hne : h' ≠ h) :
    (f.setList h l hnd hl).place x = .on h' ↔ f.place x = .on h' := by
  show (if (h :: l).contains x then _ else _) = _ ↔ _
  by_cases hx : x ∈ h :: l
  · rw [if_pos (List.contains_iff_mem.2 hx)]
    refine iff_of_false (by simpa using hne.symm) ?_
    rcases hl x hx with hx | hx
    · rw [hx]
      simpa using hne.symm
    · exact hx h'
  · rw [if_neg (by simpa using hx)]
    split
    · rename_i hx'
      rw [hx']
      exact iff_of_false nofun (by simpa using hne.symm)
    · rfl

theorem setList_free : (f.setList h l hnd hl).place x = .free ↔
    x ∉ h :: l ∧ (f.place x = .on h ∨ f.place x = .free) := by
  show (if (h :: l).contains x then _ else _) = _ ↔ _
  by_cases hx : x ∈ h :: l
  · rw [if_pos (List.contains_iff_mem.2 hx)]
    exact iff_of_false nofun fun h => h.1 hx
  · rw [if_neg (by simpa using hx)]
    split
    · rename_i hx'
      exact iff_of_true rfl ⟨hx, .inl hx'⟩
    · rename_i hx'
      exact ⟨fun h => ⟨hx, .inr h⟩, fun h => h.2.resolve_left hx'⟩

end

/-! ### Operations -/

/-- Start a list without elements under `h`. -/
def start (h : ν) (hh : f.Off h ∨ f.IsHead h) : ListFamily ν :=
  f.setList h [] (by simp) (by simpa using hh.symm)

/-- Insert `e` behind the first `i` elements of the list under `h`. -/
def linkAt (h : ν) (i : Nat) (e : ν) (hh : f.IsHead h) (he : f.Off e) : ListFamily ν :=
  f.setList h ((f.elems h).take i ++ e :: (f.elems h).drop i)
    (by
      have hperm : (h :: ((f.elems h).take i ++ e :: (f.elems h).drop i)).Perm
          (e :: h :: f.elems h) := by
        have hmiddle : (h :: (f.elems h).take i ++ e :: (f.elems h).drop i).Perm
            (e :: (h :: (f.elems h).take i ++ (f.elems h).drop i)) := List.perm_middle
        simpa using hmiddle
      refine hperm.nodup_iff.2 (List.nodup_cons.2 ⟨fun hm => ?_, f.nodup h hh⟩)
      exact he h (on_of_mem hh hm))
    (by
      intro x hx
      by_cases hxe : x = e
      · exact .inr (hxe ▸ he)
      · refine .inl (on_of_mem hh ?_)
        rw [← List.take_append_drop i (f.elems h)]
        simp only [List.mem_cons, List.mem_append, hxe, false_or] at hx ⊢
        exact hx)

/-- Take `e` out of the list under `h`. -/
def unlinkFrom (h : ν) (e : ν) (hh : f.IsHead h) : ListFamily ν :=
  f.setList h ((f.elems h).erase e)
    ((f.nodup h hh).sublist ((List.erase_sublist ..).cons_cons h))
    (fun _ hx => .inl (on_of_mem hh (((List.erase_sublist ..).cons_cons h).subset hx)))

/-- Insert `e` into the list that `a` is in, if it is in one and `e` is not. -/
def link (a e : ν) (i : ν → Nat) : Int × ListFamily ν :=
  match ha : f.place a, he : f.place e with
  | .on h, .free => (0, f.linkAt h (i h) e (isHead_of_on ha) (by simp [Off, he]))
  | _, _ => (-1, f)

def insertAfter (a e : ν) : Int × ListFamily ν := f.link a e fun h => (h :: f.elems h).idxOf a

/-- The head is behind all elements. -/
def insertBefore (b e : ν) : Int × ListFamily ν := f.link b e fun h => (f.elems h).idxOf b

/-- Take `e` out of the list that it is in, if it is in one. -/
def unlink (e : ν) : Int × ListFamily ν :=
  match he : f.place e with
  | .on h => (0, f.unlinkFrom h e (isHead_of_on he))
  | _ => (-1, f)

section

variable {f} {e : ν} {i : ν → Nat}

omit [DecidableEq ν] in
theorem off_of_free (he : f.place e = .free) : f.Off e := by
  intro h
  rw [he]
  nofun

omit [DecidableEq ν] in
theorem off_of (hx : f.place x = .raw ∨ f.place x = .free) : f.Off x := by
  intro h hh
  rcases hx with hx | hx <;> cases hx.symm.trans hh

theorem link_on (ha : f.place a = .on h) (he : f.place e = .free) :
    f.link a e i = (0, f.linkAt h (i h) e (isHead_of_on ha) (off_of_free he)) := by
  unfold link
  split
  · rename_i h' ha' _
    cases ha.symm.trans ha'
    rfl
  · rename_i hn
    exact absurd he (hn h ha)

theorem link_off (hn : f.Off a ∨ f.place e ≠ .free) : f.link a e i = (-1, f) := by
  unfold link
  split
  · rename_i ha he
    rcases hn with hn | hn
    · exact absurd ha (hn _)
    · exact absurd he hn
  · rfl

theorem link_congr {j : ν → Nat} (hij : ∀ h, f.place a = .on h → i h = j h) :
    f.link a e i = f.link a e j := by
  by_cases hn : f.Off a ∨ f.place e ≠ .free
  · rw [link_off hn, link_off hn]
  · obtain ⟨ha, he⟩ := not_or.1 hn
    obtain ⟨h, ha⟩ := not_forall.1 ha
    have ha := not_not.1 ha
    have he := not_not.1 he
    rw [link_on ha he, link_on ha he]
    simp only [hij h ha]

/-- Behind the head is the first place. -/
theorem insertAfter_head (hh : f.IsHead h) : f.insertAfter h e = f.link h e fun _ => 0 := by
  refine link_congr fun h' hh' => ?_
  cases hh.symm.trans hh'
  exact List.idxOf_cons_self

/-- Before the head is the last place. -/
theorem insertBefore_head (hh : f.IsHead h) :
    f.insertBefore h e = f.link h e fun h => (f.elems h).length := by
  refine link_congr fun h' hh' => ?_
  cases hh.symm.trans hh'
  exact List.idxOf_eq_length (List.nodup_cons.1 (f.nodup h hh)).1

theorem unlink_on (he : f.place e = .on h) :
    f.unlink e = (0, f.unlinkFrom h e (isHead_of_on he)) := by
  unfold unlink
  split
  · rename_i he'
    cases he.symm.trans he'
    rfl
  · rename_i hn
    exact absurd he (hn h)

theorem unlink_off (he : f.Off e) : f.unlink e = (-1, f) := by
  unfold unlink
  split
  · rename_i he'
    exact absurd he' (he _)
  · rfl

end

/-! ## Doubly linked families -/

omit [DecidableEq ν] in
/-- Every list is linked in a cycle through its head, and free nodes are not linked. -/
structure Linked (f : ListFamily ν) (next prev : ν → Option ν) : Prop where
  cycle : ∀ h, f.IsHead h → Segment next prev h (f.elems h) h
  free : ∀ x, f.place x = .free → next x = none ∧ prev x = none

namespace Linked

variable {f} {next' prev' : ν → Option ν} {e : ν}

omit [DecidableEq ν] in
/-- A node is in a list if and only if it has a predecessor. -/
theorem prev_isSome (hf : f.Linked next prev) (hx : f.place x ≠ .raw) :
    (prev x).isSome = true ↔ f.place x ≠ .free := by
  cases hp : f.place x with
  | raw => exact absurd hp hx
  | free => simp [(hf.free x hp).2]
  | on h =>
      obtain ⟨y, -, hy⟩ := (hf.cycle h (isHead_of_on hp)).prev_of_mem (x := x) (by
        simpa [or_comm] using mem_of_on hp)
      simp [hy]

theorem next_eq (hf : f.Linked next prev) (hx : f.place x = .on h) :
    next x = some ((follower (h :: f.elems h) x).getD h) :=
  (hf.cycle h (isHead_of_on hx)).next_follower (f.nodup h (isHead_of_on hx)) (mem_of_on hx)

theorem prev_eq (hf : f.Linked next prev) (hx : f.place x = .on h) :
    prev x = some ((follower (h :: (f.elems h).reverse) x).getD h) :=
  (hf.cycle h (isHead_of_on hx)).prev_follower (f.nodup h (isHead_of_on hx)) (mem_of_on hx)

/-- Apart from the head, no node is its own predecessor. -/
theorem prev_ne (hf : f.Linked next prev) (hx : f.place x = .on h) (hne : x ≠ h) :
    prev x ≠ some x := by
  rw [hf.prev_eq hx]
  intro he
  cases hy : follower (h :: (f.elems h).reverse) x with
  | none =>
      rw [hy] at he
      exact hne (Option.some.inj he).symm
  | some y =>
      rw [hy] at he
      cases he
      refine follower_ne (nodup_reverse (isHead_of_on hx)) ?_ hy
      rw [List.mem_cons, List.mem_reverse, ← List.mem_cons]
      exact mem_of_on hx

theorem clear (hf : f.Linked next prev) (hx : f.Off x) :
    (f.clear x hx).Linked (Function.update next x none) (Function.update prev x none) where
  cycle h hh := by
    have hne : h ≠ x := by
      rintro rfl
      have hh : Function.update f.place h .free h = .on h := hh
      rw [Function.update_self] at hh
      cases hh
    have hh' : f.IsHead h := by
      rw [IsHead, ← show (f.clear x hx).place h = f.place h from Function.update_of_ne hne _ _]
      exact hh
    have hnx : ∀ y ∈ h :: f.elems h, y ≠ x := by
      rintro y hy rfl
      exact hx h (on_of_mem hh' hy)
    refine (hf.cycle h hh').congr ?_ ?_
    · intro y hy
      exact Function.update_of_ne (hnx y hy) _ _
    · intro y hy
      exact Function.update_of_ne (hnx y (by simpa [or_comm] using hy)) _ _
  free y hy := by
    rcases eq_or_ne y x with rfl | hne
    · rw [Function.update_self, Function.update_self]
      exact ⟨rfl, rfl⟩
    · rw [Function.update_of_ne hne, Function.update_of_ne hne]
      refine hf.free y ?_
      rw [← hy]
      exact (Function.update_of_ne hne _ _).symm

/-- The links of one list change. -/
theorem setList {hnd : (h :: l).Nodup} {hl : ∀ x ∈ h :: l, f.place x = .on h ∨ f.Off x}
    (hf : f.Linked next prev) (hs : Segment next' prev' h l h)
    (hkept : ∀ x ∉ h :: l, f.place x ≠ .on h → next' x = next x ∧ prev' x = prev x)
    (hgone : ∀ x ∉ h :: l, f.place x = .on h → next' x = none ∧ prev' x = none) :
    (f.setList h l hnd hl).Linked next' prev' where
  cycle h' hh := by
    rcases eq_or_ne h' h with rfl | hne
    · rwa [setList_elems, Function.update_self]
    · have hh' : f.IsHead h' := (setList_on_ne hne).1 hh
      have hx : ∀ x ∈ h' :: f.elems h', next' x = next x ∧ prev' x = prev x := by
        intro x hx
        have hx := on_of_mem hh' hx
        have hon : f.place x ≠ .on h := by
          rw [hx]
          simpa using hne
        refine hkept x (fun hm => ?_) hon
        exact (hl x hm).elim hon fun ho => ho h' hx
      rw [setList_elems, Function.update_of_ne hne]
      refine (hf.cycle h' hh').congr ?_ ?_
      · exact fun x hm => (hx x hm).1
      · exact fun x hm => (hx x (by simpa [or_comm] using hm)).2
  free x hx := by
    obtain ⟨hm, hon | hfree⟩ := setList_free.1 hx
    · exact hgone x hm hon
    · obtain ⟨h₁, h₂⟩ := hkept x hm (by rw [hfree]; nofun)
      rw [h₁, h₂]
      exact hf.free x hfree

theorem start (hf : f.Linked next prev) (hh : f.Off h ∨ f.IsHead h)
    (hnil : f.IsHead h → f.elems h = []) :
    (f.start h hh).Linked (Function.update next h (some h)) (Function.update prev h (some h)) := by
  refine hf.setList ⟨Function.update_self .., Function.update_self ..⟩ ?_ ?_
  · intro x hx _
    have hne : x ≠ h := by simpa using hx
    exact ⟨Function.update_of_ne hne _ _, Function.update_of_ne hne _ _⟩
  · intro x hx hon
    have hm := mem_of_on hon
    rw [hnil (isHead_of_on hon)] at hm
    exact absurd hm hx

/-- Link `e` between `a` and `b`. -/
theorem linkAt {i : Nat} (hf : f.Linked next prev) (hh : f.IsHead h) (he : f.Off e)
    (hb : ((f.elems h).drop i ++ [h]).head? = some b) (ha : prev b = some a) :
    (f.linkAt h i e hh he).Linked
      (Function.update (Function.update next e (some b)) a (some e))
      (Function.update (Function.update prev e (some a)) b (some e)) := by
  have hs := hf.cycle h hh
  have hnd := f.nodup h hh
  have hsub : ∀ x ∈ h :: f.elems h, x ∈ h :: ((f.elems h).take i ++ e :: (f.elems h).drop i) := by
    intro x hx
    rw [← List.take_append_drop i (f.elems h)] at hx
    simp only [List.mem_cons, List.mem_append] at hx ⊢
    tauto
  have hbm : b ∈ h :: f.elems h := by
    have := List.mem_of_mem_head? hb
    simp only [List.mem_append, List.mem_cons, List.not_mem_nil, or_false] at this ⊢
    exact this.symm.imp_right List.mem_of_mem_drop
  have ham : a ∈ h :: f.elems h := by
    obtain ⟨y, hy, hp⟩ := hs.prev_of_mem (x := b) (by simpa [or_comm] using hbm)
    exact Option.some.inj (ha.symm.trans hp) ▸ hy
  refine hf.setList ?_ ?_ ?_
  · refine Segment.insert ?_ ?_ ?_ hb ha
    · rwa [List.take_append_drop]
    · rwa [List.take_append_drop]
    · rw [List.take_append_drop]
      exact fun hm => he h (on_of_mem hh hm)
  · intro x hx hon
    have hxe : x ≠ e := by
      rintro rfl
      exact hx (by simp)
    have hxa : x ≠ a := by
      rintro rfl
      exact hon (on_of_mem hh ham)
    have hxb : x ≠ b := by
      rintro rfl
      exact hon (on_of_mem hh hbm)
    simp [hxe, hxa, hxb]
  · exact fun x hx hon => absurd (hsub x (mem_of_on hon)) hx

theorem insertAfter (hf : f.Linked next prev) (ha : f.place a = .on h) (he : f.place e = .free)
    (hb : next a = some b) :
    (f.insertAfter a e).1 = 0 ∧ (f.insertAfter a e).2.Linked
      (Function.update (Function.update next e (some b)) a (some e))
      (Function.update (Function.update prev e (some a)) b (some e)) := by
  have hh := isHead_of_on ha
  unfold ListFamily.insertAfter
  rw [link_on ha he]
  refine ⟨rfl, hf.linkAt hh (off_of_free he) ?_ ((hf.cycle h hh).prev_of_next (mem_of_on ha) hb)⟩
  rw [head?_drop_idxOf, ← hf.next_eq ha, hb]

theorem insertBefore (hf : f.Linked next prev) (hb : f.place b = .on h) (he : f.place e = .free)
    (ha : prev b = some a) :
    (f.insertBefore b e).1 = 0 ∧ (f.insertBefore b e).2.Linked
      (Function.update (Function.update next e (some b)) a (some e))
      (Function.update (Function.update prev e (some a)) b (some e)) := by
  unfold ListFamily.insertBefore
  rw [link_on hb he]
  refine ⟨rfl, hf.linkAt (isHead_of_on hb) (off_of_free he) ?_ ha⟩
  rw [List.head?_append, List.head?_drop]
  rcases List.mem_cons.1 (mem_of_on hb) with rfl | hm
  · have hn : b ∉ f.elems b := (List.nodup_cons.1 (f.nodup b (isHead_of_on hb))).1
    rw [List.idxOf_eq_length hn, List.getElem?_eq_none (Nat.le_refl _)]
    rfl
  · rw [List.getElem?_idxOf hm]
    rfl

/-- Unlink `e` between `a` and `b`. -/
theorem unlinkFrom (hf : f.Linked next prev) (hh : f.IsHead h) (he : e ∈ f.elems h)
    (ha : prev e = some a) (hb : next e = some b) :
    (f.unlinkFrom h e hh).Linked
      (Function.update (Function.update next a (some b)) e none)
      (Function.update (Function.update prev b (some a)) e none) := by
  have hs := hf.cycle h hh
  have hnd := f.nodup h hh
  have hon : ∀ x ∈ h :: f.elems h, f.place x = .on h := fun x hx => on_of_mem hh hx
  have hem : e ∈ h :: f.elems h := List.mem_cons_of_mem h he
  have ham : f.place a = .on h := by
    obtain ⟨y, hy, hp⟩ := hs.prev_of_mem (x := e) (by simp [he])
    exact hon a (Option.some.inj (ha.symm.trans hp) ▸ hy)
  have hbm : f.place b = .on h := by
    obtain ⟨y, hy, hn⟩ := hs.next_of_mem hem
    exact hon b (Option.some.inj (hb.symm.trans hn) ▸ (by simpa [or_comm] using hy))
  refine hf.setList ?_ ?_ ?_
  · obtain ⟨l₁, l₂, hl⟩ := List.append_of_mem he
    rw [hl] at hs hnd ⊢
    have hel₁ : e ∉ l₁ := fun hm =>
      (List.nodup_append.1 (List.nodup_cons.1 hnd).2).2.2 e hm e (by simp) rfl
    rw [List.erase_append_right _ hel₁, List.erase_cons_head]
    exact hs.remove hnd ha hb
  · intro x _ hx
    have hne : ∀ y, f.place y = .on h → x ≠ y := by
      rintro y hy rfl
      exact hx hy
    rw [Function.update_of_ne (hne e (hon e hem)), Function.update_of_ne (hne a ham),
      Function.update_of_ne (hne e (hon e hem)), Function.update_of_ne (hne b hbm)]
    exact ⟨rfl, rfl⟩
  · intro x hx hxh
    obtain rfl : x = e := by
      by_contra hne
      refine hx ?_
      rcases List.mem_cons.1 (mem_of_on hxh) with rfl | hm
      · exact List.mem_cons_self
      · exact List.mem_cons_of_mem h ((List.mem_erase_of_ne hne).2 hm)
    exact ⟨Function.update_self .., Function.update_self ..⟩

theorem unlink (hf : f.Linked next prev) (he : f.place e = .on h) (hne : e ≠ h)
    (ha : prev e = some a) (hb : next e = some b) :
    (f.unlink e).1 = 0 ∧ (f.unlink e).2.Linked
      (Function.update (Function.update next a (some b)) e none)
      (Function.update (Function.update prev b (some a)) e none) := by
  rw [unlink_on he]
  exact ⟨rfl, hf.unlinkFrom (isHead_of_on he)
    ((List.mem_cons.1 (mem_of_on he)).resolve_left hne) ha hb⟩

end Linked

end ListFamily
