-- SUMMARY: Programs that use `list.h`: whatever they call, in any order, the linked memory behaves as a family of lists.
import MsTos.Lib.ListFamily
import MsTos.Lib.Transition
import MsTos.RunQueue

namespace MsTos

/-! ## Programs -/

/-- The calls of `list.h`. A list is named by its pseudo head. -/
inductive ListCall (ν ι : Type) where
  | elementInit (element : ν)
  | inList (element : ν)
  | insertAfter (after element : ν)
  | insertBefore (before element : ν)
  | elementRemove (element : ν)
  | init (list : ν)
  | isEmpty (list : ν)
  | prepend (list element : ν)
  | append (list element : ν)
  | remove (list element : ν)
  | iteratorInit (it : ι) (list : ν)
  | next (it : ι)
  | nextCircular (it : ι)
  | previous (it : ι)
  | previousCircular (it : ι)
  | contains (list element : ν)
  deriving DecidableEq

/-- What a call returns: its status, or what it gives where the status is 0. -/
inductive ListReply (ν : Type) where
  | status (r : Int)
  | flag (b : Bool)
  | element (p : Option ν)
  deriving DecidableEq

/-- `struct list_iterator`. -/
structure ListIterator (ν : Type) where
  list : ν
  current : Option ν

/-- Elements, heads and iterators. -/
structure ListMem (ν ι : Type) where
  links : Links ν
  it : ι → ListIterator ν

variable {ν ι : Type} [DecidableEq ν] [DecidableEq ι]

namespace ListMem

variable (m : ListMem ν ι)

def setLinks (r : Int × Links ν) : ListReply ν × ListMem ν ι :=
  (.status r.1, { m with links := r.2 })

/-- `it->current = p`. -/
def setCurrent (it : ι) (p : Option ν) : ListMem ν ι :=
  { m with it := Function.update m.it it { m.it it with current := p } }

/-- What a call does; `none` where it reads through `NULL`, or never ends. -/
def step [Fintype ν] : ListCall ν ι → Option (ListReply ν × ListMem ν ι)
  | .elementInit e => some (m.setLinks (0, listElementInit m.links e))
  | .inList e => some (.flag (listElementInList m.links e), m)
  | .insertAfter a e => some (m.setLinks (listElementInsertAfter m.links a e))
  | .insertBefore b e => some (m.setLinks (listElementInsertBefore m.links b e))
  | .elementRemove e => some (m.setLinks (listElementRemove m.links e))
  | .init h => some (m.setLinks (0, listInit m.links h))
  | .isEmpty h => some (.flag (listIsEmpty m.links h), m)
  | .prepend h e => some (m.setLinks (listPrepend m.links h e))
  | .append h e => some (m.setLinks (listAppend m.links h e))
  | .remove _ e => some (m.setLinks (listRemove m.links e))
  | .iteratorInit i h => some (.status 0, { m with it := Function.update m.it i ⟨h, some h⟩ })
  | .next i => (listIteratorNext m.links (m.it i).list (m.it i).current).map fun r =>
      (if r.1 = 0 then .element r.2 else .status r.1, m.setCurrent i r.2)
  | .nextCircular i =>
      (listIteratorNextCircular m.links (m.it i).list (m.it i).current).map fun p =>
        (.element p, m.setCurrent i p)
  | .previous i => (listIteratorPrevious m.links (m.it i).list (m.it i).current).map fun r =>
      (if r.1 = 0 then .element r.2 else .status r.1, m.setCurrent i r.2)
  | .previousCircular i =>
      (listIteratorPreviousCircular m.links (m.it i).list (m.it i).current).map fun p =>
        (.element p, m.setCurrent i p)
  | .contains h e => (listContains m.links h e).map fun b => (.flag b, m)

/-- A program that makes calls of `list.h`, in any order, on memory that holds anything. -/
def system [Fintype ν] (m : ListMem ν ι) :
    TransitionSystem (ListMem ν ι) (ListCall ν ι) (ListCall ν ι × ListReply ν) where
  init m' := m' = m
  step m c := (m.step c).map fun r => ((c, r.1), r.2)

end ListMem

/-! ## What the programs have in mind -/

/-- The lists, and where each iterator stands in which list. -/
structure ListSpec (ν ι : Type) where
  lists : ListFamily ν
  cursor : ι → Option (ν × ν)

namespace ListSpec

variable (s : ListSpec ν ι)

def setLists (r : Int × ListFamily ν) : ListReply ν × ListSpec ν ι :=
  (.status r.1, { s with lists := r.2 })

/-- Move an iterator, which must stand in its list. -/
def move (it : ι) (next : ν → ν → Option ν) : Option (ListReply ν × ListSpec ν ι) :=
  match s.cursor it with
  | none => none
  | some (h, c) =>
      if s.lists.place c = .on h then
        match next h c with
        | none => some (.status (-1), s)
        | some x => some (.element (some x), { s with cursor := Function.update s.cursor it (h, x) })
      else none

/-- What a call means. It has no meaning where an element or a list has not been initialised, where
an element of a list or a list with elements is initialised again, where a head is removed, and where
the element that an iterator stands at is no longer in the list. -/
def step : ListCall ν ι → Option (ListReply ν × ListSpec ν ι)
  | .elementInit e =>
      if he : s.lists.place e = .raw ∨ s.lists.place e = .free then
        some (s.setLists (0, s.lists.clear e (ListFamily.off_of he)))
      else none
  | .inList e =>
      if s.lists.place e ≠ .raw then some (.flag (s.lists.place e ≠ .free), s) else none
  | .insertAfter a e =>
      if s.lists.place a ≠ .raw ∧ s.lists.place e ≠ .raw then
        some (s.setLists (s.lists.insertAfter a e))
      else none
  | .insertBefore b e =>
      if s.lists.place b ≠ .raw ∧ s.lists.place e ≠ .raw then
        some (s.setLists (s.lists.insertBefore b e))
      else none
  | .elementRemove e | .remove _ e =>
      if s.lists.place e ≠ .raw ∧ s.lists.place e ≠ .on e then some (s.setLists (s.lists.unlink e))
      else none
  | .init h =>
      if hh : s.lists.place h = .raw ∨ s.lists.place h = .free then
        some (s.setLists (0, s.lists.start h (.inl (ListFamily.off_of hh))))
      else if hh : s.lists.IsHead h ∧ s.lists.elems h = [] then
        some (s.setLists (0, s.lists.start h (.inr hh.1)))
      else none
  | .isEmpty h => if s.lists.IsHead h then some (.flag (s.lists.elems h).isEmpty, s) else none
  | .prepend h e =>
      if s.lists.IsHead h ∧ s.lists.place e ≠ .raw then
        some (s.setLists (s.lists.link h e fun _ => 0))
      else none
  | .append h e =>
      if s.lists.IsHead h ∧ s.lists.place e ≠ .raw then
        some (s.setLists (s.lists.link h e fun h => (s.lists.elems h).length))
      else none
  | .iteratorInit i h => some (.status 0, { s with cursor := Function.update s.cursor i (h, h) })
  | .next i => s.move i fun h c => follower (h :: s.lists.elems h) c
  | .nextCircular i => s.move i fun h c =>
      some ((follower (h :: s.lists.elems h) c).getD ((s.lists.elems h).head?.getD h))
  | .previous i => s.move i fun h c => follower (h :: (s.lists.elems h).reverse) c
  | .previousCircular i => s.move i fun h c =>
      some ((follower (h :: (s.lists.elems h).reverse) c).getD
        ((s.lists.elems h).getLast?.getD h))
  | .contains h e =>
      if s.lists.IsHead h then some (.flag ((s.lists.elems h).contains e), s) else none

/-- At first, nothing has been initialised. -/
def system (ν ι : Type) [DecidableEq ν] [DecidableEq ι] :
    TransitionSystem (ListSpec ν ι) (ListCall ν ι) (ListCall ν ι × ListReply ν) where
  init s := s = ⟨.raw ν, fun _ => none⟩
  step s c := (s.step c).map fun r => ((c, r.1), r.2)

end ListSpec

/-! ## The functions of `list.h` on linked memory -/

section Links

variable {links : Links ν} {f : ListFamily ν} {a b e h x c : ν}

theorem nextOf_elementInit : nextOf (listElementInit links e) = Function.update (nextOf links) e none := by
  funext n
  by_cases hn : n = e <;> simp [nextOf, listElementInit, Function.update, hn]

theorem prevOf_elementInit : prevOf (listElementInit links e) = Function.update (prevOf links) e none := by
  funext n
  by_cases hn : n = e <;> simp [prevOf, listElementInit, Function.update, hn]

theorem nextOf_init : nextOf (listInit links h) = Function.update (nextOf links) h (some h) := by
  funext n
  by_cases hn : n = h <;> simp [nextOf, listInit, Function.update, hn]

theorem prevOf_init : prevOf (listInit links h) = Function.update (prevOf links) h (some h) := by
  funext n
  by_cases hn : n = h <;> simp [prevOf, listInit, Function.update, hn]

/-- The memory holds the lists of `f`. -/
abbrev Holds (links : Links ν) (f : ListFamily ν) : Prop := f.Linked (nextOf links) (prevOf links)

namespace Holds

theorem inList (hf : Holds links f) (hx : f.place x ≠ .raw) :
    listElementInList links x = decide (f.place x ≠ .free) :=
  Bool.eq_iff_iff.2 ((hf.prev_isSome hx).trans decide_eq_true_iff.symm)

/-- `list_element_insert_after`. -/
theorem insertAfter (hf : Holds links f) (ha : f.place a ≠ .raw) (he : f.place e ≠ .raw) :
    (listElementInsertAfter links a e).1 = (f.insertAfter a e).1 ∧
      Holds (listElementInsertAfter links a e).2 (f.insertAfter a e).2 := by
  by_cases hoff : f.place a = .free ∨ f.place e ≠ .free
  · have hcode : listElementInsertAfter links a e = (-1, links) := by
      rcases hoff with hoff | hoff <;> simp [listElementInsertAfter, hf.inList ha, hf.inList he, hoff]
    have hspec : f.insertAfter a e = (-1, f) :=
      ListFamily.link_off (hoff.imp_left ListFamily.off_of_free)
    rw [hcode, hspec]
    exact ⟨rfl, hf⟩
  · obtain ⟨haf, hef⟩ := not_or.1 hoff
    have hef := not_not.1 hef
    cases hon : f.place a with
    | raw => exact absurd hon ha
    | free => exact absurd hon haf
    | on h =>
        obtain ⟨b, hb⟩ : ∃ b, nextOf links a = some b := ⟨_, hf.next_eq hon⟩
        have hae : a ≠ e := by
          rintro rfl
          exact haf hef
        have hnext : (setPrev (setNext links (some e) (some b)) (some e) (some a) a).next = some b := by
          simpa [nextOf, setPrev, setNext, Function.update_of_ne hae] using hb
        obtain ⟨h₁, h₂⟩ := ListFamily.Linked.insertAfter hf hon hef hb
        rw [h₁]
        simp only [listElementInsertAfter, hf.inList ha, hf.inList he, haf, hef, ne_eq,
          not_false_eq_true, not_true_eq_false, decide_true, decide_false, Bool.not_true,
          Bool.false_eq_true, if_false, show (links a).next = some b from hb, hnext, true_and]
        simpa [Holds] using h₂

/-- `list_element_insert_before`. -/
theorem insertBefore (hf : Holds links f) (hb : f.place b ≠ .raw) (he : f.place e ≠ .raw) :
    (listElementInsertBefore links b e).1 = (f.insertBefore b e).1 ∧
      Holds (listElementInsertBefore links b e).2 (f.insertBefore b e).2 := by
  by_cases hoff : f.place b = .free ∨ f.place e ≠ .free
  · have hcode : listElementInsertBefore links b e = (-1, links) := by
      rcases hoff with hoff | hoff <;>
        simp [listElementInsertBefore, hf.inList hb, hf.inList he, hoff]
    have hspec : f.insertBefore b e = (-1, f) :=
      ListFamily.link_off (hoff.imp_left ListFamily.off_of_free)
    rw [hcode, hspec]
    exact ⟨rfl, hf⟩
  · obtain ⟨hbf, hef⟩ := not_or.1 hoff
    have hef := not_not.1 hef
    cases hon : f.place b with
    | raw => exact absurd hon hb
    | free => exact absurd hon hbf
    | on h =>
        obtain ⟨a, ha⟩ : ∃ a, prevOf links b = some a := ⟨_, hf.prev_eq hon⟩
        have hbe : b ≠ e := by
          rintro rfl
          exact hbf hef
        have hprev : (setNext links (some e) (some b) b).prev = some a := by
          simpa [prevOf, setNext, Function.update_of_ne hbe] using ha
        have hprev' : (setPrev (setNext links (some e) (some b)) (some e) (some a) b).prev =
            some a := by
          simpa [setPrev, Function.update_of_ne hbe] using hprev
        obtain ⟨h₁, h₂⟩ := ListFamily.Linked.insertBefore hf hon hef ha
        rw [h₁]
        simp only [listElementInsertBefore, hf.inList hb, hf.inList he, hbf, hef, ne_eq,
          not_false_eq_true, not_true_eq_false, decide_true, decide_false, Bool.not_true,
          Bool.false_eq_true, if_false, hprev, hprev', true_and]
        simpa [Holds] using h₂

/-- `list_element_remove`. -/
theorem remove (hf : Holds links f) (he : f.place e ≠ .raw) (hne : f.place e ≠ .on e) :
    (listElementRemove links e).1 = (f.unlink e).1 ∧
      Holds (listElementRemove links e).2 (f.unlink e).2 := by
  cases hon : f.place e with
  | raw => exact absurd hon he
  | free =>
      have hcode : listElementRemove links e = (-1, links) := by
        simp [listElementRemove, hf.inList he, hon]
      rw [hcode, ListFamily.unlink_off (ListFamily.off_of_free hon)]
      exact ⟨rfl, hf⟩
  | on h =>
      have heh : e ≠ h := by
        rintro rfl
        exact hne hon
      obtain ⟨a, ha⟩ : ∃ a, prevOf links e = some a := ⟨_, hf.prev_eq hon⟩
      obtain ⟨b, hb⟩ : ∃ b, nextOf links e = some b := ⟨_, hf.next_eq hon⟩
      have hae : e ≠ a := by
        rintro rfl
        exact hf.prev_ne hon heh ha
      have hn : (setNext links (some a) (some b) e).next = some b := by
        simpa [nextOf, setNext, Function.update_of_ne hae] using hb
      have hp : (setNext links (some a) (some b) e).prev = some a := by
        simpa [prevOf, setNext, Function.update_of_ne hae] using ha
      obtain ⟨h₁, h₂⟩ := ListFamily.Linked.unlink hf hon heh ha hb
      rw [h₁]
      simp only [listElementRemove, hf.inList he, hon, ne_eq, reduceCtorEq, not_false_eq_true,
        decide_true, Bool.not_true, Bool.false_eq_true, if_false,
        show (links e).prev = some a from ha, show (links e).next = some b from hb, hn, hp, true_and]
      simpa [Holds] using h₂

theorem isEmpty (hf : Holds links f) (hh : f.IsHead h) :
    listIsEmpty links h = (f.elems h).isEmpty := by
  have hp : (links h).prev = some ((follower (h :: (f.elems h).reverse) h).getD h) := hf.prev_eq hh
  have hfol : follower (h :: (f.elems h).reverse) h = (f.elems h).reverse.head? :=
    follower_cons_self h _
  unfold listIsEmpty
  rw [hp, hfol, List.head?_reverse]
  cases hl : (f.elems h).getLast? with
  | none =>
      rw [List.getLast?_eq_none_iff.1 hl]
      simp
  | some y =>
      have hy : y ∈ f.elems h := List.mem_of_getLast? hl
      have hyh : y ≠ h := by
        rintro rfl
        exact ListFamily.head_notMem hh hy
      have hne : f.elems h ≠ [] := List.ne_nil_of_mem hy
      simp [hyh, hne]

/-! ### Iterators -/

/-- `list_iterator_next`. -/
theorem iteratorNext (hf : Holds links f) (hc : f.place c = .on h) :
    listIteratorNext links h (some c) = some (match follower (h :: f.elems h) c with
      | none => (-1, some c)
      | some x => (0, some x)) := by
  have hn : (links c).next = some ((follower (h :: f.elems h) c).getD h) := hf.next_eq hc
  simp only [listIteratorNext, hn]
  cases hx : follower (h :: f.elems h) c with
  | none => simp
  | some x =>
      have hxh := follower_ne_head (f.nodup h (ListFamily.isHead_of_on hc)) hx
      simp [hxh]

/-- `list_iterator_previous`. -/
theorem iteratorPrevious (hf : Holds links f) (hc : f.place c = .on h) :
    listIteratorPrevious links h (some c) =
      some (match follower (h :: (f.elems h).reverse) c with
        | none => (-1, some c)
        | some x => (0, some x)) := by
  have hp : (links c).prev = some ((follower (h :: (f.elems h).reverse) c).getD h) :=
    hf.prev_eq hc
  simp only [listIteratorPrevious, hp]
  cases hx : follower (h :: (f.elems h).reverse) c with
  | none => simp
  | some x =>
      have hxh := follower_ne_head (ListFamily.nodup_reverse (ListFamily.isHead_of_on hc)) hx
      simp [hxh]

/-- The circular iterators step over the head. -/
theorem iteratorNextCircular (hf : Holds links f) (hc : f.place c = .on h) :
    listIteratorNextCircular links h (some c) = some (some
      ((follower (h :: f.elems h) c).getD ((f.elems h).head?.getD h))) := by
  have hn : (links c).next = some ((follower (h :: f.elems h) c).getD h) := hf.next_eq hc
  have hh : (links h).next = some ((f.elems h).head?.getD h) := by
    rw [← follower_cons_self h]
    exact hf.next_eq (ListFamily.isHead_of_on hc)
  simp only [listIteratorNextCircular, hn, hh]
  cases hx : follower (h :: f.elems h) c with
  | none => simp
  | some x =>
      have hxh := follower_ne_head (f.nodup h (ListFamily.isHead_of_on hc)) hx
      simp [hxh]

theorem iteratorPreviousCircular (hf : Holds links f) (hc : f.place c = .on h) :
    listIteratorPreviousCircular links h (some c) = some (some
      ((follower (h :: (f.elems h).reverse) c).getD ((f.elems h).getLast?.getD h))) := by
  have hp : (links c).prev = some ((follower (h :: (f.elems h).reverse) c).getD h) :=
    hf.prev_eq hc
  have hh : (links h).prev = some ((f.elems h).getLast?.getD h) := by
    rw [← List.head?_reverse, ← follower_cons_self h]
    exact hf.prev_eq (ListFamily.isHead_of_on hc)
  simp only [listIteratorPreviousCircular, hp, hh]
  cases hx : follower (h :: (f.elems h).reverse) c with
  | none => simp
  | some x =>
      have hxh := follower_ne_head (ListFamily.nodup_reverse (ListFamily.isHead_of_on hc)) hx
      simp [hxh]

/-- The loop of `list_contains` looks at the elements behind `c`. -/
theorem containsLoop (hf : Holds links f) (hh : f.IsHead h) {l₁ l₂ : List ν} {n : Nat}
    (hl : h :: f.elems h = l₁ ++ c :: l₂) (hn : l₂.length < n) :
    listContainsLoop links h x n (some c) = some (l₂.contains x) := by
  induction l₂ generalizing l₁ c n with
  | nil =>
      obtain ⟨n, rfl⟩ := Nat.exists_eq_succ_of_ne_zero (Nat.ne_of_gt hn)
      obtain ⟨hc, hnext⟩ := ListFamily.follower_of_split hh hl
      rw [listContainsLoop, hf.iteratorNext hc, hnext]
      rfl
  | cons y l₂ ih =>
      obtain ⟨n, rfl⟩ := Nat.exists_eq_succ_of_ne_zero (Nat.ne_of_gt (Nat.zero_lt_of_lt hn))
      obtain ⟨hc, hnext⟩ := ListFamily.follower_of_split hh hl
      have hl : h :: f.elems h = (l₁ ++ [c]) ++ y :: l₂ := by simp [hl]
      have ih := ih (n := n) hl (by simpa using hn)
      rw [listContainsLoop, hf.iteratorNext hc, hnext]
      simp only [List.head?_cons, ne_eq, not_true_eq_false, if_false, Option.some.injEq]
      by_cases hy : y = x
      · simp [hy]
      · rw [if_neg hy, ih]
        simp [Ne.symm hy]

/-- `list_contains`. -/
theorem contains [Fintype ν] (hf : Holds links f) (hh : f.IsHead h) :
    listContains links h x = some ((f.elems h).contains x) := by
  have hl : h :: f.elems h = [] ++ h :: f.elems h := rfl
  exact hf.containsLoop hh hl (f.nodup h hh).length_le_card

end Holds

end Links

/-! ## Runs -/

namespace ListMem

/-- The memory and the iterators are as the program thinks they are. -/
structure Represents (m : ListMem ν ι) (s : ListSpec ν ι) : Prop where
  links : Holds m.links s.lists
  it : ∀ i h c, s.cursor i = some (h, c) → m.it i = ⟨h, some c⟩

variable {m : ListMem ν ι} {s s' : ListSpec ν ι} {c : ListCall ν ι} {r : ListReply ν}

omit [DecidableEq ν] [DecidableEq ι] in
/-- A call that returns the status that is meant, and links what is meant. -/
theorem Represents.setLinks (hm : m.Represents s) {r : Int × Links ν} {q : Int × ListFamily ν}
    (h : r.1 = q.1 ∧ Holds r.2 q.2) :
    ∃ m', some (m.setLinks r) = some ((s.setLists q).1, m') ∧
      m'.Represents (s.setLists q).2 := by
  refine ⟨(m.setLinks r).2, ?_, h.2, hm.it⟩
  unfold ListMem.setLinks ListSpec.setLists
  rw [h.1]

omit [DecidableEq ν] in
theorem Represents.setCurrent (hm : m.Represents s) {i : ι} {h x y : ν}
    (hc : s.cursor i = some (h, x)) :
    (m.setCurrent i (some y)).Represents
      { s with cursor := Function.update s.cursor i (some (h, y)) } where
  links := hm.links
  it := by
    intro j h' z hz
    have hz : Function.update s.cursor i (some (h, y)) j = some (h', z) := hz
    rcases eq_or_ne j i with rfl | hne
    · rw [Function.update_self] at hz
      cases hz
      refine (Function.update_self ..).trans ?_
      rw [hm.it j h x hc]
    · rw [Function.update_of_ne hne] at hz
      exact (Function.update_of_ne hne _ _).trans (hm.it j h' z hz)

/-- Where an iterator stands and goes to. -/
theorem move_cases {i : ι} {next : ν → ν → Option ν} (hs : s.move i next = some (r, s')) :
    ∃ h c, s.cursor i = some (h, c) ∧ s.lists.place c = .on h ∧
      (next h c = none ∧ r = .status (-1) ∧ s' = s ∨
        ∃ x, next h c = some x ∧ r = .element (some x) ∧
          s' = { s with cursor := Function.update s.cursor i (some (h, x)) }) := by
  unfold ListSpec.move at hs
  split at hs
  · cases hs
  · rename_i h c hc
    obtain ⟨hon, hs⟩ := Option.ite_none_right_eq_some.1 hs
    refine ⟨h, c, hc, hon, ?_⟩
    split at hs
    · rename_i hn
      cases hs
      exact .inl ⟨hn, rfl, rfl⟩
    · rename_i x hx
      cases hs
      exact .inr ⟨x, hx, rfl, rfl⟩

omit [DecidableEq ν] in
/-- An iterator that does not move is as it was. -/
theorem Represents.stays (hm : m.Represents s) {i : ι} {h x : ν} (hc : s.cursor i = some (h, x)) :
    m.setCurrent i (some x) = m := by
  unfold ListMem.setCurrent
  have hi := hm.it i h x hc
  rw [show { m.it i with current := some x } = m.it i by rw [hi], Function.update_eq_self]

/-- A call that has a meaning does what it means. -/
theorem Represents.step [Fintype ν] (hm : m.Represents s) (hs : s.step c = some (r, s')) :
    ∃ m', m.step c = some (r, m') ∧ m'.Represents s' := by
  have hf := hm.links
  cases c with
  | elementInit e =>
      obtain ⟨he, hs⟩ := Option.dite_none_right_eq_some.1 hs
      cases hs
      refine hm.setLinks ⟨rfl, ?_⟩
      rw [Holds, nextOf_elementInit, prevOf_elementInit]
      exact ListFamily.Linked.clear hf (ListFamily.off_of he)
  | inList e =>
      obtain ⟨he, hs⟩ := Option.ite_none_right_eq_some.1 hs
      cases hs
      refine ⟨m, ?_, hm⟩
      rw [ListMem.step, hf.inList he]
  | insertAfter a e =>
      obtain ⟨⟨ha, he⟩, hs⟩ := Option.ite_none_right_eq_some.1 hs
      cases hs
      exact hm.setLinks (hf.insertAfter ha he)
  | insertBefore b e =>
      obtain ⟨⟨hb, he⟩, hs⟩ := Option.ite_none_right_eq_some.1 hs
      cases hs
      exact hm.setLinks (hf.insertBefore hb he)
  | elementRemove e | remove _ e =>
      obtain ⟨⟨he, hne⟩, hs⟩ := Option.ite_none_right_eq_some.1 hs
      cases hs
      exact hm.setLinks (hf.remove he hne)
  | init h =>
      have hstart : ∀ hh, (s.lists.IsHead h → s.lists.elems h = []) →
          ∃ m', m.step (.init h) = some (.status 0, m') ∧
            m'.Represents (s.setLists (0, s.lists.start h hh)).2 := by
        intro hh hnil
        have hlists : Holds (listInit m.links h) (s.lists.start h hh) := by
          rw [Holds, nextOf_init, prevOf_init]
          exact ListFamily.Linked.start hf hh hnil
        exact hm.setLinks (q := (0, s.lists.start h hh)) ⟨rfl, hlists⟩
      unfold ListSpec.step at hs
      dsimp only at hs
      by_cases hh : s.lists.place h = .raw ∨ s.lists.place h = .free
      · rw [dif_pos hh] at hs
        cases hs
        exact hstart _ fun hon => absurd hon (ListFamily.off_of hh h)
      · rw [dif_neg hh] at hs
        by_cases hnil : s.lists.IsHead h ∧ s.lists.elems h = []
        · rw [dif_pos hnil] at hs
          cases hs
          exact hstart _ fun _ => hnil.2
        · rw [dif_neg hnil] at hs
          cases hs
  | isEmpty h =>
      obtain ⟨hh, hs⟩ := Option.ite_none_right_eq_some.1 hs
      cases hs
      refine ⟨m, ?_, hm⟩
      rw [ListMem.step, hf.isEmpty hh]
  | prepend h e =>
      obtain ⟨⟨hh, he⟩, hs⟩ := Option.ite_none_right_eq_some.1 hs
      cases hs
      rw [← ListFamily.insertAfter_head hh]
      exact hm.setLinks (hf.insertAfter (by rw [hh]; nofun) he)
  | append h e =>
      obtain ⟨⟨hh, he⟩, hs⟩ := Option.ite_none_right_eq_some.1 hs
      cases hs
      rw [← ListFamily.insertBefore_head hh]
      exact hm.setLinks (hf.insertBefore (by rw [hh]; nofun) he)
  | iteratorInit i h =>
      cases hs
      refine ⟨_, rfl, hf, ?_⟩
      intro j h' z hz
      have hz : Function.update s.cursor i (some (h, h)) j = some (h', z) := hz
      rcases eq_or_ne j i with rfl | hne
      · rw [Function.update_self] at hz
        cases hz
        exact Function.update_self ..
      · rw [Function.update_of_ne hne] at hz
        exact (Function.update_of_ne hne _ _).trans (hm.it j h' z hz)
  | next i =>
      obtain ⟨h, c, hc, hon, hs⟩ := move_cases hs
      have hstep := hf.iteratorNext hon
      rcases hs with ⟨hn, rfl, rfl⟩ | ⟨x, hx, rfl, rfl⟩
      · rw [hn] at hstep
        refine ⟨m, ?_, hm⟩
        simp [ListMem.step, hm.it i h c hc, hstep, hm.stays hc]
      · rw [hx] at hstep
        refine ⟨_, ?_, hm.setCurrent hc⟩
        simp [ListMem.step, hm.it i h c hc, hstep]
  | nextCircular i =>
      have hs : s.move i (fun h c => some ((follower (h :: s.lists.elems h) c).getD
        ((s.lists.elems h).head?.getD h))) = some (r, s') := hs
      obtain ⟨h, c, hc, hon, hs⟩ := move_cases hs
      have hstep := hf.iteratorNextCircular hon
      rcases hs with ⟨hn, rfl, rfl⟩ | ⟨x, hx, rfl, rfl⟩
      · cases hn
      · cases hx
        refine ⟨_, ?_, hm.setCurrent hc⟩
        simp [ListMem.step, hm.it i h c hc, hstep]
  | previous i =>
      obtain ⟨h, c, hc, hon, hs⟩ := move_cases hs
      have hstep := hf.iteratorPrevious hon
      rcases hs with ⟨hn, rfl, rfl⟩ | ⟨x, hx, rfl, rfl⟩
      · rw [hn] at hstep
        refine ⟨m, ?_, hm⟩
        simp [ListMem.step, hm.it i h c hc, hstep, hm.stays hc]
      · rw [hx] at hstep
        refine ⟨_, ?_, hm.setCurrent hc⟩
        simp [ListMem.step, hm.it i h c hc, hstep]
  | previousCircular i =>
      have hs : s.move i (fun h c => some ((follower (h :: (s.lists.elems h).reverse) c).getD
        ((s.lists.elems h).getLast?.getD h))) = some (r, s') := hs
      obtain ⟨h, c, hc, hon, hs⟩ := move_cases hs
      have hstep := hf.iteratorPreviousCircular hon
      rcases hs with ⟨hn, rfl, rfl⟩ | ⟨x, hx, rfl, rfl⟩
      · cases hn
      · cases hx
        refine ⟨_, ?_, hm.setCurrent hc⟩
        simp [ListMem.step, hm.it i h c hc, hstep]
  | contains h e =>
      obtain ⟨hh, hs⟩ := Option.ite_none_right_eq_some.1 hs
      cases hs
      refine ⟨m, ?_, hm⟩
      rw [ListMem.step, hf.contains hh]
      rfl

/-- Whatever calls a program makes, in whatever order, on memory that held anything before: as long as
the calls have a meaning, every one returns what it means, and the memory holds the lists. -/
theorem refines_lists [Fintype ν] (m : ListMem ν ι) {h : List (ListCall ν ι × ListReply ν)}
    {s : ListSpec ν ι} (hr : (ListSpec.system ν ι).Run (fun _ _ => True) h s) :
    ∃ m', (system m).Run (fun _ _ => True) h m' ∧ m'.Represents s := by
  refine hr.simulate (N := system m) (R := fun s m => m.Represents s) ?_ ?_
  · rintro s rfl
    exact ⟨m, rfl, ⟨fun _ => nofun, fun _ => nofun⟩, fun _ _ _ => nofun⟩
  · intro s m c e s' hm hs
    obtain ⟨⟨r, s'⟩, hstep, he⟩ := Option.map_eq_some_iff.1 hs
    cases he
    obtain ⟨m', hm', hr'⟩ := hm.step hstep
    exact ⟨m', by simp [system, hm'], hr'⟩

/-- Two lists share three elements. An element is taken from one list to the other while an iterator
stands at its neighbour. -/
theorem refines_lists_two_lists : ∃ h m',
    (system (⟨fun _ => ⟨none, some 0⟩, fun _ => ⟨0, none⟩⟩ : ListMem (Fin 5) Unit)).Run
      (fun _ _ => True) h m' ∧
    h.take 3 = [(.next (), .status (-1)), (.append 1 3, .status 0), (.remove 1 3, .status 0)] := by
  rcases TransitionSystem.exists_run_of_exec (M := ListSpec.system (Fin 5) Unit)
    (G := fun _ _ => True) rfl
    [.init 0, .init 1, .elementInit 2, .elementInit 3, .elementInit 4, .append 0 2, .append 0 3,
      .prepend 0 4, .insertAfter 4 2, .iteratorInit () 0, .next (), .next (), .remove 1 3,
      .append 1 3, .next ()]
    (P := fun h _ => h.take 3 =
      [(.next (), .status (-1)), (.append 1 3, .status 0), (.remove 1 3, .status 0)])
    (by decide +kernel) with ⟨h, s, hr, hh⟩
  obtain ⟨m', hm, -⟩ := refines_lists ⟨fun _ => ⟨none, some 0⟩, fun _ => ⟨0, none⟩⟩ hr
  exact ⟨h, m', hm, hh⟩

end ListMem

end MsTos
