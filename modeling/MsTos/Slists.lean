-- SUMMARY: The singly linked list of `slist.h`: whatever a program calls, in any order, the memory behaves as a family of lists.
import MsTos.Lib.ChainedFamily
import MsTos.Lists

namespace MsTos

variable {ν ι : Type} [DecidableEq ν] [DecidableEq ι]

/-! ## Code -/

/-- The memory that holds the list elements: `element->next` for each address. -/
abbrev SLinks (ν : Type) := ν → Option ν

namespace SLinks

variable (links : SLinks ν)

/-- `slist_element_init`, and `slist_init` for a head. -/
def elementInit (element : ν) : SLinks ν := Function.update links element none

/-- `slist_element_insert_after`. -/
def elementInsertAfter (after element : ν) : Int × SLinks ν :=
  let links := Function.update links element (links after)
  let links := Function.update links after (some element)
  (0, links)

/-- `slist_element_remove_after`. -/
def elementRemoveAfter (after : ν) : Int × SLinks ν :=
  match links after with
  | none => (0, links)
  | some n => (0, Function.update links after (links n))

/-- `slist_is_empty`. -/
def isEmpty (list : ν) : Bool := (links list).isNone

/-- `slist_prepend`. -/
def prepend (list element : ν) : Int × SLinks ν := links.elementInsertAfter list element

/-- The loop of `slist_append`, for `n` rounds: `none` where it goes on. -/
def lastLoop : Nat → ν → Option ν
  | 0, _ => none
  | n + 1, last =>
      match links last with
      | none => some last
      | some next => lastLoop n next

/-- `slist_append`. A loop that has made more rounds than there are nodes never ends. -/
def append [Fintype ν] (list element : ν) : Option (Int × SLinks ν) :=
  (links.lastLoop (Fintype.card ν) list).map fun last => links.elementInsertAfter last element

/-- The loop of `slist_remove`. -/
def beforeLoop (element : ν) : Nat → ν → Option ν
  | 0, _ => none
  | n + 1, last =>
      match links last with
      | none => some last
      | some next => if next = element then some last else beforeLoop element n next

/-- `slist_remove`. -/
def remove [Fintype ν] (list element : ν) : Option (Int × SLinks ν) :=
  (links.beforeLoop element (Fintype.card ν) list).map fun last =>
    if (links last).isNone then (-1, links) else links.elementRemoveAfter last

/-- `slist_remove_head`: the removed element, or `none` if the list is empty. -/
def removeHead (list : ν) : Option ν × SLinks ν :=
  if links.isEmpty list then (none, links)
  else (links list, (links.elementRemoveAfter list).2)

/-- `slist_iterator_next`: the result and the new `it->current`, or `none` where the function reads
through a `NULL` cursor. -/
def iteratorNext (current : Option ν) : Option (Int × Option ν) :=
  match current with
  | none => none
  | some c =>
      if (links c).isNone then some (-1, some c)
      else some (0, links c)

end SLinks

/-! ## Programs -/

/-- The calls of `slist.h`, and an assignment to the memory of an element. -/
inductive SlistCall (ν ι : Type) where
  | elementInit (element : ν)
  | insertAfter (after element : ν)
  | removeAfter (after : ν)
  | init (list : ν)
  | isEmpty (list : ν)
  | prepend (list element : ν)
  | append (list element : ν)
  | remove (list element : ν)
  | removeHead (list : ν)
  | iteratorInit (it : ι) (list : ν)
  | next (it : ι)
  | store (element : ν) (value : Option ν)
  deriving DecidableEq

/-- Elements, heads and iterators. -/
structure SlistMem (ν ι : Type) where
  links : SLinks ν
  current : ι → Option ν

namespace SlistMem

variable (m : SlistMem ν ι)

def setLinks (r : Int × SLinks ν) : ListReply ν × SlistMem ν ι :=
  (.status r.1, { m with links := r.2 })

/-- What a call does; `none` where it reads through `NULL`, or never ends. -/
def step [Fintype ν] : SlistCall ν ι → Option (ListReply ν × SlistMem ν ι)
  | .elementInit e => some (m.setLinks (0, m.links.elementInit e))
  | .insertAfter a e => some (m.setLinks (m.links.elementInsertAfter a e))
  | .removeAfter a => some (m.setLinks (m.links.elementRemoveAfter a))
  | .init h => some (m.setLinks (0, m.links.elementInit h))
  | .isEmpty h => some (.flag (m.links.isEmpty h), m)
  | .prepend h e => some (m.setLinks (m.links.prepend h e))
  | .append h e => (m.links.append h e).map m.setLinks
  | .remove h e => (m.links.remove h e).map m.setLinks
  | .removeHead h =>
      let r := m.links.removeHead h
      some (if r.1.isNone then .status (-1) else .element r.1, { m with links := r.2 })
  | .iteratorInit i h => some (.status 0, { m with current := Function.update m.current i (some h) })
  | .next i => (m.links.iteratorNext (m.current i)).map fun r =>
      (if r.1 = 0 then .element r.2 else .status r.1,
        { m with current := Function.update m.current i r.2 })
  | .store e v => some (m.setLinks (0, Function.update m.links e v))

/-- A program that makes calls of `slist.h`, in any order, on memory that holds anything. -/
def system [Fintype ν] (m : SlistMem ν ι) :
    TransitionSystem (SlistMem ν ι) (SlistCall ν ι) (SlistCall ν ι × ListReply ν) where
  init m' := m' = m
  step m c := (m.step c).map fun r => ((c, r.1), r.2)

end SlistMem

/-! ## What the programs have in mind -/

/-- The lists, and where each iterator stands. -/
structure SlistSpec (ν ι : Type) where
  lists : ListFamily ν
  cursor : ι → Option ν

namespace SlistSpec

variable (s : SlistSpec ν ι)

def setLists (r : ListReply ν) (f : ListFamily ν) : ListReply ν × SlistSpec ν ι :=
  (r, { s with lists := f })

/-- Insert an element that is in no list. -/
def insert (h : ν) (i : Nat) (e : ν) : Option (ListReply ν × SlistSpec ν ι) :=
  if hh : s.lists.IsHead h ∧ (s.lists.place e = .raw ∨ s.lists.place e = .free) then
    some (s.setLists (.status 0) (s.lists.linkAt h i e hh.1 (ListFamily.off_of hh.2)))
  else none

/-- What a call means. It has no meaning where a list has not been initialised, where an element that
is in a list is inserted or written to, where `after` is in no list, and where the element that an
iterator stands at is in none. -/
def step : SlistCall ν ι → Option (ListReply ν × SlistSpec ν ι)
  | .elementInit e =>
      if he : s.lists.place e = .raw ∨ s.lists.place e = .free then
        some (s.setLists (.status 0) (s.lists.clear e (ListFamily.off_of he)))
      else none
  | .insertAfter a e =>
      match s.lists.place a with
      | .on h => s.insert h ((h :: s.lists.elems h).idxOf a) e
      | _ => none
  | .removeAfter a =>
      match ha : s.lists.place a with
      | .on h =>
          match follower (h :: s.lists.elems h) a with
          | none => some (.status 0, s)
          | some x => some (s.setLists (.status 0)
              (s.lists.unlinkFrom h x (ListFamily.isHead_of_on ha)))
      | _ => none
  | .init h =>
      if hh : (s.lists.place h = .raw ∨ s.lists.place h = .free) ∨ s.lists.IsHead h then
        some (s.setLists (.status 0) (s.lists.start h (hh.imp_left ListFamily.off_of)))
      else none
  | .isEmpty h => if s.lists.IsHead h then some (.flag (s.lists.elems h).isEmpty, s) else none
  | .prepend h e => s.insert h 0 e
  | .append h e => s.insert h (s.lists.elems h).length e
  | .remove h e =>
      if hh : s.lists.IsHead h then
        if (s.lists.elems h).contains e then
          some (s.setLists (.status 0) (s.lists.unlinkFrom h e hh))
        else some (.status (-1), s)
      else none
  | .removeHead h =>
      if hh : s.lists.IsHead h then
        match (s.lists.elems h).head? with
        | none => some (.status (-1), s)
        | some x => some (s.setLists (.element (some x)) (s.lists.unlinkFrom h x hh))
      else none
  | .iteratorInit i h => some (.status 0, { s with cursor := Function.update s.cursor i h })
  | .next i =>
      match s.cursor i with
      | none => none
      | some c =>
          match s.lists.place c with
          | .on h =>
              match follower (h :: s.lists.elems h) c with
              | none => some (.status (-1), s)
              | some x =>
                  some (.element (some x), { s with cursor := Function.update s.cursor i x })
          | _ => none
  | .store e _ =>
      if s.lists.place e = .raw ∨ s.lists.place e = .free then some (.status 0, s) else none

/-- At first, nothing has been initialised. -/
def system (ν ι : Type) [DecidableEq ν] [DecidableEq ι] :
    TransitionSystem (SlistSpec ν ι) (SlistCall ν ι) (SlistCall ν ι × ListReply ν) where
  init s := s = ⟨.raw ν, fun _ => none⟩
  step s c := (s.step c).map fun r => ((c, r.1), r.2)

end SlistSpec

/-! ## The functions of `slist.h` on chained memory -/

namespace SLinks

variable {links : SLinks ν} {f : ListFamily ν} {a e h c x : ν} {l₁ l₂ : List ν} {n : Nat}

/-- `slist_element_insert_after`. -/
theorem elementInsertAfter_chained (hf : f.Chained links) (ha : f.place a = .on h)
    (he : f.Off e) :
    (f.linkAt h ((h :: f.elems h).idxOf a) e (ListFamily.isHead_of_on ha) he).Chained
      (links.elementInsertAfter a e).2 :=
  hf.linkAfter ha he

/-- `slist_element_remove_after`, where there is an element behind `a`. -/
theorem elementRemoveAfter_chained (hf : f.Chained links) (ha : f.place a = .on h)
    (hx : follower (h :: f.elems h) a = some x) : (links.elementRemoveAfter a).1 = 0 ∧
      (f.unlinkFrom h x (ListFamily.isHead_of_on ha)).Chained (links.elementRemoveAfter a).2 := by
  have hn : links a = some x := (hf.next_eq ha).trans hx
  unfold elementRemoveAfter
  rw [hn]
  exact ⟨rfl, hf.unlinkAfter ha hn⟩

theorem elementRemoveAfter_last (hf : f.Chained links) (ha : f.place a = .on h)
    (hx : follower (h :: f.elems h) a = none) : links.elementRemoveAfter a = (0, links) := by
  have hn : links a = none := (hf.next_eq ha).trans hx
  unfold elementRemoveAfter
  rw [hn]

omit [DecidableEq ν] in
theorem head_eq (hf : f.Chained links) (hh : f.IsHead h) : links h = (f.elems h).head? :=
  (hf h hh).next_start

/-- The loop of `slist_append` ends at the last element behind `c`. -/
theorem lastLoop_chained (hf : f.Chained links) (hh : f.IsHead h)
    (hl : h :: f.elems h = l₁ ++ c :: l₂) (hn : l₂.length < n) :
    ∃ a, links.lastLoop n c = some a ∧ f.place a = .on h ∧
      follower (h :: f.elems h) a = none := by
  obtain ⟨hc, hnext⟩ := ListFamily.follower_of_split hh hl
  induction l₂ generalizing l₁ c n with
  | nil =>
      obtain ⟨n, rfl⟩ := Nat.exists_eq_succ_of_ne_zero (Nat.ne_of_gt hn)
      refine ⟨c, ?_, hc, hnext⟩
      rw [lastLoop, hf.next_eq hc, hnext]
      rfl
  | cons y l₂ ih =>
      obtain ⟨n, rfl⟩ := Nat.exists_eq_succ_of_ne_zero (Nat.ne_of_gt (Nat.zero_lt_of_lt hn))
      have hl' : h :: f.elems h = (l₁ ++ [c]) ++ y :: l₂ := by
        rw [hl]
        simp
      obtain ⟨hy, hnext'⟩ := ListFamily.follower_of_split hh hl'
      rw [lastLoop, hf.next_eq hc, hnext]
      exact ih hl' (by simpa using hn) hy hnext'

/-- The loop of `slist_remove` ends before `e`, or at the last element. -/
theorem beforeLoop_chained (hf : f.Chained links) (hh : f.IsHead h)
    (hl : h :: f.elems h = l₁ ++ c :: l₂) (hn : l₂.length < n) :
    ∃ a, links.beforeLoop e n c = some a ∧ f.place a = .on h ∧
      follower (h :: f.elems h) a = if l₂.contains e then some e else none := by
  obtain ⟨hc, hnext⟩ := ListFamily.follower_of_split hh hl
  induction l₂ generalizing l₁ c n with
  | nil =>
      obtain ⟨n, rfl⟩ := Nat.exists_eq_succ_of_ne_zero (Nat.ne_of_gt hn)
      refine ⟨c, ?_, hc, hnext⟩
      rw [beforeLoop, hf.next_eq hc, hnext]
      rfl
  | cons y l₂ ih =>
      obtain ⟨n, rfl⟩ := Nat.exists_eq_succ_of_ne_zero (Nat.ne_of_gt (Nat.zero_lt_of_lt hn))
      rw [beforeLoop, hf.next_eq hc, hnext]
      by_cases hye : y = e
      · refine ⟨c, if_pos hye, hc, ?_⟩
        rw [hnext, hye]
        simp
      · have hl' : h :: f.elems h = (l₁ ++ [c]) ++ y :: l₂ := by
          rw [hl]
          simp
        obtain ⟨hy, hnext'⟩ := ListFamily.follower_of_split hh hl'
        obtain ⟨a, ha, hon, hfol⟩ := ih (n := n) hl' (by simpa using hn) hy hnext'
        refine ⟨a, (if_neg hye).trans ha, hon, ?_⟩
        rw [hfol, List.contains_cons, beq_false_of_ne (Ne.symm hye), Bool.false_or]

/-- `slist_append`. -/
theorem append_chained [Fintype ν] (hf : f.Chained links) (hh : f.IsHead h) (he : f.Off e) :
    ∃ links', links.append h e = some (0, links') ∧
      (f.linkAt h (f.elems h).length e hh he).Chained links' := by
  have hl : h :: f.elems h = [] ++ h :: f.elems h := rfl
  obtain ⟨a, ha, hon, hlast⟩ := lastLoop_chained hf hh hl (f.nodup h hh).length_le_card
  refine ⟨(links.elementInsertAfter a e).2, ?_, ?_⟩
  · rw [append, ha]
    rfl
  · have hchained := elementInsertAfter_chained hf hon he
    simpa only [ListFamily.idxOf_of_follower_none hon hlast] using hchained

/-- `slist_remove`, of an element of the list and of any other. -/
theorem remove_chained [Fintype ν] (hf : f.Chained links) (hh : f.IsHead h) :
    ∃ r, links.remove h e = some r ∧
      if (f.elems h).contains e then r.1 = 0 ∧ (f.unlinkFrom h e hh).Chained r.2
      else r = (-1, links) := by
  have hl : h :: f.elems h = [] ++ h :: f.elems h := rfl
  obtain ⟨a, ha, hon, hfol⟩ :=
    beforeLoop_chained (e := e) hf hh hl (f.nodup h hh).length_le_card
  have hn := (hf.next_eq hon).trans hfol
  refine ⟨_, by rw [remove, ha]; rfl, ?_⟩
  by_cases hm : (f.elems h).contains e = true
  · rw [if_pos hm] at hfol hn ⊢
    dsimp only
    rw [hn]
    exact elementRemoveAfter_chained hf hon hfol
  · rw [if_neg hm] at hn ⊢
    dsimp only
    rw [hn]
    rfl

end SLinks

/-! ## Runs -/

namespace SlistMem

/-- The memory and the iterators are as the program thinks they are. -/
structure Represents (m : SlistMem ν ι) (s : SlistSpec ν ι) : Prop where
  links : s.lists.Chained m.links
  current : ∀ i c, s.cursor i = some c → m.current i = some c

variable {m : SlistMem ν ι} {s s' : SlistSpec ν ι} {c : SlistCall ν ι} {r : ListReply ν}

omit [DecidableEq ν] in
/-- An iterator is set. -/
theorem Represents.setCurrent (hm : m.Represents s) (i : ι) (x : ν) :
    Represents { m with current := Function.update m.current i (some x) }
      { s with cursor := Function.update s.cursor i (some x) } where
  links := hm.links
  current := by
    intro j y hy
    have hy : Function.update s.cursor i (some x) j = some y := hy
    show Function.update m.current i (some x) j = some y
    rcases eq_or_ne j i with rfl | hne
    · rw [Function.update_self] at hy ⊢
      exact hy
    · rw [Function.update_of_ne hne] at hy ⊢
      exact hm.current j y hy

omit [DecidableEq ι] in
/-- A call inserts an element in the place that is meant. -/
theorem Represents.insert (hm : m.Represents s) {h e : ν} {i : Nat}
    (hs : s.insert h i e = some (r, s')) {links' : SLinks ν}
    (hc : ∀ (hh : s.lists.IsHead h) (he : s.lists.Off e),
      (s.lists.linkAt h i e hh he).Chained links') :
    ∃ m', some (m.setLinks (0, links')) = some (r, m') ∧ m'.Represents s' := by
  obtain ⟨hh, hs⟩ := Option.dite_none_right_eq_some.1 hs
  cases hs
  exact ⟨_, rfl, hc hh.1 (ListFamily.off_of hh.2), hm.current⟩

/-- A call that has a meaning does what it means. -/
theorem Represents.step [Fintype ν] (hm : m.Represents s) (hs : s.step c = some (r, s')) :
    ∃ m', m.step c = some (r, m') ∧ m'.Represents s' := by
  have hf := hm.links
  cases c with
  | elementInit e =>
      obtain ⟨he, hs⟩ := Option.dite_none_right_eq_some.1 hs
      cases hs
      exact ⟨_, rfl, hf.clear (ListFamily.off_of he), hm.current⟩
  | insertAfter a e =>
      unfold SlistSpec.step at hs
      dsimp only at hs
      split at hs
      · rename_i h ha
        exact hm.insert hs fun _ he => SLinks.elementInsertAfter_chained hf ha he
      · cases hs
  | removeAfter a =>
      unfold SlistSpec.step at hs
      dsimp only at hs
      split at hs
      · rename_i h ha
        split at hs
        · rename_i hx
          cases hs
          refine ⟨m, ?_, hm⟩
          rw [SlistMem.step, SLinks.elementRemoveAfter_last hf ha hx]
          rfl
        · rename_i x hx
          cases hs
          obtain ⟨h₁, h₂⟩ := SLinks.elementRemoveAfter_chained hf ha hx
          refine ⟨(m.setLinks (m.links.elementRemoveAfter a)).2, ?_, h₂, hm.current⟩
          rw [SlistMem.step, setLinks, h₁]
      · cases hs
  | init h =>
      obtain ⟨hh, hs⟩ := Option.dite_none_right_eq_some.1 hs
      cases hs
      exact ⟨_, rfl, hf.start (hh.imp_left ListFamily.off_of), hm.current⟩
  | isEmpty h =>
      obtain ⟨hh, hs⟩ := Option.ite_none_right_eq_some.1 hs
      cases hs
      refine ⟨m, ?_, hm⟩
      rw [SlistMem.step, SLinks.isEmpty, SLinks.head_eq hf hh]
      cases s.lists.elems h <;> rfl
  | prepend h e =>
      refine hm.insert hs fun hh he => ?_
      show (s.lists.linkAt h 0 e hh he).Chained (m.links.elementInsertAfter h e).2
      have hchained := SLinks.elementInsertAfter_chained hf hh he
      simpa only [List.idxOf_cons_self] using hchained
  | append h e =>
      have hs : s.insert h (s.lists.elems h).length e = some (r, s') := hs
      obtain ⟨hh, -⟩ := Option.dite_none_right_eq_some.1 hs
      obtain ⟨links', hc, hchained⟩ := SLinks.append_chained hf hh.1 (ListFamily.off_of hh.2)
      rw [SlistMem.step, hc]
      exact hm.insert hs fun _ _ => hchained
  | remove h e =>
      obtain ⟨hh, hs⟩ := Option.dite_none_right_eq_some.1 hs
      obtain ⟨rc, hc, hchained⟩ := SLinks.remove_chained (e := e) hf hh
      rw [SlistMem.step, hc]
      split at hs
      · rename_i hm'
        cases hs
        rw [if_pos hm'] at hchained
        refine ⟨(m.setLinks rc).2, ?_, hchained.2, hm.current⟩
        rw [Option.map_some, setLinks, hchained.1]
      · rename_i hm'
        cases hs
        rw [if_neg hm'] at hchained
        exact ⟨m, by rw [hchained]; rfl, hm⟩
  | removeHead h =>
      obtain ⟨hh, hs⟩ := Option.dite_none_right_eq_some.1 hs
      have hhead := SLinks.head_eq hf hh
      split at hs
      · rename_i hnil
        cases hs
        refine ⟨m, ?_, hm⟩
        rw [SlistMem.step, SLinks.removeHead, SLinks.isEmpty, hhead, hnil]
        rfl
      · rename_i x hx
        cases hs
        have hfol : follower (h :: s.lists.elems h) h = some x := by
          rw [← hx]
          exact follower_cons_self h _
        obtain ⟨-, hchained⟩ := SLinks.elementRemoveAfter_chained hf hh hfol
        refine ⟨⟨(m.links.elementRemoveAfter h).2, m.current⟩, ?_, hchained, hm.current⟩
        rw [SlistMem.step, SLinks.removeHead, SLinks.isEmpty, hhead, hx]
        rfl
  | iteratorInit i h =>
      cases hs
      exact ⟨_, rfl, hm.setCurrent i h⟩
  | next i =>
      unfold SlistSpec.step at hs
      dsimp only at hs
      split at hs
      · cases hs
      · rename_i c hc
        split at hs
        · rename_i h hon
          have hn := hf.next_eq hon
          split at hs
          · rename_i hx
            cases hs
            refine ⟨m, ?_, hm⟩
            rw [SlistMem.step, hm.current i c hc, SLinks.iteratorNext, hn, hx]
            have hi := hm.current i c hc
            simp [← hi]
          · rename_i x hx
            cases hs
            refine ⟨_, ?_, hm.setCurrent i x⟩
            rw [SlistMem.step, hm.current i c hc, SLinks.iteratorNext, hn, hx]
            rfl
        · cases hs
  | store e v =>
      obtain ⟨he, hs⟩ := Option.ite_none_right_eq_some.1 hs
      cases hs
      exact ⟨_, rfl, hf.of_off (ListFamily.off_of he) v, hm.current⟩

/-- Whatever calls a program makes, in whatever order, on memory that held anything before: as long as
the calls have a meaning, every one ends and returns what it means, and the memory holds the lists. -/
theorem refines_slists [Fintype ν] (m : SlistMem ν ι) {h : List (SlistCall ν ι × ListReply ν)}
    {s : SlistSpec ν ι} (hr : (SlistSpec.system ν ι).Run (fun _ _ => True) h s) :
    ∃ m', (system m).Run (fun _ _ => True) h m' ∧ m'.Represents s := by
  refine hr.simulate (N := system m) (R := fun s m => m.Represents s) ?_ ?_
  · rintro s rfl
    exact ⟨m, rfl, fun _ => nofun, fun _ _ => nofun⟩
  · intro s m c e s' hm hs
    obtain ⟨⟨r, s'⟩, hstep, he⟩ := Option.map_eq_some_iff.1 hs
    cases he
    obtain ⟨m', hm', hr'⟩ := hm.step hstep
    exact ⟨m', by simp [system, hm'], hr'⟩

/-- An element that is removed from the wrong list stays where it is. -/
theorem refines_slists_two_lists : ∃ h m',
    (system (⟨fun _ => some 0, fun _ => none⟩ : SlistMem (Fin 5) Unit)).Run (fun _ _ => True) h m' ∧
    h.take 3 = [(.next (), .element (some 3)), (.removeHead 0, .element (some 4)),
      (.remove 1 3, .status (-1))] := by
  rcases TransitionSystem.exists_run_of_exec (M := SlistSpec.system (Fin 5) Unit)
    (G := fun _ _ => True) rfl
    [.init 0, .init 1, .store 3 (some 2), .append 0 2, .append 0 3, .prepend 0 4, .iteratorInit () 0,
      .next (), .next (), .remove 1 3, .removeHead 0, .next ()]
    (P := fun h _ => h.take 3 = [(.next (), .element (some 3)), (.removeHead 0, .element (some 4)),
      (.remove 1 3, .status (-1))])
    (by decide +kernel) with ⟨h, s, hr, hh⟩
  obtain ⟨m', hm, -⟩ := refines_slists ⟨fun _ => some 0, fun _ => none⟩ hr
  exact ⟨h, m', hm, hh⟩

end SlistMem

end MsTos
