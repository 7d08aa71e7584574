-- SUMMARY: Doubly linked cycles: lists kept in `next` and `prev` maps around a head node, with insertion, removal and circular iteration.
import Mathlib.Data.List.Nodup
import Mathlib.Logic.Function.Basic

/-!
# Doubly linked cycles

The nodes of an intrusive list live in memory as two partial maps, `next` and `prev`.
`LinkedCycle next prev h l` says that these maps link the nodes of `l`, in this order, in a
cycle through the head node `h`, and that every other node is unlinked.
-/

variable {ν : Type*} {next prev next' prev' : ν → Option ν} {a b e h x y z : ν} {l l₁ l₂ : List ν}

/-! ## Segments -/

/-- From `a`, the `next` links visit the nodes of `l` and then `b`, and the `prev` links lead the
same way back. -/
def Segment (next prev : ν → Option ν) : ν → List ν → ν → Prop
  | a, [], b => next a = some b ∧ prev b = some a
  | a, x :: l, b => (next a = some x ∧ prev x = some a) ∧ Segment next prev x l b

namespace Segment

theorem append_iff :
    Segment next prev a (l₁ ++ x :: l₂) b ↔ Segment next prev a l₁ x ∧ Segment next prev x l₂ b := by
  induction l₁ generalizing a with
  | nil => rfl
  | cons y l₁ ih => simp only [List.cons_append, Segment, ih, and_assoc]

/-- The same nodes in the other direction. -/
theorem reverse (hs : Segment next prev a l b) : Segment prev next b l.reverse a := by
  induction l generalizing a with
  | nil => exact ⟨hs.2, hs.1⟩
  | cons x l ih =>
      rw [List.reverse_cons]
      exact append_iff.2 ⟨ih hs.2, hs.1.2, hs.1.1⟩

/-- A segment only depends on the links between its nodes. -/
theorem congr (hs : Segment next prev a l b) (hn : ∀ x ∈ a :: l, next' x = next x)
    (hp : ∀ x ∈ l ++ [b], prev' x = prev x) : Segment next' prev' a l b := by
  induction l generalizing a with
  | nil =>
      simp only [Segment] at hs ⊢
      rw [hn a (by simp), hp b (by simp)]
      exact hs
  | cons y l ih =>
      obtain ⟨⟨h₁, h₂⟩, hs⟩ := hs
      refine ⟨⟨?_, ?_⟩, ih hs (fun x hx => hn x (by simp [hx])) (fun x hx => hp x (by simp [hx]))⟩
      · rw [hn a (by simp), h₁]
      · rw [hp y (by simp), h₂]

theorem next_start (hs : Segment next prev a l b) :
    next a = some ((l ++ [b]).head (by simp)) := by
  cases l with
  | nil => exact hs.1
  | cons y l => exact hs.1.1

theorem prev_end (hs : Segment next prev a l b) :
    prev b = some ((a :: l).getLast (by simp)) := by
  induction l generalizing a with
  | nil => exact hs.2
  | cons y l ih => rw [ih hs.2, List.getLast_cons_cons]

theorem next_end (hs : Segment next prev a l b) :
    next ((a :: l).getLast (by simp)) = some b := by
  induction l generalizing a with
  | nil => exact hs.1
  | cons y l ih => rw [List.getLast_cons_cons, ih hs.2]

theorem next_of_mem (hs : Segment next prev a l b) (hx : x ∈ a :: l) :
    ∃ y ∈ l ++ [b], next x = some y := by
  obtain rfl | hx := List.mem_cons.1 hx
  · exact ⟨_, List.head_mem _, hs.next_start⟩
  · obtain ⟨l₁, l₂, rfl⟩ := List.append_of_mem hx
    refine ⟨_, ?_, (append_iff.1 hs).2.next_start⟩
    have := List.head_mem (l := l₂ ++ [b]) (by simp)
    simp only [List.mem_append, List.mem_cons] at this ⊢
    tauto

theorem prev_of_mem (hs : Segment next prev a l b) (hx : x ∈ l ++ [b]) :
    ∃ y ∈ a :: l, prev x = some y := by
  obtain hx | hx := List.mem_append.1 hx
  · obtain ⟨l₁, l₂, rfl⟩ := List.append_of_mem hx
    refine ⟨_, ?_, (append_iff.1 hs).1.prev_end⟩
    have := List.getLast_mem (l := a :: l₁) (by simp)
    simp only [List.mem_append, List.mem_cons] at this ⊢
    tauto
  · obtain rfl := List.mem_singleton.1 hx
    exact ⟨_, List.getLast_mem _, hs.prev_end⟩

/-- The `prev` links lead back along the `next` links. -/
theorem prev_of_next (hs : Segment next prev a l b) (hx : x ∈ a :: l) (hn : next x = some y) :
    prev y = some x := by
  induction l generalizing a with
  | nil =>
      obtain rfl := List.mem_singleton.1 hx
      cases hs.1.symm.trans hn
      exact hs.2
  | cons z l ih =>
      rcases List.mem_cons.1 hx with rfl | hx
      · cases hs.1.1.symm.trans hn
        exact hs.1.2
      · exact ih hs.2 hx

theorem next_of_prev (hs : Segment next prev a l b) (hy : y ∈ l ++ [b]) (hp : prev y = some x) :
    next x = some y := by
  induction l generalizing a with
  | nil =>
      obtain rfl := List.mem_singleton.1 hy
      cases hs.2.symm.trans hp
      exact hs.1
  | cons z l ih =>
      rcases List.mem_cons.1 hy with rfl | hy
      · cases hs.1.2.symm.trans hp
        exact hs.1.1
      · exact ih hs.2 hy

variable [DecidableEq ν]

/-- Redirect the last link of a segment from `e` to `b`. -/
theorem replace_end (hs : Segment next prev a l e) (hnd : (a :: l).Nodup) (hb : b ∉ l)
    (hz : prev e = some z) :
    Segment (Function.update next z (some b)) (Function.update prev b (some z)) a l b := by
  induction l generalizing a with
  | nil =>
      obtain rfl : a = z := Option.some.inj (hs.2.symm.trans hz)
      simp [Segment]
  | cons y l ih =>
      obtain ⟨⟨h₁, h₂⟩, hs⟩ := hs
      obtain ⟨ha, hnd⟩ := List.nodup_cons.1 hnd
      have hza : a ≠ z := by
        rintro rfl
        exact ha (Option.some.inj (hz.symm.trans hs.prev_end) ▸ List.getLast_mem _)
      have hyb : y ≠ b := by
        rintro rfl
        exact hb (by simp)
      refine ⟨⟨?_, ?_⟩, ih hs hnd (fun h => hb (by simp [h]))⟩
      · rw [Function.update_of_ne hza, h₁]
      · rw [Function.update_of_ne hyb, h₂]

/-- Link a new node in front of a node or of the end of a cycle. -/
theorem insert (hs : Segment next prev h (l₁ ++ l₂) h) (hnd : (h :: (l₁ ++ l₂)).Nodup)
    (he : e ∉ h :: (l₁ ++ l₂)) (hb : (l₂ ++ [h]).head? = some b) (ha : prev b = some a) :
    Segment (Function.update (Function.update next e (some b)) a (some e))
      (Function.update (Function.update prev e (some a)) b (some e)) h (l₁ ++ e :: l₂) h := by
  obtain ⟨hh, hnd⟩ := List.nodup_cons.1 hnd
  obtain ⟨hnd₁, hnd₂, hdisj⟩ := List.nodup_append.1 hnd
  have hs₁ : Segment next prev h l₁ b := by
    cases l₂ with
    | nil =>
        cases hb
        simpa using hs
    | cons y l₂ =>
        cases hb
        exact (append_iff.1 hs).1
  have ham : a ∈ h :: l₁ := Option.some.inj (ha.symm.trans hs₁.prev_end) ▸ List.getLast_mem _
  have hbm : b ∈ l₂ ++ [h] := List.mem_of_mem_head? hb
  have hbl₁ : b ∉ l₁ := by
    intro hbl
    rcases List.mem_append.1 hbm with hm | hm
    · exact hdisj b hbl b hm rfl
    · exact hh (List.mem_append_left _ (List.mem_singleton.1 hm ▸ hbl))
  have hne₁ : ∀ x ∈ h :: l₁, x ≠ e := by
    rintro x hx rfl
    apply he
    simp only [List.mem_cons, List.mem_append] at hx ⊢
    tauto
  have hne₂ : ∀ x ∈ l₂ ++ [h], x ≠ e := by
    rintro x hx rfl
    apply he
    simp only [List.mem_cons, List.mem_append, List.not_mem_nil, or_false] at hx ⊢
    tauto
  have hae := hne₁ a ham
  have hbe := hne₂ b hbm
  have hel₁ : e ∉ l₁ := fun hx => hne₁ e (List.mem_cons_of_mem h hx) rfl
  have hnd' : (h :: l₁).Nodup :=
    List.nodup_cons.2 ⟨fun hx => hh (List.mem_append_left _ hx), hnd₁⟩
  refine append_iff.2 ⟨(hs₁.replace_end hnd' hel₁ ha).congr ?_ ?_, ?_⟩
  · intro x hx
    by_cases hxa : x = a
    · simp [hxa]
    · simp [hxa, hne₁ x hx]
  · intro x hx
    refine Function.update_of_ne ?_ _ _
    rintro rfl
    rcases List.mem_append.1 hx with hx | hx
    · exact hbl₁ hx
    · exact hbe (List.mem_singleton.1 hx)
  have hpair : (Function.update (Function.update next e (some b)) a (some e)) e = some b ∧
      (Function.update (Function.update prev e (some a)) b (some e)) b = some e := by
    simp [hae.symm]
  cases l₂ with
  | nil =>
      cases hb
      exact hpair
  | cons y l₂ =>
      cases hb
      refine ⟨hpair, (append_iff.1 hs).2.congr ?_ ?_⟩
      · intro x hx
        have hxa : x ≠ a := by
          rintro rfl
          rcases List.mem_cons.1 ham with rfl | ham
          · exact hh (List.mem_append_right _ hx)
          · exact hdisj x ham x hx rfl
        rw [Function.update_of_ne hxa, Function.update_of_ne (hne₂ x (List.mem_append_left _ hx))]
      · intro x hx
        have hxb : x ≠ b := by
          rintro rfl
          rcases List.mem_append.1 hx with hx | hx
          · exact (List.nodup_cons.1 hnd₂).1 hx
          · exact hh (List.mem_singleton.1 hx ▸ by simp)
        rw [Function.update_of_ne hxb, Function.update_of_ne (hne₂ x (List.mem_cons_of_mem b hx))]

/-- Unlink a node `e` between `a` and `b` of a cycle. -/
theorem remove (hs : Segment next prev h (l₁ ++ e :: l₂) h) (hnd : (h :: (l₁ ++ e :: l₂)).Nodup)
    (ha : prev e = some a) (hb : next e = some b) :
    Segment (Function.update (Function.update next a (some b)) e none)
      (Function.update (Function.update prev b (some a)) e none) h (l₁ ++ l₂) h := by
  obtain ⟨hs₁, hs₂⟩ := append_iff.1 hs
  have hnd' : (h :: (l₁ ++ l₂)).Nodup ∧ e ∉ h :: (l₁ ++ l₂) := by
    have hperm : (h :: l₁ ++ e :: l₂).Perm (e :: (h :: l₁ ++ l₂)) := List.perm_middle
    have := hperm.nodup_iff.1 hnd
    exact ⟨(List.nodup_cons.1 this).2, (List.nodup_cons.1 this).1⟩
  obtain ⟨hnd', he⟩ := hnd'
  have ham : a ∈ h :: l₁ := Option.some.inj (ha.symm.trans hs₁.prev_end) ▸ List.getLast_mem _
  have hbm : b ∈ l₂ ++ [h] := Option.some.inj (hb.symm.trans hs₂.next_start) ▸ List.head_mem _
  have hh : h ∉ l₁ ++ l₂ := (List.nodup_cons.1 hnd').1
  have hdisj : ∀ x ∈ l₁, x ∉ l₂ := fun x h₁ h₂ =>
    (List.nodup_append.1 (List.nodup_cons.1 hnd').2).2.2 x h₁ x h₂ rfl
  have hbl₁ : b ∉ l₁ := by
    intro hbl
    obtain hm | hm := List.mem_append.1 hbm
    · exact hdisj b hbl hm
    · exact hh (List.mem_singleton.1 hm ▸ List.mem_append_left _ hbl)
  have hnd₁ : (h :: l₁).Nodup :=
    hnd'.sublist (List.Sublist.cons_cons h (List.sublist_append_left l₁ l₂))
  -- the maps before `e` itself is cleared
  have hseg : Segment (Function.update next a (some b)) (Function.update prev b (some a)) h
      (l₁ ++ l₂) h := by
    have h₁ := hs₁.replace_end hnd₁ hbl₁ ha
    cases l₂ with
    | nil =>
        obtain rfl : b = h := by simpa using hbm
        simpa using h₁
    | cons y l₂ =>
        obtain rfl : b = y := Option.some.inj (hb.symm.trans hs₂.next_start)
        refine append_iff.2 ⟨h₁, hs₂.2.congr ?_ ?_⟩
        · intro x hx
          refine Function.update_of_ne ?_ _ _
          rintro rfl
          obtain rfl | ham := List.mem_cons.1 ham
          · exact hh (List.mem_append_right _ hx)
          · exact hdisj x ham hx
        · intro x hx
          refine Function.update_of_ne ?_ _ _
          rintro rfl
          have hbnd : x ∉ l₂ :=
            (List.nodup_cons.1 (List.nodup_append.1 (List.nodup_cons.1 hnd').2).2.1).1
          simp only [List.mem_append, List.mem_singleton] at hx
          obtain hx | rfl := hx
          · exact hbnd hx
          · exact hh (by simp)
  refine hseg.congr ?_ ?_
  · intro x hx
    exact Function.update_of_ne (by rintro rfl; exact he hx) _ _
  · intro x hx
    refine Function.update_of_ne ?_ _ _
    rintro rfl
    simp only [List.mem_append, List.mem_cons] at hx he
    tauto

end Segment

/-! ## Cycles -/

/-- The nodes of `l` are linked, in this order, in a cycle through `h`; no other node is linked. -/
structure LinkedCycle (next prev : ν → Option ν) (h : ν) (l : List ν) : Prop where
  nodup : (h :: l).Nodup
  segment : Segment next prev h l h
  next_off : ∀ x ∉ h :: l, next x = none
  prev_off : ∀ x ∉ h :: l, prev x = none

namespace LinkedCycle

theorem head_notMem (hc : LinkedCycle next prev h l) : h ∉ l := (List.nodup_cons.1 hc.nodup).1

theorem mem_append_head (hx : x ∈ h :: l) : x ∈ l ++ [h] := by
  simpa [or_comm] using hx

theorem next_mem (hc : LinkedCycle next prev h l) (hx : x ∈ h :: l) :
    ∃ y ∈ h :: l, next x = some y := by
  obtain ⟨y, hy, hn⟩ := hc.segment.next_of_mem hx
  exact ⟨y, by simpa [or_comm] using hy, hn⟩

theorem prev_mem (hc : LinkedCycle next prev h l) (hx : x ∈ h :: l) :
    ∃ y ∈ h :: l, prev x = some y := by
  obtain ⟨y, hy, hp⟩ := hc.segment.prev_of_mem (mem_append_head hx)
  exact ⟨y, hy, hp⟩

/-- A node is linked if and only if it has a predecessor. -/
theorem mem_iff (hc : LinkedCycle next prev h l) : x ∈ h :: l ↔ (prev x).isSome := by
  constructor
  · intro hx
    obtain ⟨y, -, hp⟩ := hc.prev_mem hx
    simp [hp]
  · intro hx
    by_contra hn
    simp [hc.prev_off x hn] at hx

/-- The two maps are inverse to each other. -/
theorem next_iff_prev (hc : LinkedCycle next prev h l) : next x = some y ↔ prev y = some x := by
  constructor
  · intro hn
    refine hc.segment.prev_of_next ?_ hn
    by_contra hx
    cases (hc.next_off x hx).symm.trans hn
  · intro hp
    refine hc.segment.next_of_prev (mem_append_head ?_) hp
    by_contra hy
    cases (hc.prev_off y hy).symm.trans hp

/-- Apart from the head, no node is its own predecessor. -/
theorem prev_ne (hc : LinkedCycle next prev h l) (he : e ∈ l) (ha : prev e = some a) : a ≠ e := by
  rintro rfl
  obtain ⟨l₁, l₂, rfl⟩ := List.append_of_mem he
  have hp := (Segment.append_iff.1 hc.segment).1.prev_end
  have hm : a ∈ h :: l₁ := Option.some.inj (ha.symm.trans hp) ▸ List.getLast_mem _
  have hperm : (h :: l₁ ++ a :: l₂).Perm (a :: (h :: l₁ ++ l₂)) := List.perm_middle
  have hnd := hperm.nodup_iff.1 hc.nodup
  refine (List.nodup_cons.1 hnd).1 ?_
  simp only [List.cons_append, List.mem_cons, List.mem_append] at hm ⊢
  tauto

theorem nil [DecidableEq ν] (hn : ∀ x ≠ h, next x = none) (hp : ∀ x ≠ h, prev x = none)
    (hh : next h = some h ∧ prev h = some h) : LinkedCycle next prev h [] where
  nodup := by simp
  segment := hh
  next_off x hx := hn x (by simpa using hx)
  prev_off x hx := hp x (by simpa using hx)

/-! ### Circular iteration

Both iterators step over the head node, so that they only ever stop at it when the cycle has
no other node. -/

theorem next_circular_mem [DecidableEq ν] (hc : LinkedCycle next prev h l) (hx : x ∈ h :: l)
    (hl : l ≠ []) :
    ∃ y ∈ l, (if next x = some h then next h else next x) = some y := by
  split
  · obtain ⟨y, l, rfl⟩ := List.exists_cons_of_ne_nil hl
    exact ⟨y, by simp, hc.segment.next_start⟩
  · obtain ⟨y, hy, hn⟩ := hc.next_mem hx
    obtain rfl | hy := List.mem_cons.1 hy
    · contradiction
    · exact ⟨y, hy, hn⟩

theorem prev_circular_mem [DecidableEq ν] (hc : LinkedCycle next prev h l) (hx : x ∈ h :: l)
    (hl : l ≠ []) :
    ∃ y ∈ l, (if prev x = some h then prev h else prev x) = some y := by
  split
  · refine ⟨l.getLast hl, List.getLast_mem hl, ?_⟩
    rw [hc.segment.prev_end, List.getLast_cons hl]
  · obtain ⟨y, hy, hp⟩ := hc.prev_mem hx
    obtain rfl | hy := List.mem_cons.1 hy
    · contradiction
    · exact ⟨y, hy, hp⟩

/-- Behind the nodes of `l₁` come those of `l₂`, and then `l₁` again. -/
theorem next_circular_eq [DecidableEq ν] (hc : LinkedCycle next prev h (l₁ ++ l₂))
    (hy : (l₂ ++ l₁).head? = some y) :
    (if next ((h :: l₁).getLast (by simp)) = some h then next h
      else next ((h :: l₁).getLast (by simp))) = some y := by
  cases l₂ with
  | cons z l₂ =>
      cases hy
      have hn := (Segment.append_iff.1 hc.segment).1.next_end
      have hne : y ≠ h := by
        rintro rfl
        exact hc.head_notMem (by simp)
      rw [hn, if_neg (by simpa using hne)]
  | nil =>
      cases l₁ with
      | nil => cases hy
      | cons z l₁ =>
          cases hy
          have hs := hc.segment
          rw [List.append_nil] at hs
          rw [if_pos hs.next_end]
          exact hs.next_start

/-- In front of a node come those of `l₁`, or else the last node of all. -/
theorem prev_circular_eq [DecidableEq ν] (hc : LinkedCycle next prev h (l₁ ++ e :: l₂)) :
    (if prev e = some h then prev h else prev e) =
      (if l₁ = [] then e :: l₂ else l₁).getLast? := by
  have hs := Segment.append_iff.1 hc.segment
  have hp := hs.1.prev_end
  cases l₁ with
  | nil => simpa [hp, List.getLast?_eq_some_getLast] using hs.2.prev_end
  | cons z l₁ =>
      have hne : (h :: z :: l₁).getLast (by simp) ≠ h := by
        intro he
        apply hc.head_notMem
        rw [← he, List.getLast_cons_cons]
        exact List.mem_append_left _ (List.getLast_mem _)
      rw [hp, if_neg (by simpa using hne)]
      simp [List.getLast?_eq_some_getLast]

/-- The circular predecessor of a node is the node itself only if it is alone. -/
theorem eq_singleton_of_prev_circular [DecidableEq ν] (hc : LinkedCycle next prev h l) (he : e ∈ l)
    (hp : (if prev e = some h then prev h else prev e) = some e) : l = [e] := by
  obtain ⟨l₁, l₂, rfl⟩ := List.append_of_mem he
  have hnd := hc.nodup
  simp only [List.nodup_cons, List.mem_append, List.mem_cons, not_or, List.nodup_append,
    ne_eq] at hnd
  have hs := Segment.append_iff.1 hc.segment
  have hpe := hs.1.prev_end
  have hph := hs.2.prev_end
  split at hp
  · rename_i hh
    have h₁ : l₁ = [] := by
      by_contra hne
      rw [hh, List.getLast_cons hne] at hpe
      exact hnd.1.1 (Option.some.inj hpe ▸ List.getLast_mem hne)
    have h₂ : l₂ = [] := by
      by_contra hne
      rw [hp, List.getLast_cons hne] at hph
      exact hnd.2.2.1.1 (Option.some.inj hph ▸ List.getLast_mem hne)
    simp [h₁, h₂]
  · rw [hp] at hpe
    have hm : e ∈ h :: l₁ := Option.some.inj hpe ▸ List.getLast_mem (by simp)
    obtain rfl | hm := List.mem_cons.1 hm
    · exact absurd rfl hnd.1.2.1
    · exact absurd rfl (hnd.2.2.2 e hm e (.inl rfl))

/-! ### Insertion and removal -/

variable [DecidableEq ν]

/-- Link a new node between the last node and the head. -/
theorem insert (hc : LinkedCycle next prev h l) (he : e ∉ h :: l) (hz : prev h = some z) :
    LinkedCycle (Function.update (Function.update next e (some h)) z (some e))
      (Function.update (Function.update prev e (some z)) h (some e)) h (l ++ [e]) := by
  obtain ⟨heh, hel⟩ := not_or.1 (mt List.mem_cons.2 he)
  have hzm : z ∈ h :: l := by
    obtain ⟨y, hy, hp⟩ := hc.prev_mem (x := h) (by simp)
    exact Option.some.inj (hz.symm.trans hp) ▸ hy
  have hs : Segment next prev h (l ++ []) h := by simpa using hc.segment
  have hnd : (h :: (l ++ [])).Nodup := by simpa using hc.nodup
  refine ⟨?_, hs.insert hnd (by simpa using he) rfl hz, ?_, ?_⟩
  · have hperm : (h :: l ++ [e]).Perm (e :: (h :: l)) := List.perm_append_singleton e (h :: l)
    exact hperm.nodup_iff.2 (List.nodup_cons.2 ⟨he, hc.nodup⟩)
  · intro x hx
    simp only [List.mem_cons, List.mem_append, List.not_mem_nil, or_false, not_or] at hx
    have hxz : x ≠ z := by
      rintro rfl
      exact (List.mem_cons.1 hzm).elim hx.1 hx.2.1
    rw [Function.update_of_ne hxz, Function.update_of_ne hx.2.2]
    exact hc.next_off x (by simp [hx.1, hx.2.1])
  · intro x hx
    simp only [List.mem_cons, List.mem_append, List.not_mem_nil, or_false, not_or] at hx
    rw [Function.update_of_ne hx.1, Function.update_of_ne hx.2.2]
    exact hc.prev_off x (by simp [hx.1, hx.2.1])

/-- Unlink a node `e` between `a` and `b`. -/
theorem remove (hc : LinkedCycle next prev h (l₁ ++ e :: l₂)) (ha : prev e = some a)
    (hb : next e = some b) :
    LinkedCycle (Function.update (Function.update next a (some b)) e none)
      (Function.update (Function.update prev b (some a)) e none) h (l₁ ++ l₂) := by
  have hs := Segment.append_iff.1 hc.segment
  have hperm : (h :: l₁ ++ e :: l₂).Perm (e :: (h :: l₁ ++ l₂)) := List.perm_middle
  have hnd := hperm.nodup_iff.1 hc.nodup
  have ham : a ∈ h :: (l₁ ++ l₂) := by
    have ham : a ∈ h :: l₁ := Option.some.inj (ha.symm.trans hs.1.prev_end) ▸ List.getLast_mem _
    simp only [List.mem_cons, List.mem_append] at ham ⊢
    tauto
  have hbm : b ∈ h :: (l₁ ++ l₂) := by
    have hbm : b ∈ l₂ ++ [h] := Option.some.inj (hb.symm.trans hs.2.next_start) ▸ List.head_mem _
    simp only [List.mem_cons, List.mem_append, List.not_mem_nil, or_false] at hbm ⊢
    tauto
  have hoff : ∀ x ∉ h :: (l₁ ++ l₂), x ≠ e → x ∉ h :: (l₁ ++ e :: l₂) := by
    intro x hx hxe
    simp only [List.mem_cons, List.mem_append] at hx ⊢
    tauto
  refine ⟨(List.nodup_cons.1 hnd).2, hc.segment.remove hc.nodup ha hb, ?_, ?_⟩
  · intro x hx
    by_cases hxe : x = e
    · simp [hxe]
    · rw [Function.update_of_ne hxe, Function.update_of_ne (by rintro rfl; exact hx ham)]
      exact hc.next_off x (hoff x hx hxe)
  · intro x hx
    by_cases hxe : x = e
    · simp [hxe]
    · rw [Function.update_of_ne hxe, Function.update_of_ne (by rintro rfl; exact hx hbm)]
      exact hc.prev_off x (hoff x hx hxe)

end LinkedCycle
