-- SUMMARY: Families of lists that are linked in one direction only, each from its head.
import MsTos.Lib.ListFamily

/-!
# Singly linked families

`LinkPath next a l b` says that the `next` links lead from `a` over the nodes of `l` to `b`, where `none`
is the end. A family of lists is chained if such a path leads from every head over its elements.
-/

variable {ν : Type*} {next next' : ν → Option ν} {a e h x : ν} {b : Option ν} {l l₁ l₂ : List ν}

/-! ## Paths -/

def LinkPath (next : ν → Option ν) : ν → List ν → Option ν → Prop
  | a, [], b => next a = b
  | a, x :: l, b => next a = some x ∧ LinkPath next x l b

namespace LinkPath

theorem append_iff :
    LinkPath next a (l₁ ++ x :: l₂) b ↔ LinkPath next a l₁ (some x) ∧ LinkPath next x l₂ b := by
  induction l₁ generalizing a with
  | nil => rfl
  | cons y l₁ ih => simp only [List.cons_append, LinkPath, ih, and_assoc]

/-- A path only depends on the links of its nodes. -/
theorem congr (hp : LinkPath next a l b) (hn : ∀ x ∈ a :: l, next' x = next x) :
    LinkPath next' a l b := by
  induction l generalizing a with
  | nil => exact (hn a List.mem_cons_self).trans hp
  | cons x l ih =>
      refine ⟨(hn a List.mem_cons_self).trans hp.1, ih hp.2 fun y hy => ?_⟩
      exact hn y (List.mem_cons_of_mem a hy)

theorem next_start (hp : LinkPath next a l none) : next a = l.head? := by
  cases l with
  | nil => exact hp
  | cons x l => exact hp.1

theorem next_follower [DecidableEq ν] (hp : LinkPath next h l none) (hnd : (h :: l).Nodup)
    (hx : x ∈ h :: l) : next x = follower (h :: l) x := by
  obtain ⟨l₁, l₂, hl⟩ := List.append_of_mem hx
  have hx₁ : x ∉ l₁ := fun hm =>
    (List.nodup_append.1 (hl ▸ hnd)).2.2 x hm x List.mem_cons_self rfl
  rw [hl, follower_append hx₁]
  cases l₁ with
  | nil =>
      cases hl
      exact hp.next_start
  | cons y l₁ =>
      cases hl
      exact (append_iff.1 hp).2.next_start

variable [DecidableEq ν]

/-- Insert a new node behind `a`. -/
theorem insert (hp : LinkPath next h l none) (hnd : (h :: l).Nodup) (ha : a ∈ h :: l)
    (he : e ∉ h :: l) :
    LinkPath (Function.update (Function.update next e (next a)) a (some e)) h
      (l.take ((h :: l).idxOf a) ++ e :: l.drop ((h :: l).idxOf a)) none := by
  have hne : ∀ x ∈ h :: l, x ≠ e := by
    rintro x hx rfl
    exact he hx
  induction l generalizing h with
  | nil =>
      obtain rfl := List.mem_singleton.1 ha
      have hae := hne a ha
      rw [List.idxOf_cons_self]
      refine ⟨Function.update_self .., ?_⟩
      refine (Function.update_of_ne hae.symm _ _).trans ((Function.update_self ..).trans ?_)
      exact hp
  | cons x l ih =>
      by_cases hah : a = h
      · subst hah
        have hae := hne a ha
        rw [List.idxOf_cons_self]
        refine ⟨Function.update_self .., ?_, hp.2.congr fun y hy => ?_⟩
        · refine (Function.update_of_ne hae.symm _ _).trans ((Function.update_self ..).trans ?_)
          exact hp.1
        · have hya : y ≠ a := by
            rintro rfl
            exact (List.nodup_cons.1 hnd).1 hy
          rw [Function.update_of_ne hya, Function.update_of_ne (hne y (List.mem_cons_of_mem a hy))]
      · have ham := (List.mem_cons.1 ha).resolve_left hah
        rw [List.idxOf_cons_ne _ (Ne.symm hah)]
        refine ⟨?_, ih hp.2 (List.nodup_cons.1 hnd).2 ham
          (fun hm => he (List.mem_cons_of_mem h hm)) fun y hy => hne y (List.mem_cons_of_mem h hy)⟩
        rw [Function.update_of_ne (Ne.symm hah), Function.update_of_ne (hne h List.mem_cons_self)]
        exact hp.1

/-- Take out the node behind `a`. -/
theorem remove (hp : LinkPath next h l none) (hnd : (h :: l).Nodup) (ha : a ∈ h :: l)
    (hx : next a = some x) : LinkPath (Function.update next a (next x)) h (l.erase x) none := by
  induction l generalizing h with
  | nil =>
      obtain rfl := List.mem_singleton.1 ha
      cases hx.symm.trans hp
  | cons y l ih =>
      obtain ⟨hn, hp'⟩ := hp
      obtain ⟨hh, hnd'⟩ := List.nodup_cons.1 hnd
      by_cases hah : a = h
      · subst hah
        obtain rfl : x = y := Option.some.inj (hx.symm.trans hn)
        rw [List.erase_cons_head]
        cases l with
        | nil => exact (Function.update_self ..).trans hp'
        | cons z l =>
            refine ⟨(Function.update_self ..).trans hp'.1, hp'.2.congr fun w hw => ?_⟩
            refine Function.update_of_ne ?_ _ _
            rintro rfl
            exact hh (List.mem_cons_of_mem x hw)
      · have ham := (List.mem_cons.1 ha).resolve_left hah
        have hxl : x ∈ l := follower_mem (h := y) ((hp'.next_follower hnd' ham).symm.trans hx)
        have hyx : y ≠ x := by
          rintro rfl
          exact (List.nodup_cons.1 hnd').1 hxl
        rw [List.erase_cons_tail (by simpa using hyx)]
        exact ⟨(Function.update_of_ne (Ne.symm hah) _ _).trans hn, ih hp' hnd' ham⟩

end LinkPath

/-! ## Families -/

namespace ListFamily

variable {f : ListFamily ν} [DecidableEq ν]

omit [DecidableEq ν] in
/-- Every list is chained from its head. The links of the nodes in no list may be anything. -/
def Chained (f : ListFamily ν) (next : ν → Option ν) : Prop :=
  ∀ h, f.IsHead h → LinkPath next h (f.elems h) none

namespace Chained

theorem next_eq (hf : f.Chained next) (hx : f.place x = .on h) :
    next x = follower (h :: f.elems h) x :=
  (hf h (isHead_of_on hx)).next_follower (f.nodup h (isHead_of_on hx)) (mem_of_on hx)

/-- The links of one list change. -/
theorem setList {hnd : (h :: l).Nodup} {hl : ∀ x ∈ h :: l, f.place x = .on h ∨ f.Off x}
    (hf : f.Chained next) (hp : LinkPath next' h l none)
    (hkept : ∀ x ∉ h :: l, f.place x ≠ .on h → next' x = next x) :
    (f.setList h l hnd hl).Chained next' := by
  intro h' hh
  rcases eq_or_ne h' h with rfl | hne
  · rwa [setList_elems, Function.update_self]
  · have hh' : f.IsHead h' := (setList_on_ne hne).1 hh
    rw [setList_elems, Function.update_of_ne hne]
    refine (hf h' hh').congr fun x hx => ?_
    have hx := on_of_mem hh' hx
    have hon : f.place x ≠ .on h := by
      rw [hx]
      simpa using hne
    exact hkept x (fun hm => (hl x hm).elim hon fun ho => ho h' hx) hon

/-- The link of a node that is in no list may change. -/
theorem of_off (hf : f.Chained next) (hx : f.Off x) (v : Option ν) :
    f.Chained (Function.update next x v) := by
  intro h hh
  refine (hf h hh).congr fun y hy => Function.update_of_ne ?_ _ _
  rintro rfl
  exact hx h (on_of_mem hh hy)

theorem clear (hf : f.Chained next) (hx : f.Off x) :
    (f.clear x hx).Chained (Function.update next x none) := by
  intro h hh
  have hne : h ≠ x := by
    rintro rfl
    have hh : Function.update f.place h .free h = .on h := hh
    rw [Function.update_self] at hh
    cases hh
  refine hf.of_off hx none h ?_
  exact (Function.update_of_ne hne _ _).symm.trans hh

theorem start (hf : f.Chained next) (hh : f.Off h ∨ f.IsHead h) :
    (f.start h hh).Chained (Function.update next h none) := by
  refine hf.setList (Function.update_self ..) fun x hx _ => ?_
  exact Function.update_of_ne (by simpa using hx) _ _

/-- Chain `e` behind `a`. -/
theorem linkAfter (hf : f.Chained next) (ha : f.place a = .on h) (he : f.Off e) :
    (f.linkAt h ((h :: f.elems h).idxOf a) e (isHead_of_on ha) he).Chained
      (Function.update (Function.update next e (next a)) a (some e)) := by
  have hh := isHead_of_on ha
  refine hf.setList ((hf h hh).insert (f.nodup h hh) (mem_of_on ha) fun hm => ?_) ?_
  · exact he h (on_of_mem hh hm)
  · intro x hx hon
    have hxe : x ≠ e := by
      rintro rfl
      exact hx (by simp)
    have hxa : x ≠ a := by
      rintro rfl
      exact hon ha
    rw [Function.update_of_ne hxa, Function.update_of_ne hxe]

/-- Take out the node behind `a`. -/
theorem unlinkAfter (hf : f.Chained next) (ha : f.place a = .on h) (hx : next a = some x) :
    (f.unlinkFrom h x (isHead_of_on ha)).Chained (Function.update next a (next x)) := by
  have hh := isHead_of_on ha
  refine hf.setList ((hf h hh).remove (f.nodup h hh) (mem_of_on ha) hx) ?_
  intro y _ hon
  refine Function.update_of_ne ?_ _ _
  rintro rfl
  exact hon ha

end Chained

end ListFamily
