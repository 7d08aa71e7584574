-- SUMMARY: The memory pools of `pool.h`, for any type and size: objects are handed out and taken back as from a stack.
import Mathlib.Data.List.FinRange
import MsTos.Slists

namespace MsTos

variable {ν : Type} [DecidableEq ν] {n : Nat}

/-! ## Code -/

/-- The addresses of `struct pool_name`. An item, its `element` and its `data` are at one address, as
they are members of a union. -/
structure PoolLayout (ν : Type) (n : Nat) where
  freeList : ν
  items : Fin n → ν
  items_injective : Function.Injective items
  items_ne : ∀ i, items i ≠ freeList

namespace PoolLayout

variable (L : PoolLayout ν n) (links : SLinks ν)

/-- `pool_name_init`. -/
def init : SLinks ν :=
  (List.finRange n).foldl (fun links i => (links.prepend L.freeList (L.items i)).2)
    (links.elementInit L.freeList)

/-- `pool_name_alloc`: the object, or `NULL`. -/
def alloc : Option ν × SLinks ν := links.removeHead L.freeList

/-- `pool_name_free`. -/
def free (obj : Option ν) : SLinks ν :=
  match obj with
  | none => links
  | some obj => (links.prepend L.freeList obj).2

end PoolLayout

/-! ## Programs -/

/-- The calls of `pool.h`, and an assignment to memory. -/
inductive PoolCall (ν : Type) where
  | alloc
  | free (obj : Option ν)
  | store (obj : ν) (value : Option ν)
  deriving DecidableEq

/-- The memory, and the objects that the program has got from the pool. -/
structure PoolMem (ν : Type) where
  links : SLinks ν
  held : ν → Bool

/-- What the program does. It only frees and writes to the objects that it holds, and to memory
outside of the pool. -/
def PoolLayout.step (L : PoolLayout ν n) (m : PoolMem ν) :
    PoolCall ν → Option (Option ν × PoolMem ν)
  | .alloc =>
      let r := L.alloc m.links
      some (r.1, ⟨r.2, fun x => if r.1 = some x then true else m.held x⟩)
  | .free none => some (none, { m with links := L.free m.links none })
  | .free (some obj) =>
      if m.held obj then some (none, ⟨L.free m.links (some obj), Function.update m.held obj false⟩)
      else none
  | .store obj value =>
      if m.held obj ∨ (obj ≠ L.freeList ∧ ∀ i, obj ≠ L.items i) then
        some (none, { m with links := Function.update m.links obj value })
      else none

/-- A program with a pool, on memory that held anything before `pool_name_init`. -/
def PoolLayout.system (L : PoolLayout ν n) (links : SLinks ν) :
    TransitionSystem (PoolMem ν) (PoolCall ν) (PoolCall ν × Option ν) where
  init m := m = ⟨L.init links, fun _ => false⟩
  step m c := (L.step m c).map fun r => ((c, r.1), r.2)

/-- A stack of objects that are free. -/
def stackSystem (objs : List ν) :
    TransitionSystem (List ν) (PoolCall ν) (PoolCall ν × Option ν) where
  init l := l = objs
  step l c :=
    match c with
    | .alloc => some ((c, l.head?), l.tail)
    | .free (some obj) => if l.contains obj then none else some ((c, none), obj :: l)
    | .free none | .store _ _ => some ((c, none), l)

/-! ## The free list -/

namespace SLinks

variable {links : SLinks ν} {h e x : ν} {l : List ν} {v : Option ν}

theorem prepend_path (hp : LinkPath links h l none) (hnd : (h :: l).Nodup) (he : e ∉ h :: l) :
    LinkPath (links.prepend h e).2 h (e :: l) none := by
  have hpath := hp.insert hnd List.mem_cons_self he
  rw [List.idxOf_cons_self] at hpath
  exact hpath

theorem removeHead_path (hp : LinkPath links h l none) (hnd : (h :: l).Nodup) :
    (links.removeHead h).1 = l.head? ∧ LinkPath (links.removeHead h).2 h l.tail none := by
  have hn := hp.next_start
  unfold removeHead isEmpty elementRemoveAfter
  rw [hn]
  cases l with
  | nil => exact ⟨rfl, hp⟩
  | cons x l =>
      have := hp.remove hnd List.mem_cons_self hn
      rw [List.erase_cons_head] at this
      exact ⟨rfl, this⟩

end SLinks

namespace PoolLayout

variable {L : PoolLayout ν n} {links : SLinks ν} {m m' : PoolMem ν} {l : List ν} {c : PoolCall ν}
  {r : Option ν}

/-- After `pool_name_init` all items are free, the last one first. -/
theorem init_path (L : PoolLayout ν n) (links : SLinks ν) :
    LinkPath (L.init links) L.freeList ((List.finRange n).map L.items).reverse none := by
  have hfold : ∀ (is : List (Fin n)) (links : SLinks ν) (l : List ν),
      LinkPath links L.freeList l none → (L.freeList :: ((is.map L.items).reverse ++ l)).Nodup →
      LinkPath (is.foldl (fun links i => (SLinks.prepend links L.freeList (L.items i)).2) links) L.freeList
        ((is.map L.items).reverse ++ l) none := by
    intro is
    induction is with
    | nil => exact fun _ _ hp _ => hp
    | cons i is ih =>
        intro links l hp hnd
        simp only [List.map_cons, List.reverse_cons, List.append_assoc, List.singleton_append]
          at hnd ⊢
        have hnd' : (L.freeList :: L.items i :: l).Nodup :=
          hnd.sublist ((List.sublist_append_right _ _).cons_cons _)
        refine ih _ _ (SLinks.prepend_path hp ?_ ?_) hnd
        · exact hnd'.sublist ((List.sublist_cons_self _ _).cons_cons _)
        · have hperm : (L.freeList :: L.items i :: l).Perm (L.items i :: L.freeList :: l) :=
            List.Perm.swap ..
          exact (List.nodup_cons.1 (hperm.nodup_iff.1 hnd')).1
  have := hfold (List.finRange n) (links.elementInit L.freeList) [] (Function.update_self ..) ?_
  · rw [List.append_nil] at this
    exact this
  · rw [List.append_nil, List.nodup_cons, List.mem_reverse, List.nodup_reverse]
    refine ⟨?_, (List.nodup_finRange n).map L.items_injective⟩
    simp [L.items_ne]

/-- The free list holds the items that the program does not. -/
structure Stacked (L : PoolLayout ν n) (m : PoolMem ν) (l : List ν) : Prop where
  path : LinkPath m.links L.freeList l none
  nodup : l.Nodup
  mem_iff : ∀ x, x ∈ l ↔ (∃ i, x = L.items i) ∧ m.held x = false
  held : ∀ x, m.held x = true → ∃ i, x = L.items i

namespace Stacked

omit [DecidableEq ν] in
theorem nodup_cons (hs : L.Stacked m l) : (L.freeList :: l).Nodup := by
  refine List.nodup_cons.2 ⟨fun hm => ?_, hs.nodup⟩
  obtain ⟨⟨i, hi⟩, -⟩ := (hs.mem_iff _).1 hm
  exact L.items_ne i hi.symm

omit [DecidableEq ν] in
/-- What a program may write to is not linked. -/
theorem notMem (hs : L.Stacked m l) {x : ν}
    (hx : m.held x = true ∨ (x ≠ L.freeList ∧ ∀ i, x ≠ L.items i)) : x ∉ L.freeList :: l := by
  intro hm
  rcases List.mem_cons.1 hm with rfl | hm
  · rcases hx with hx | hx
    · obtain ⟨i, hi⟩ := hs.held _ hx
      exact L.items_ne i hi.symm
    · exact hx.1 rfl
  · obtain ⟨⟨i, hi⟩, hf⟩ := (hs.mem_iff x).1 hm
    rcases hx with hx | hx
    · rw [hx] at hf
      cases hf
    · exact hx.2 i hi

/-- A call of a program does to the free list what it does to a stack. -/
theorem step (hs : L.Stacked m l) (objs : List ν) (hst : L.step m c = some (r, m')) :
    ∃ l', (stackSystem objs).step l c = some ((c, r), l') ∧ L.Stacked m' l' := by
  cases c with
  | alloc =>
      obtain ⟨hr, hp⟩ := SLinks.removeHead_path hs.path hs.nodup_cons
      cases hst
      refine ⟨l.tail, by rw [alloc, hr]; rfl, ?_⟩
      unfold alloc
      rw [hr]
      cases l with
      | nil => exact ⟨hp, hs.nodup, hs.mem_iff, hs.held⟩
      | cons y l =>
          have hnd := List.nodup_cons.1 hs.nodup
          refine ⟨hp, hnd.2, fun x => ?_, fun x hx => ?_⟩
          · have hx := hs.mem_iff x
            by_cases hxy : y = x
            · subst hxy
              simp [hnd.1]
            · simpa [hxy, Ne.symm hxy] using hx
          · by_cases hxy : y = x
            · subst hxy
              exact ((hs.mem_iff y).1 List.mem_cons_self).1
            · exact hs.held x (by simpa [hxy] using hx)
  | free obj =>
      cases obj with
      | none =>
          cases hst
          exact ⟨l, rfl, hs⟩
      | some obj =>
          obtain ⟨hheld, hst⟩ := Option.ite_none_right_eq_some.1 hst
          cases hst
          have hm := hs.notMem (.inl hheld)
          have hml : obj ∉ l := fun h => hm (List.mem_cons_of_mem _ h)
          refine ⟨obj :: l, ?_, SLinks.prepend_path hs.path hs.nodup_cons hm,
            List.nodup_cons.2 ⟨hml, hs.nodup⟩, fun x => ?_, fun x hx => ?_⟩
          · exact if_neg (by simpa using hml)
          · have hx := hs.mem_iff x
            by_cases hxo : x = obj
            · subst hxo
              simpa using hs.held x hheld
            · simpa [hxo] using hx
          · by_cases hxo : x = obj
            · subst hxo
              simp at hx
            · exact hs.held x (by simpa [hxo] using hx)
  | store obj value =>
      obtain ⟨hheld, hst⟩ := Option.ite_none_right_eq_some.1 hst
      cases hst
      have hm := hs.notMem hheld
      refine ⟨l, rfl, hs.path.congr fun x hx => Function.update_of_ne ?_ _ _, hs.nodup, hs.mem_iff,
        hs.held⟩
      rintro rfl
      exact hm hx

end Stacked

/-! ## Runs -/

variable {h : List (PoolCall ν × Option ν)}

theorem run_stacked (hr : (L.system links).Run (fun _ _ => True) h m) :
    ∃ l, (stackSystem ((List.finRange n).map L.items).reverse).Run (fun _ _ => True) h l ∧
      L.Stacked m l := by
  refine hr.simulate (R := fun m l => L.Stacked m l) ?_ ?_
  · rintro m rfl
    refine ⟨_, rfl, L.init_path links, ?_, fun x => ?_, nofun⟩
    · rw [List.nodup_reverse]
      exact (List.nodup_finRange n).map L.items_injective
    · simp [eq_comm]
  · intro m l c e m' hs hst
    obtain ⟨⟨r, m'⟩, hstep, he⟩ := Option.map_eq_some_iff.1 hst
    cases he
    exact hs.step _ hstep

/-- However a program allocates, frees and writes to the objects that it has got, the pool hands out
the objects of a stack: first the items from the last one down, and then what was freed last. -/
theorem alloc_refines_stack (hr : (L.system links).Run (fun _ _ => True) h m) :
    ∃ l, (stackSystem ((List.finRange n).map L.items).reverse).Run (fun _ _ => True) h l ∧
      l.Nodup ∧ ∀ x, x ∈ l ↔ (∃ i, x = L.items i) ∧ m.held x = false := by
  obtain ⟨l, hl, hs⟩ := run_stacked hr
  exact ⟨l, hl, hs.nodup, hs.mem_iff⟩

/-- A pool of three objects behind its free list. -/
def three : PoolLayout (Fin 4) 3 where
  freeList := 0
  items := Fin.succ
  items_injective := Fin.succ_injective 3
  items_ne := Fin.succ_ne_zero

theorem alloc_refines_stack_three : ∃ h l,
    (stackSystem ((List.finRange 3).map three.items).reverse).Run (fun _ _ => True) h l ∧
      h.take 2 = [(.alloc, some 3), (.free (some 3), none)] := by
  rcases TransitionSystem.exists_run_of_exec (M := three.system fun _ => none) (G := fun _ _ => True)
    rfl [.alloc, .alloc, .store 3 (some 2), .free (some 3), .alloc]
    (P := fun h _ => h.take 2 = [(.alloc, some 3), (.free (some 3), none)])
    (by decide +kernel) with ⟨h, m, hr, hh⟩
  obtain ⟨l, hl, -⟩ := alloc_refines_stack hr
  exact ⟨h, l, hl, hh⟩

/-- The pool never hands out an object that the program holds, and only fails if it holds all. -/
theorem alloc_not_held (hr : (L.system links).Run (fun _ _ => True) h m) :
    (∀ x, (L.alloc m.links).1 = some x → (∃ i, x = L.items i) ∧ m.held x = false) ∧
      ((L.alloc m.links).1 = none ↔ ∀ i, m.held (L.items i) = true) := by
  obtain ⟨l, -, hs⟩ := run_stacked hr
  have hr := (SLinks.removeHead_path hs.path hs.nodup_cons).1
  unfold alloc
  rw [hr]
  refine ⟨fun x hx => (hs.mem_iff x).1 (List.mem_of_mem_head? hx), ?_⟩
  rw [List.head?_eq_none_iff]
  constructor
  · rintro rfl i
    by_contra hh
    exact List.not_mem_nil ((hs.mem_iff _).2 ⟨⟨i, rfl⟩, by simpa using hh⟩)
  · intro hall
    refine List.eq_nil_iff_forall_not_mem.2 fun x hx => ?_
    obtain ⟨⟨i, rfl⟩, hf⟩ := (hs.mem_iff x).1 hx
    rw [hall i] at hf
    cases hf

/-- The objects are used up. -/
theorem alloc_not_held_three : ∃ m : PoolMem (Fin 4),
    (∀ i, m.held (three.items i) = true) ∧ (three.alloc m.links).1 = none := by
  rcases TransitionSystem.exists_run_of_exec (M := three.system fun _ => none) (G := fun _ _ => True)
    rfl [.alloc, .alloc, .store 3 (some 2), .alloc]
    (P := fun _ m => ∀ i, m.held (three.items i) = true) (by decide +kernel) with ⟨h, m, hr, hall⟩
  exact ⟨m, hall, (alloc_not_held hr).2.2 hall⟩

end PoolLayout

end MsTos
