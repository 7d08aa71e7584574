-- SUMMARY: The intrusive circular doubly linked list of `list.h` and its iterators.
import Mathlib.Data.Fintype.Card
import Mathlib.Logic.Function.Basic

namespace MsTos

/-- `struct list_element`: `none` is `NULL`. -/
structure ListElement (ν : Type) where
  prev : Option ν
  next : Option ν
  deriving DecidableEq

/-- The memory that holds the list elements, by the address `ν` of an element. -/
abbrev Links (ν : Type) := ν → ListElement ν

section
variable {ν : Type} [DecidableEq ν]

/-- `list_element_init`. -/
def listElementInit (links : Links ν) (element : ν) : Links ν :=
  Function.update links element ⟨none, none⟩

/-- `list_element_in_list`. -/
def listElementInList (links : Links ν) (element : ν) : Bool :=
  (links element).prev.isSome

/-- The assignment `p->next = v`; a write through `NULL` reaches no element. -/
def setNext (links : Links ν) (p v : Option ν) : Links ν :=
  match p with
  | none => links
  | some p => Function.update links p { links p with next := v }

/-- The assignment `p->prev = v`; a write through `NULL` reaches no element. -/
def setPrev (links : Links ν) (p v : Option ν) : Links ν :=
  match p with
  | none => links
  | some p => Function.update links p { links p with prev := v }

/-- `list_element_insert_after`. -/
def listElementInsertAfter (links : Links ν) (after element : ν) : Int × Links ν :=
  if !listElementInList links after then (-1, links)
  else if listElementInList links element then (-1, links)
  else
    let links := setNext links (some element) (links after).next
    let links := setPrev links (some element) (some after)
    let links := setPrev links (links after).next (some element)
    let links := setNext links (some after) (some element)
    (0, links)

/-- `list_element_insert_before`. -/
def listElementInsertBefore (links : Links ν) (before element : ν) : Int × Links ν :=
  if !listElementInList links before then (-1, links)
  else if listElementInList links element then (-1, links)
  else
    let links := setNext links (some element) (some before)
    let links := setPrev links (some element) (links before).prev
    let links := setNext links (links before).prev (some element)
    let links := setPrev links (some before) (some element)
    (0, links)

/-- `list_element_remove`. -/
def listElementRemove (links : Links ν) (element : ν) : Int × Links ν :=
  if !listElementInList links element then (-1, links)
  else
    let links := setNext links (links element).prev (links element).next
    let links := setPrev links (links element).next (links element).prev
    let links := setNext links (some element) none
    let links := setPrev links (some element) none
    (0, links)

/-- `list_init`: the pseudo head points at itself. -/
def listInit (links : Links ν) (head : ν) : Links ν :=
  Function.update links head ⟨some head, some head⟩

/-- `list_is_empty`. -/
def listIsEmpty (links : Links ν) (head : ν) : Bool :=
  (links head).prev = some head

/-- `list_prepend`. -/
def listPrepend (links : Links ν) (head element : ν) : Int × Links ν :=
  listElementInsertAfter links head element

/-- `list_append`. -/
def listAppend (links : Links ν) (head element : ν) : Int × Links ν :=
  listElementInsertBefore links head element

/-- `list_remove`, which does not look at the list it is given. -/
def listRemove (links : Links ν) (element : ν) : Int × Links ν :=
  listElementRemove links element

/-- `list_iterator_next`: the result and the new `it->current`, or `none` where the function reads
through a `NULL` cursor. -/
def listIteratorNext (links : Links ν) (head : ν) (current : Option ν) : Option (Int × Option ν) :=
  match current with
  | none => none
  | some c =>
      if (links c).next = some head then some (-1, some c)
      else some (0, (links c).next)

/-- `list_iterator_previous`, likewise. -/
def listIteratorPrevious (links : Links ν) (head : ν) (current : Option ν) :
    Option (Int × Option ν) :=
  match current with
  | none => none
  | some c =>
      if (links c).prev = some head then some (-1, some c)
      else some (0, (links c).prev)

/-- `list_iterator_next_circular`: the new `it->current`, or `none` where the function reads
through a `NULL` cursor. -/
def listIteratorNextCircular (links : Links ν) (head : ν) (current : Option ν) :
    Option (Option ν) :=
  match current with
  | none => none
  | some c =>
      if (links c).next = some head then some (links head).next
      else some (links c).next

/-- `list_iterator_previous_circular`: the new `it->current`, or `none` where the function reads
through a `NULL` cursor. -/
def listIteratorPreviousCircular (links : Links ν) (head : ν) (current : Option ν) :
    Option (Option ν) :=
  match current with
  | none => none
  | some c =>
      if (links c).prev = some head then some (links head).prev
      else some (links c).prev

/-- The loop of `list_contains`, for `n` rounds: `none` where it reads through `NULL`, or goes on. -/
def listContainsLoop (links : Links ν) (head element : ν) : Nat → Option ν → Option Bool
  | 0, _ => none
  | n + 1, current =>
      match listIteratorNext links head current with
      | none => none
      | some (status, current) =>
          if status ≠ 0 then some false
          else if current = some element then some true
          else listContainsLoop links head element n current

/-- `list_contains`. A loop that has made more rounds than there are nodes never ends. -/
def listContains [Fintype ν] (links : Links ν) (head element : ν) : Option Bool :=
  listContainsLoop links head element (Fintype.card ν) (some head)

end

end MsTos
