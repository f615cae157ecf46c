import Mathlib.Data.List.Basic

/-!
# Queues kept in an array

A first-in first-out queue seen from outside, and the part of an array
between two cursors that holds one.
-/

namespace Sysprog.ArrayQueue

set_option autoImplicit false

variable {Item : Type*}

/-- What a step does to the content of a queue. -/
inductive Access (Item : Type*) where
  | insert (item : Item)
  | remove (item : Item)
  | none

/-- Items go in at the end and come out at the front. -/
def Follows (content : List Item) : Access Item → List Item → Prop
  | .insert item, next => next = content ++ [item]
  | .remove item, next => content = item :: next
  | .none, next => next = content

inductive Accesses : List (Access Item) → List Item → Prop where
  | start : Accesses [] []
  | step {accesses : List (Access Item)} {content next : List Item} {access : Access Item}
      (prior : Accesses accesses content) (follows : Follows content access next) :
      Accesses (accesses ++ [access]) next

def Access.inserted? : Access Item → Option Item
  | .insert item => some item
  | _ => Option.none

def Access.removed? : Access Item → Option Item
  | .remove item => some item
  | _ => Option.none

def inserted (accesses : List (Access Item)) : List Item := accesses.filterMap Access.inserted?

def removed (accesses : List (Access Item)) : List Item := accesses.filterMap Access.removed?

@[simp] theorem inserted_snoc (accesses : List (Access Item)) (access : Access Item) :
    inserted (accesses ++ [access]) = inserted accesses ++ access.inserted?.toList := by
  cases access <;> simp [inserted, Access.inserted?]

@[simp] theorem removed_snoc (accesses : List (Access Item)) (access : Access Item) :
    removed (accesses ++ [access]) = removed accesses ++ access.removed?.toList := by
  cases access <;> simp [removed, Access.removed?]

/-- Nothing is lost, repeated or reordered: what went in is what came out
followed by what is still there. -/
theorem inserted_eq_removed_append {accesses : List (Access Item)} {content : List Item}
    (made : Accesses accesses content) : inserted accesses = removed accesses ++ content := by
  induction made with
  | start => rfl
  | @step accesses content next access prior follows ih =>
      rw [inserted_snoc, removed_snoc, ih]
      cases access with
      | insert item =>
          have grown : next = content ++ [item] := follows
          simp [grown, Access.inserted?, Access.removed?]
      | remove item =>
          have shrunk : content = item :: next := follows
          simp [shrunk, Access.inserted?, Access.removed?]
      | none =>
          have same : next = content := follows
          simp [same, Access.inserted?, Access.removed?]

/-- The cells from `head` up to, but not including, `tail`. -/
def segment (cells : List Item) (head tail : Nat) : List Item := (cells.drop head).take (tail - head)

theorem segment_self (cells : List Item) (place : Nat) : segment cells place place = [] := by
  simp [segment]

/-- Storing at the tail and moving it adds one cell at the end. -/
theorem segment_store (cells : List Item) {head tail : Nat} (item : Item) (ordered : head ≤ tail)
    (inside : tail < cells.length) :
    segment (cells.set tail item) head (tail + 1) = segment cells head tail ++ [item] := by
  have same : ((cells.set tail item).drop head).take (tail - head) =
      (cells.drop head).take (tail - head) := by
    rw [List.take_drop, List.take_drop]
    congr 1
    rw [List.take_set_of_le (by omega)]
  have more : tail + 1 - head = tail - head + 1 := by omega
  have bound : tail - head < ((cells.set tail item).drop head).length := by
    simp
    omega
  rw [segment, more, ← List.take_append_getElem bound, same, segment]
  congr 1
  simp [Nat.add_sub_cancel' ordered]

/-- Moving the head takes the first cell off. -/
theorem segment_take (cells : List Item) {head tail : Nat} (nonempty : head < tail)
    (present : head < cells.length) :
    segment cells head tail = cells[head] :: segment cells (head + 1) tail := by
  have less : tail - head = tail - (head + 1) + 1 := by omega
  rw [segment, less, List.drop_eq_getElem_cons present, List.take_succ_cons, segment]

end Sysprog.ArrayQueue
