import Sysprog.Shell.Dup2Behaviour

/-!
# The stack of dup2 by hand

What the stack holds after any number of pushes, and how many pushes get
through at all. The first 64 are stored behind the header. The growth of the
65th makes the header the first element, and the block it asks for has room
for five more after that.
-/

namespace Sysprog.Shell.Dup2Stack

open CheckedRuns Dup2 Dup2Tables
open Dup2Behaviour (zeroed)

set_option autoImplicit false

variable {allocator : Allocator}

/-- The pushes return and the stack holds what was pushed, in order, in a data
area behind the header with room for `capacity` ints in the block. -/
def KeepsPushed (allocator : Allocator) (items : List Int) : Prop :=
  ∃ s, pushAll allocator (stackNew allocator) items = .ok s ∧
    s.size = items.length ∧ s.size ≤ s.capacity ∧
    headerInts ≤ s.data ∧ s.data + s.capacity ≤ headerInts + s.elements.length ∧
    ∀ index item, items[index]? = some item →
      ∃ place, elementAt s index = .ok place ∧ s.elements[place]? = some item

theorem keeps_with_room {items : List Int} (room : items.length ≤ 64) :
    KeepsPushed allocator items := by
  have length := @holding_elements_length allocator items room
  refine ⟨holding allocator items, push_all_new allocator items room, rfl, room, Nat.le_refl _,
    ?_, ?_⟩
  · rw [length]
    exact Nat.le_refl _
  · intro index item present
    obtain ⟨inside, _⟩ := List.getElem?_eq_some_iff.mp present
    refine ⟨index, element_at_of_data rfl (by omega), ?_⟩
    rw [holding, List.getElem?_append_left inside]
    exact present

/-- The stack keeps what is pushed exactly as long as it does not grow. -/
theorem keeps_pushed_iff (allocator : Allocator) (items : List Int) :
    KeepsPushed allocator items ↔ items.length ≤ 64 := by
  constructor
  · intro keeps
    obtain ⟨s, pushes, _, _, behindHeader, _⟩ := keeps
    by_contra many
    have grown := push_all_past_room (by omega) pushes
    rw [grown.1] at behindHeader
    cases behindHeader
  · exact keeps_with_room

/-- The 65th push makes the header the first elements. -/
theorem lost_past_room : ¬ KeepsPushed zeroed (List.replicate 65 1) := by
  intro keeps
  have few := (keeps_pushed_iff zeroed _).mp keeps
  rw [List.length_replicate] at few
  omega

/-! ## How many pushes get through -/

/-- The stack between its first growth and the second. -/
structure Grown (s : Stack) (count : Nat) : Prop where
  data : s.data = 0
  size : s.size = count
  capacity : s.capacity = 128
  elements : s.elements.length = 64

theorem growth_of_full (allocator : Allocator) {items : List Int} (full : items.length = 64)
    (stays : allocator.moves 64 = false) :
    ∃ s, stackGrow allocator (holding allocator items) = .ok s ∧ Grown s 64 := by
  have moves : ¬ allocator.moves (holding allocator items).capacity = true := by
    rw [show (holding allocator items).capacity = 64 from rfl, stays]
    decide
  refine ⟨_, if_neg moves, rfl, full, rfl, ?_⟩
  rw [List.length_map, List.length_range]
  rfl

theorem push_when_full {s grown : Stack} (item : Int) (full : s.size = s.capacity)
    (growth : stackGrow allocator s = .ok grown) (apart : grown.size ≠ grown.capacity) :
    stackPush allocator s item = stackPush allocator grown item := by
  rw [stack_push_eq, stack_push_eq, if_pos full, if_neg apart, growth, ok_bind]

theorem push_grown {s : Stack} {count : Nat} (item : Int) (grown : Grown s count)
    (behindHeader : headerInts ≤ count) (inside : count < 70) :
    ∃ pushed, stackPush allocator s item = .ok pushed ∧ Grown pushed (count + 1) := by
  have notFull : ¬ s.size = s.capacity := by
    rw [grown.size, grown.capacity]
    omega
  have place : elementAt s s.size = .ok (count - headerInts) := by
    unfold headerInts at *
    unfold elementAt headerInts
    rw [grown.data, grown.size, grown.elements, Nat.zero_add, if_neg (by omega),
      if_pos (by omega)]
  let pushed : Stack := { s with
    size := s.size + 1
    elements := s.elements.set (count - headerInts) item }
  refine ⟨pushed, ?_, grown.data, ?_, grown.capacity, ?_⟩
  · rw [stack_push_eq, if_neg notFull, ok_bind, place, ok_bind]
  · exact congrArg (· + 1) grown.size
  · rw [← grown.elements]
    exact List.length_set

theorem push_grown_outside {s : Stack} (item : Int) (grown : Grown s 70) :
    stackPush allocator s item = .error .outOfRange := by
  have notFull : ¬ s.size = s.capacity := by
    rw [grown.size, grown.capacity]
    decide
  have outside : elementAt s s.size = .error .outOfRange := by
    unfold elementAt headerInts
    rw [grown.data, grown.size, grown.elements]
    rfl
  rw [stack_push_eq, if_neg notFull, ok_bind, outside]
  rfl

theorem push_all_grown {s : Stack} {count : Nat} (items : List Int) (grown : Grown s count)
    (behindHeader : headerInts ≤ count) (inside : count ≤ 70) :
    (∃ pushed, pushAll allocator s items = .ok pushed) ↔ count + items.length ≤ 70 := by
  induction items generalizing s count with
  | nil => exact ⟨fun _ => inside, fun _ => ⟨s, rfl⟩⟩
  | cons item items ih =>
      rw [push_all_cons, List.length_cons]
      by_cases last : count = 70
      · subst last
        rw [push_grown_outside item grown]
        apply iff_of_false
        · intro pushes
          obtain ⟨pushed, done⟩ := pushes
          cases done
        · omega
      · obtain ⟨one, push, next⟩ := @push_grown allocator _ _ item grown behindHeader (by omega)
        rw [push, ok_bind, ih next (by omega) (by omega)]
        omega

/-- The pushes get through as long as the block has room for them, and past
the 64th only if `realloc` leaves it where it is. -/
theorem push_all_ok_iff (allocator : Allocator) (items : List Int) :
    (∃ s, pushAll allocator (stackNew allocator) items = .ok s) ↔
      items.length ≤ 64 ∨ (items.length ≤ 70 ∧ allocator.moves 64 = false) := by
  by_cases room : items.length ≤ 64
  · exact iff_of_true ⟨_, push_all_new allocator items room⟩ (.inl room)
  have fits : (items.take 64).length = 64 := by
    rw [List.length_take]
    omega
  have whole : pushAll allocator (stackNew allocator) items =
      pushAll allocator (holding allocator (items.take 64)) (items.drop 64) := by
    conv_lhs => rw [← List.take_append_drop 64 items]
    rw [pushAll, List.foldlM_append]
    change (pushAll allocator (stackNew allocator) (items.take 64) >>= _) = _
    rw [push_all_new allocator _ (Nat.le_of_eq fits), ok_bind]
    rfl
  have left : (items.drop 64).length = items.length - 64 := List.length_drop
  rw [whole]
  cases rest : items.drop 64 with
  | nil =>
      rw [rest, List.length_nil] at left
      omega
  | cons item later =>
      rw [rest, List.length_cons] at left
      have full : (holding allocator (items.take 64)).size =
          (holding allocator (items.take 64)).capacity := fits
      cases moves : allocator.moves 64 with
      | true =>
          have moved : stackGrow allocator (holding allocator (items.take 64)) =
              .error .movedBlock := if_pos moves
          rw [push_all_cons, stack_push_eq, if_pos full, moved]
          apply iff_of_false
          · intro pushes
            obtain ⟨pushed, done⟩ := pushes
            cases done
          · simp [room]
      | false =>
          obtain ⟨s, growth, grown⟩ := growth_of_full allocator fits moves
          have apart : s.size ≠ s.capacity := by
            rw [grown.size, grown.capacity]
            decide
          rw [push_all_cons, push_when_full item full growth apart, ← push_all_cons,
            push_all_grown _ grown (by decide) (by decide), List.length_cons]
          simp only [room, false_or, and_true]
          omega

end Sysprog.Shell.Dup2Stack
