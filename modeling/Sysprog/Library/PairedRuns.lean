import Sysprog.Library.CheckedRuns
import Sysprog.Library.Heap

/-!
# Runs in pairs

Two versions of one component are compared on the same calls. Their
computations end alike when both fault in the same way or both give related
values, and a relation of the states that every call keeps makes every run of
the one a run of the other with the same results.
-/

namespace Sysprog.PairedRuns

open CheckedRuns

set_option autoImplicit false

/-! ## Computations -/

section Computations

variable {Fault First Second Third Fourth : Type}

inductive Alike (related : First → Second → Prop) :
    Except Fault First → Except Fault Second → Prop where
  | fault (fault : Fault) : Alike related (.error fault) (.error fault)
  | value {first : First} {second : Second} (values : related first second) :
      Alike related (.ok first) (.ok second)

variable {related : First → Second → Prop} {first : Except Fault First}
  {second : Except Fault Second}

theorem alike_bind {after : Third → Fourth → Prop} {next : First → Except Fault Third}
    {twinNext : Second → Except Fault Fourth} (parts : Alike related first second)
    (rest : ∀ value twin, related value twin → Alike after (next value) (twinNext twin)) :
    Alike after (first >>= next) (second >>= twinNext) := by
  cases parts with
  | fault fault => exact .fault fault
  | value values => exact rest _ _ values

theorem alike_map {after : Third → Fourth → Prop} {change : First → Third}
    {twinChange : Second → Fourth} (parts : Alike related first second)
    (changed : ∀ value twin, related value twin → after (change value) (twinChange twin)) :
    Alike after (change <$> first) (twinChange <$> second) := by
  cases parts with
  | fault fault => exact .fault fault
  | value values => exact .value (changed _ _ values)

theorem alike_mono {wider : First → Second → Prop} (parts : Alike related first second)
    (wide : ∀ value twin, related value twin → wider value twin) : Alike wider first second := by
  cases parts with
  | fault fault => exact .fault fault
  | value values => exact .value (wide _ _ values)

theorem alike_refl (only : Except Fault First) : Alike (fun value twin => twin = value) only only := by
  cases only with
  | error fault => exact .fault fault
  | ok value => exact .value rfl

theorem eq_of_alike {only twin : Except Fault First}
    (alike : Alike (fun value other => other = value) only twin) : twin = only := by
  cases alike with
  | fault fault => rfl
  | value values => rw [values]

/-- What the first computation returns, the second returns too. -/
theorem alike_ok {value : First} (parts : Alike related first second) (done : first = .ok value) :
    ∃ twin, second = .ok twin ∧ related value twin := by
  cases parts with
  | fault fault => cases done
  | @value _ twin values =>
      cases done
      exact ⟨twin, rfl, values⟩

end Computations

/-! ## Heaps -/

section Heaps

variable {Value : Type*} {related changed : Nat → Value → Value → Prop} {heap twin : Heap Value}

/-- Two heaps with the same cells in use and related values in them. -/
structure HeapsAlike (related : Nat → Value → Value → Prop) (heap twin : Heap Value) : Prop where
  next : twin.next = heap.next
  cells : ∀ address, Option.Rel (related address) (heap.read address) (twin.read address)

theorem option_rel_mono {narrow wide : Value → Value → Prop} {value other : Option Value}
    (held : Option.Rel narrow value other)
    (wider : ∀ value other, narrow value other → wide value other) : Option.Rel wide value other := by
  cases held with
  | some values => exact .some (wider _ _ values)
  | none => exact .none

theorem heaps_alike_read {address : Nat} {value : Value} (alike : HeapsAlike related heap twin)
    (present : heap.read address = some value) :
    ∃ other, twin.read address = some other ∧ related address value other := by
  have cell := alike.cells address
  rw [present] at cell
  cases found : twin.read address with
  | none =>
      rw [found] at cell
      cases cell
  | some other =>
      rw [found] at cell
      cases cell with
      | some values => exact ⟨other, rfl, values⟩

theorem heaps_alike_absent {address : Nat} (alike : HeapsAlike related heap twin)
    (absent : heap.read address = none) : twin.read address = none := by
  have cell := alike.cells address
  rw [absent] at cell
  cases found : twin.read address with
  | none => rfl
  | some other =>
      rw [found] at cell
      cases cell

theorem heaps_alike_mono (alike : HeapsAlike related heap twin)
    (wider : ∀ address value other, related address value other → changed address value other) :
    HeapsAlike changed heap twin := by
  refine ⟨alike.next, ?_⟩
  intro address
  exact option_rel_mono (alike.cells address) (wider address)

/-- The new values are related, and the other cells stay related. -/
theorem heaps_alike_write {address : Nat} {value other : Value}
    (alike : HeapsAlike related heap twin) (values : changed address value other)
    (elsewhere : ∀ place, place ≠ address → ∀ old twinOld, related place old twinOld →
      changed place old twinOld) :
    HeapsAlike changed (heap.write address value) (twin.write address other) := by
  refine ⟨by rw [Heap.next_write, Heap.next_write, alike.next], ?_⟩
  intro place
  by_cases here : place = address
  · subst here
    by_cases inside : place < heap.next
    · rw [Heap.read_write_self _ inside, Heap.read_write_self _ (by rw [alike.next]; exact inside)]
      exact .some values
    · rw [Heap.read_of_next_le (by rw [Heap.next_write]; omega),
        Heap.read_of_next_le (by rw [Heap.next_write, alike.next]; omega)]
      exact .none
  · rw [Heap.read_write_of_ne _ here, Heap.read_write_of_ne _ here]
    exact option_rel_mono (alike.cells place) (elsewhere place here)

theorem heaps_alike_alloc {value other : Value} (alike : HeapsAlike related heap twin)
    (values : changed heap.next value other)
    (elsewhere : ∀ place, place ≠ heap.next → ∀ old twinOld, related place old twinOld →
      changed place old twinOld) :
    HeapsAlike changed (heap.alloc value) (twin.alloc other) := by
  refine ⟨by rw [Heap.next_alloc, Heap.next_alloc, alike.next], ?_⟩
  intro place
  by_cases new : place = heap.next
  · rw [new, Heap.read_alloc_next, ← alike.next, Heap.read_alloc_next, alike.next]
    exact .some values
  · rw [Heap.read_alloc_of_ne _ new, Heap.read_alloc_of_ne _ (by rw [alike.next]; exact new)]
    exact option_rel_mono (alike.cells place) (elsewhere place new)

theorem heaps_alike_release {address : Nat} (alike : HeapsAlike related heap twin)
    (elsewhere : ∀ place, place ≠ address → ∀ old twinOld, related place old twinOld →
      changed place old twinOld) :
    HeapsAlike changed (heap.release address) (twin.release address) := by
  refine ⟨by rw [Heap.next_release, Heap.next_release, alike.next], ?_⟩
  intro place
  by_cases here : place = address
  · rw [here, Heap.read_release_self, Heap.read_release_self]
    exact .none
  · rw [Heap.read_release_of_ne here, Heap.read_release_of_ne here]
    exact option_rel_mono (alike.cells place) (elsewhere place here)

/-! The same with one relation before and after. -/

theorem heaps_alike_write_same {address : Nat} {value other : Value}
    (alike : HeapsAlike related heap twin) (values : related address value other) :
    HeapsAlike related (heap.write address value) (twin.write address other) := by
  apply heaps_alike_write alike values
  intro place _ old twinOld held
  exact held

theorem heaps_alike_alloc_same {value other : Value} (alike : HeapsAlike related heap twin)
    (values : related heap.next value other) :
    HeapsAlike related (heap.alloc value) (twin.alloc other) := by
  apply heaps_alike_alloc alike values
  intro place _ old twinOld held
  exact held

theorem heaps_alike_release_same (alike : HeapsAlike related heap twin) (address : Nat) :
    HeapsAlike related (heap.release address) (twin.release address) := by
  apply heaps_alike_release alike
  intro place _ old twinOld held
  exact held

end Heaps

/-! ## Runs -/

section Runs

variable {State Call Result Fault : Type*}
  {perform twinPerform : State → Call → Except Fault (Result × State)}
  {allowed : List (Event Call Result) → State → Call → Prop} {initial : State}

/-- The simulation rule: a relation that holds at the start and that every
permitted call keeps with one result gives every run its twin. -/
theorem paired_run (related : List (Event Call Result) → State → State → Prop)
    (initially : related [] initial initial)
    (kept : ∀ history state twin call result next, related history state twin →
      allowed history state call → perform state call = .ok (result, next) →
      allowed history twin call ∧ ∃ twinNext, twinPerform twin call = .ok (result, twinNext) ∧
        related (history ++ [⟨call, result⟩]) next twinNext)
    {history : List (Event Call Result)} {state : State}
    (run : Run perform allowed initial history state) :
    ∃ twin, Run twinPerform allowed initial history twin ∧ related history state twin := by
  induction run with
  | start => exact ⟨initial, .start, initially⟩
  | call prior permitted performed ih =>
      obtain ⟨twin, twinRun, held⟩ := ih
      obtain ⟨twinPermitted, twinNext, twinPerformed, after⟩ :=
        kept _ _ _ _ _ _ held permitted performed
      exact ⟨twinNext, .call twinRun twinPermitted twinPerformed, after⟩

end Runs

end Sysprog.PairedRuns
