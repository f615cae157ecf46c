import Sysprog.Library.CheckedRuns
import Sysprog.Shell.Dup2

/-!
# What dup2 by hand does to the table

The search fills the free numbers below the wanted one in order and takes the
wanted one. Closing what was pushed starts one element too high and never gets
to the first one pushed, so the lowest of these numbers stays open.
-/

namespace Sysprog.Shell.Dup2Tables

open CheckedRuns DescriptorTable Dup2

set_option autoImplicit false

variable {Item : Type} {limit : Nat} {allocator : Allocator}

/-! ## Single calls -/

theorem entry_of_nat (table : Table Item) (number : Nat) :
    entry table (number : Int) = lookup table number := by
  simp [entry]

theorem dup_opens {process : Descriptors Item} {oldfd : Int} {item : Item}
    (isOpen : entry process.table oldfd = some item) (room : lowestFree process.table < limit) :
    dup limit oldfd process = ((lowestFree process.table : Int),
      { process with table := place process.table (lowestFree process.table) item }) := by
  simp only [dup, isOpen, if_pos room, openLowest]

theorem lookup_close_fd (fd : Int) (process : Descriptors Item) (number : Nat) :
    lookup (closeFd fd process).2.table number =
      if (number : Int) = fd then none else lookup process.table number := by
  unfold closeFd
  cases present : entry process.table fd with
  | none =>
      split_ifs with same
      · rw [← same, entry_of_nat] at present
        exact present
      · rfl
  | some item =>
      have sign : 0 ≤ fd := by
        by_contra negative
        simp [entry, negative] at present
      simp only [lookup_close]
      have same : number = fd.toNat ↔ (number : Int) = fd := by omega
      simp only [same]

theorem entry_place {table : Table Item} {oldfd : Int} {item other : Item} {number : Nat}
    (isOpen : entry table oldfd = some item) (free : lookup table number = none) :
    entry (place table number other) oldfd = some item := by
  unfold entry at *
  split_ifs at * with sign
  have apart : oldfd.toNat ≠ number := by
    intro same
    rw [same, free] at isOpen
    cases isOpen
  rw [lookup_place, if_neg apart]
  exact isOpen

/-! ## The search -/

def pushAll (allocator : Allocator) (s : Stack) (items : List Int) : Except Halt Stack :=
  items.foldlM (stackPush allocator) s

theorem push_all_cons (s : Stack) (item : Int) (items : List Int) :
    pushAll allocator s (item :: items) =
      (stackPush allocator s item >>= fun s => pushAll allocator s items) := rfl

def asInts (numbers : List Nat) : List Int := numbers.map Int.ofNat

section Search

variable {oldfd : Int} {wanted : Nat} {item : Item}

def searched (process : Descriptors Item) (wanted : Nat) (item : Item) : Descriptors Item :=
  { process with
    table := place (placeAll process.table (gapsBelow process.table wanted) item) wanted item }

theorem lookup_searched {process : Descriptors Item} (number : Nat) :
    lookup (searched process wanted item).table number =
      if number = wanted ∨ number ∈ gapsBelow process.table wanted then some item
      else lookup process.table number := by
  rw [searched, lookup_place, lookup_place_all]
  by_cases own : number = wanted
  · rw [if_pos own, if_pos (.inl own)]
  · rw [if_neg own]
    simp only [own, false_or]

theorem dup_gap {process : Descriptors Item} {first : Nat} {rest : List Nat}
    (isOpen : entry process.table oldfd = some item) (below : wanted < limit)
    (gaps : gapsBelow process.table wanted = first :: rest) :
    dup limit oldfd process = (↑first, { process with table := place process.table first item }) ∧
      ¬ (first : Int) = wanted := by
  have lowest := lowest_free_of_gaps gaps
  have own : first ∈ gapsBelow process.table wanted := by
    rw [gaps]
    exact List.mem_cons_self
  have less := (mem_gaps_below.mp own).1
  rw [dup_opens isOpen (by omega), lowest]
  exact ⟨rfl, by omega⟩

theorem search_gap {process : Descriptors Item} {fuel first : Nat} {rest : List Nat} (s : Stack)
    (isOpen : entry process.table oldfd = some item) (below : wanted < limit)
    (gaps : gapsBelow process.table wanted = first :: rest) :
    searchLoop limit allocator oldfd wanted (fuel + 1) s process =
      (stackPush allocator s first >>= fun s => searchLoop limit allocator oldfd wanted fuel s
        { process with table := place process.table first item }) := by
  obtain ⟨given, other⟩ := dup_gap isOpen below gaps
  rw [searchLoop, given]
  simp only [if_neg other]

theorem search_end {process : Descriptors Item} {fuel : Nat} (s : Stack)
    (isOpen : entry process.table oldfd = some item) (below : wanted < limit)
    (free : lookup process.table wanted = none) (gaps : gapsBelow process.table wanted = []) :
    searchLoop limit allocator oldfd wanted (fuel + 1) s process =
      .ok (s, { process with table := place process.table wanted item }) := by
  have lowest := lowest_free_of_no_gaps gaps free
  rw [searchLoop, dup_opens isOpen (by omega), lowest]
  simp only [if_true]

/-- What is known of the descriptors in the search. -/
structure Searching (process : Descriptors Item) (oldfd : Int) (wanted : Nat) (item : Item) :
    Prop where
  isOpen : entry process.table oldfd = some item
  free : lookup process.table wanted = none

theorem searching_filled {process : Descriptors Item} {first : Nat} {rest : List Nat}
    (searching : Searching process oldfd wanted item)
    (gaps : gapsBelow process.table wanted = first :: rest) :
    Searching { process with table := place process.table first item } oldfd wanted item ∧
      searched { process with table := place process.table first item } wanted item =
        searched process wanted item := by
  have own : first ∈ gapsBelow process.table wanted := by
    rw [gaps]
    exact List.mem_cons_self
  obtain ⟨less, gapFree⟩ := mem_gaps_below.mp own
  refine ⟨⟨entry_place searching.isOpen gapFree, ?_⟩, ?_⟩
  · rw [lookup_place, if_neg (by omega)]
    exact searching.free
  · simp only [searched, gaps, gaps_below_filled item gaps]
    rfl

/-- The first push of the gaps, and those that are left once it is filled. -/
theorem pushes_gap {process : Descriptors Item} {first : Nat} {rest : List Nat}
    {s pushed : Stack} (item : Item) (gaps : gapsBelow process.table wanted = first :: rest)
    (pushes : pushAll allocator s (asInts (gapsBelow process.table wanted)) = .ok pushed) :
    ∃ one, stackPush allocator s (first : Int) = .ok one ∧
      pushAll allocator one (asInts (gapsBelow (place process.table first item) wanted)) =
        .ok pushed := by
  rw [gaps] at pushes
  obtain ⟨one, push, others⟩ := bind_eq_ok.mp pushes
  refine ⟨one, push, ?_⟩
  rw [gaps_below_filled item gaps]
  exact others

/-- With fuel for every gap and the wanted number, the search does what the
pushes do. -/
theorem search_done {process : Descriptors Item} {fuel : Nat} {s pushed : Stack}
    (searching : Searching process oldfd wanted item) (below : wanted < limit)
    (pushes : pushAll allocator s (asInts (gapsBelow process.table wanted)) = .ok pushed)
    (enough : (gapsBelow process.table wanted).length < fuel) :
    searchLoop limit allocator oldfd wanted fuel s process =
      .ok (pushed, searched process wanted item) := by
  induction fuel generalizing process s with
  | zero => omega
  | succ fuel ih =>
      cases gaps : gapsBelow process.table wanted with
      | nil =>
          rw [gaps] at pushes
          cases pushes
          rw [search_end pushed searching.isOpen below searching.free gaps, searched, gaps]
          rfl
      | cons first rest =>
          obtain ⟨next, same⟩ := searching_filled searching gaps
          obtain ⟨one, push, others⟩ := pushes_gap item gaps pushes
          rw [search_gap s searching.isOpen below gaps, push, ok_bind, ← same]
          apply ih next others
          rw [gaps_below_filled item gaps]
          rw [gaps] at enough
          exact Nat.lt_of_succ_lt_succ enough

theorem search_ok {process after : Descriptors Item} {fuel : Nat} {s pushed : Stack}
    (searching : Searching process oldfd wanted item) (below : wanted < limit)
    (done : searchLoop limit allocator oldfd wanted fuel s process = .ok (pushed, after)) :
    pushAll allocator s (asInts (gapsBelow process.table wanted)) = .ok pushed ∧
      after = searched process wanted item := by
  induction fuel generalizing process s with
  | zero => cases done
  | succ fuel ih =>
      cases gaps : gapsBelow process.table wanted with
      | nil =>
          rw [search_end s searching.isOpen below searching.free gaps] at done
          cases done
          refine ⟨rfl, ?_⟩
          rw [searched, gaps]
          rfl
      | cons first rest =>
          obtain ⟨next, same⟩ := searching_filled searching gaps
          rw [search_gap s searching.isOpen below gaps] at done
          obtain ⟨one, pushedOne, others⟩ := bind_eq_ok.mp done
          obtain ⟨pushes, result⟩ := ih next others
          rw [gaps_below_filled item gaps] at pushes
          refine ⟨?_, result.trans same⟩
          exact bind_eq_ok.mpr ⟨one, pushedOne, pushes⟩

end Search

/-! ## Room for the pushes -/

/-- A new stack with these pushes; the rest of its block is as `malloc` left it. -/
def holding (allocator : Allocator) (pushed : List Int) : Stack where
  data := headerInts
  size := pushed.length
  capacity := 64
  elements := pushed ++ ((List.range 64).map allocator.garbage).drop pushed.length

theorem stack_new_holds_nothing : stackNew allocator = holding allocator [] := rfl

theorem unused_of_room {count : Nat} (room : count < 64) :
    ((List.range 64).map allocator.garbage).drop count =
      allocator.garbage count :: ((List.range 64).map allocator.garbage).drop (count + 1) := by
  rw [List.drop_eq_getElem_cons (by simpa using room)]
  simp

theorem holding_elements_length {pushed : List Int} (room : pushed.length ≤ 64) :
    (holding allocator pushed).elements.length = 64 := by
  simp only [holding, List.length_append, List.length_drop, List.length_map, List.length_range]
  omega

theorem element_at_of_data {s : Stack} {index : Nat} (data : s.data = headerInts)
    (inside : index < s.elements.length) : elementAt s index = .ok index := by
  unfold elementAt
  rw [data, if_neg (by omega), Nat.add_sub_cancel_left, if_pos inside]

theorem stack_push_eq (s : Stack) (item : Int) :
    stackPush allocator s item =
      ((if s.size = s.capacity then stackGrow allocator s else .ok s) >>= fun s =>
        elementAt s s.size >>= fun place =>
          .ok { s with size := s.size + 1, elements := s.elements.set place item }) := by
  unfold stackPush
  split_ifs <;> rfl

theorem push_with_room {pushed : List Int} (item : Int) (room : pushed.length < 64) :
    stackPush allocator (holding allocator pushed) item =
      .ok (holding allocator (pushed ++ [item])) := by
  have notFull : ¬ (holding allocator pushed).size = (holding allocator pushed).capacity := by
    simp only [holding]
    omega
  have place : elementAt (holding allocator pushed) (holding allocator pushed).size =
      .ok pushed.length := by
    apply element_at_of_data rfl
    rw [holding_elements_length (by omega)]
    exact room
  rw [stack_push_eq, if_neg notFull, ok_bind, place, ok_bind]
  simp only [holding, unused_of_room room, List.set_append_right _ _ (Nat.le_refl _),
    Nat.sub_self, List.set_cons_zero, List.length_append, List.length_cons, List.length_nil,
    Nat.zero_add, List.append_assoc, List.singleton_append]

theorem push_all_with_room {pushed : List Int} (items : List Int)
    (room : pushed.length + items.length ≤ 64) :
    pushAll allocator (holding allocator pushed) items =
      .ok (holding allocator (pushed ++ items)) := by
  induction items generalizing pushed with
  | nil =>
      rw [List.append_nil]
      rfl
  | cons item items ih =>
      rw [List.length_cons] at room
      rw [push_all_cons, push_with_room item (by omega), ok_bind, ih]
      · rw [List.append_assoc, List.singleton_append]
      · simp only [List.length_append, List.length_cons, List.length_nil]
        omega

theorem push_all_new (allocator : Allocator) (items : List Int) (room : items.length ≤ 64) :
    pushAll allocator (stackNew allocator) items = .ok (holding allocator items) := by
  have fits : ([] : List Int).length + items.length ≤ 64 := by
    rw [List.length_nil, Nat.zero_add]
    exact room
  rw [stack_new_holds_nothing, push_all_with_room items fits, List.nil_append]

/-- A growth points the stack at its own header for good. -/
theorem push_after_growth {s pushed : Stack} {item : Int}
    (full : s.size = s.capacity ∨ s.data = 0) (push : stackPush allocator s item = .ok pushed) :
    pushed.data = 0 ∧ 0 < pushed.size := by
  rw [stack_push_eq] at push
  obtain ⟨grown, growth, stored⟩ := bind_eq_ok.mp push
  obtain ⟨place, _, result⟩ := bind_eq_ok.mp stored
  cases result
  refine ⟨?_, Nat.succ_pos _⟩
  change grown.data = 0
  split_ifs at growth with equal
  · unfold stackGrow at growth
    split_ifs at growth
    cases growth
    rfl
  · cases growth
    exact full.resolve_left equal

theorem push_all_after_growth {s pushed : Stack} {items : List Int}
    (grown : s.data = 0 ∧ 0 < s.size) (pushes : pushAll allocator s items = .ok pushed) :
    pushed.data = 0 ∧ 0 < pushed.size := by
  induction items generalizing s with
  | nil =>
      cases pushes
      exact grown
  | cons item items ih =>
      obtain ⟨one, push, others⟩ := bind_eq_ok.mp pushes
      exact ih (push_after_growth (.inr grown.1) push) others

theorem push_all_past_room {items : List Int} {pushed : Stack} (many : 64 < items.length)
    (pushes : pushAll allocator (stackNew allocator) items = .ok pushed) :
    pushed.data = 0 ∧ 0 < pushed.size := by
  have fits : (items.take 64).length = 64 := by
    rw [List.length_take]
    omega
  have room := push_all_new allocator (items.take 64) (Nat.le_of_eq fits)
  have split : pushAll allocator (stackNew allocator) (items.take 64 ++ items.drop 64) =
      .ok pushed := by
    rw [List.take_append_drop]
    exact pushes
  rw [pushAll, List.foldlM_append] at split
  obtain ⟨full, first, others⟩ := bind_eq_ok.mp split
  have same : full = holding allocator (items.take 64) := by
    have both := first.symm.trans room
    injection both
  cases rest : items.drop 64 with
  | nil =>
      have short := congrArg List.length rest
      rw [List.length_drop, List.length_nil] at short
      omega
  | cons item later =>
      rw [rest, same] at others
      obtain ⟨one, push, remaining⟩ := bind_eq_ok.mp others
      have atCapacity : (holding allocator (items.take 64)).size =
          (holding allocator (items.take 64)).capacity := fits
      exact push_all_after_growth (push_after_growth (.inl atCapacity) push) remaining

/-! ## Closing what was pushed -/

def closeAll (process : Descriptors Item) (fds : List Int) : Descriptors Item :=
  fds.foldl (fun process fd => (closeFd fd process).2) process

theorem lookup_close_all (process : Descriptors Item) (fds : List Int) (number : Nat) :
    lookup (closeAll process fds).table number =
      if (number : Int) ∈ fds then none else lookup process.table number := by
  induction fds generalizing process with
  | nil => rw [if_neg List.not_mem_nil, closeAll, List.foldl_nil]
  | cons fd fds ih =>
      have step : closeAll process (fd :: fds) = closeAll (closeFd fd process).2 fds := rfl
      rw [step, ih, lookup_close_fd]
      by_cases later : (number : Int) ∈ fds
      · rw [if_pos later, if_pos (List.mem_cons_of_mem _ later)]
      · rw [if_neg later]
        by_cases own : (number : Int) = fd
        · rw [if_pos own, if_pos (by rw [own]; exact List.mem_cons_self)]
        · rw [if_neg own, if_neg (by simp [own, later])]

/-- What the pops give: from the element above the last one pushed down to the
second one. -/
def popped (elements : List Int) : Nat → List Int
  | 0 => []
  | count + 1 => elements.getD (count + 1) 0 :: popped elements count

theorem popped_eq (first : Int) (others : List Int) {count : Nat} (inside : count ≤ others.length) :
    popped (first :: others) count = (others.take count).reverse := by
  induction count with
  | zero => rfl
  | succ count ih =>
      rw [popped, ih (by omega), List.getD_cons_succ, List.take_succ_eq_append_getElem inside,
        List.reverse_append, List.getD_eq_getElem?_getD, List.getElem?_eq_getElem inside]
      rfl

theorem close_loop_in_room {count : Nat} {s : Stack} {process : Descriptors Item}
    (data : s.data = headerInts) (size : s.size = count) (inside : count < s.elements.length) :
    closeLoop count s process = .ok (closeAll process (popped s.elements count)) := by
  induction count generalizing s process with
  | zero => rfl
  | succ count ih =>
      have place : elementAt s s.size = .ok (count + 1) := by
        rw [size]
        exact element_at_of_data data inside
      have less : ({ s with size := s.size - 1 } : Stack).size = count := by
        simp only [size, Nat.add_sub_cancel]
      rw [closeLoop, stackPop, place, ok_bind, ok_bind]
      have others := @ih { s with size := s.size - 1 }
        (closeFd (s.elements.getD (count + 1) 0) process).2 data less (Nat.lt_of_succ_lt inside)
      exact others

/-- A full stack is popped from behind its block. -/
theorem close_loop_full {s : Stack} {process : Descriptors Item} (data : s.data = headerInts)
    (full : s.size = s.elements.length) (some : 0 < s.size) :
    closeLoop s.size s process = .error .outOfRange := by
  have outside : elementAt s s.size = .error .outOfRange := by
    unfold elementAt
    rw [data, if_neg (by omega), Nat.add_sub_cancel_left, if_neg (by omega)]
  obtain ⟨count, more⟩ := Nat.exists_eq_succ_of_ne_zero (Nat.ne_of_gt some)
  have unfolded := more
  rw [more] at outside ⊢
  rw [closeLoop, stackPop, unfolded, outside]
  rfl

/-- A stack that was grown is popped down into its header. -/
theorem close_loop_after_growth {count : Nat} {s : Stack} {process after : Descriptors Item}
    (data : s.data = 0) (size : s.size = count + 1) : closeLoop (count + 1) s process ≠ .ok after := by
  induction count generalizing s process with
  | zero =>
      have header : elementAt s s.size = .error .insideHeader := by
        rw [elementAt, data, size]
        rfl
      intro done
      rw [closeLoop, stackPop, header] at done
      cases done
  | succ count ih =>
      intro done
      rw [closeLoop] at done
      obtain ⟨⟨fd, rest⟩, pop, others⟩ := bind_eq_ok.mp done
      obtain ⟨place, _, result⟩ := bind_eq_ok.mp pop
      cases result
      refine ih ?_ ?_ others
      · exact data
      · simp only [size, Nat.add_sub_cancel]

end Sysprog.Shell.Dup2Tables
