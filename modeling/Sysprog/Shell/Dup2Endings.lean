import Sysprog.Shell.Dup2Search

/-!
# How dup2 by hand ends

Everything before the search returns. The search looks for `newfd` in what
`dup` gives, which is always below the limit or -1, so it has no end when
`newfd` is not below the limit; and the stack takes the duplicates of fewer
than 64 numbers and gives them back.
-/

namespace Sysprog.Shell.Dup2Endings

open CheckedRuns DescriptorTable Dup2 Dup2Tables Dup2Behaviour Dup2Search

set_option autoImplicit false

variable {Item : Type} {limit : Nat} {allocator : Allocator}

/-- What `dup` gives in the search of a call, if the call gets to it. -/
def searchedDups (limit : Nat) (allocator : Allocator) (fuel : Nat) (oldfd newfd : Int)
    (process : Descriptors Item) : List Int :=
  match beforeSearch limit oldfd newfd process with
  | .error _ => []
  | .ok process => searchDups limit allocator oldfd newfd fuel (stackNew allocator) process

/-- The call returns `newfd`, or -1 and leaves the table as it was, and its
search calls `dup` no more once it has failed. -/
structure Ends (limit : Nat) (allocator : Allocator) (oldfd newfd : Int)
    (process : Descriptors Item) : Prop where
  returns : ∃ fuel value after, dup2Impl limit allocator fuel oldfd newfd process =
    .ok (value, after) ∧ (value = newfd ∨ (value = -1 ∧ after.table = process.table))
  stops : ∀ fuel, ∀ fd ∈ (searchedDups limit allocator fuel oldfd newfd process).dropLast, 0 ≤ fd

section Calls

variable {process : Descriptors Item} {oldfd newfd : Int}

theorem ends_before_search {value : Int} {after : Descriptors Item}
    (returned : beforeSearch limit oldfd newfd process = .error (value, after))
    (fine : value = newfd ∨ (value = -1 ∧ after.table = process.table)) :
    Ends limit allocator oldfd newfd process := by
  constructor
  · refine ⟨0, value, after, ?_, fine⟩
    rw [dup2_impl_eq, returned]
  · intro fuel fd member
    rw [searchedDups, returned] at member
    cases member

theorem ends_for_same (signs : ¬ (newfd < 0 ∨ oldfd < 0)) (same : oldfd = newfd) :
    Ends limit allocator oldfd newfd process := by
  have returned : beforeSearch limit oldfd newfd process = .error (newfd, process) := by
    rw [beforeSearch, if_neg signs, if_pos same]
  exact ends_before_search returned (.inl rfl)

theorem dup_fails (none : entry process.table oldfd = none ∨ limit ≤ lowestFree process.table) :
    ∃ errno, dup limit oldfd process = (-1, { process with errno := errno }) := by
  unfold dup
  cases present : entry process.table oldfd with
  | none => exact ⟨ebadf, rfl⟩
  | some item =>
      have full := none.resolve_left (by rw [present]; exact Option.some_ne_none item)
      exact ⟨emfile, if_neg (Nat.not_lt.mpr full)⟩

theorem ends_when_dup_fails
    (none : entry process.table oldfd = none ∨ limit ≤ lowestFree process.table) :
    Ends limit allocator oldfd newfd process := by
  by_cases signs : newfd < 0 ∨ oldfd < 0
  · exact ends_before_search (if_pos signs) (.inr ⟨rfl, rfl⟩)
  by_cases same : oldfd = newfd
  · exact ends_for_same signs same
  obtain ⟨errno, failed⟩ := dup_fails none
  have returned : beforeSearch limit oldfd newfd process =
      .error (-1, { process with errno := ebadf }) := by
    rw [beforeSearch, if_neg signs, if_neg same, failed]
    rfl
  exact ends_before_search returned (.inr ⟨rfl, rfl⟩)

theorem search_never_ends {fuel wanted : Nat} {s : Stack} {item : Item}
    (isOpen : entry process.table oldfd = some item) (outside : limit ≤ wanted)
    (result : Stack × Descriptors Item) :
    searchLoop limit allocator oldfd wanted fuel s process ≠ .ok result := by
  induction fuel generalizing s process with
  | zero => exact fun done => nomatch done
  | succ fuel ih =>
      intro done
      rw [searchLoop] at done
      by_cases room : lowestFree process.table < limit
      · have other : ¬ (lowestFree process.table : Int) = wanted := by omega
        rw [dup_opens isOpen room] at done
        simp only [if_neg other] at done
        obtain ⟨pushed, _, remaining⟩ := bind_eq_ok.mp done
        exact ih (entry_place isOpen (lookup_lowest_free _)) remaining
      · obtain ⟨errno, failed⟩ := @dup_fails _ limit process oldfd (.inr (Nat.not_lt.mp room))
        have other : ¬ (-1 : Int) = wanted := by omega
        rw [failed] at done
        simp only [if_neg other] at done
        obtain ⟨pushed, _, remaining⟩ := bind_eq_ok.mp done
        exact @ih { process with errno } _ isOpen remaining

theorem never_returns_past_limit {wanted : Nat} {item : Item}
    (isOpen : entry process.table oldfd = some item) (apart : oldfd ≠ wanted)
    (room : lowestFree process.table < limit) (outside : limit ≤ wanted) (fuel : Nat)
    (result : Int × Descriptors Item) :
    dup2Impl limit allocator fuel oldfd wanted process ≠ .ok result := by
  obtain ⟨freed, searching, _, reduces⟩ := dup2_searches allocator isOpen apart room
  intro returns
  rw [reduces] at returns
  obtain ⟨found, searched, _⟩ := bind_eq_ok.mp returns
  exact search_never_ends searching.isOpen outside found searched

theorem closing_ends {pushed : List Int} (process : Descriptors Item) (fits : pushed.length < 64) :
    ∃ closed, closeLoop (holding allocator pushed).size (holding allocator pushed) process =
      .ok closed := by
  have inside : pushed.length < (holding allocator pushed).elements.length := by
    rw [holding_elements_length (Nat.le_of_lt fits)]
    exact fits
  exact ⟨_, close_loop_in_room rfl rfl inside⟩

/-- With fewer than 64 gaps below a `newfd` the limit admits, the search and
the closing come to their ends. -/
theorem ends_in_room {wanted : Nat} {item : Item}
    (isOpen : entry process.table oldfd = some item) (apart : oldfd ≠ wanted)
    (room : lowestFree process.table < limit) (below : wanted < limit)
    (few : (gapsBelow process.table wanted).length < 64) :
    Ends limit allocator oldfd wanted process := by
  obtain ⟨freed, before, searching, freedTable⟩ := before_search_ok isOpen apart room
  have gaps := gaps_below_freed freedTable
  have count := as_ints_length (gapsBelow freed.table wanted)
  have fits : (asInts (gapsBelow freed.table wanted)).length < 64 := by
    rw [count, gaps]
    exact few
  have pushes := push_all_new allocator _ (Nat.le_of_lt fits)
  constructor
  · have found := search_done searching below pushes (Nat.lt_succ_self _)
    obtain ⟨closed, closes⟩ := @closing_ends _ allocator _ (searched freed wanted item) fits
    refine ⟨(gapsBelow freed.table wanted).length + 1, wanted, closed, ?_, .inl rfl⟩
    rw [dup2_impl_eq, before]
    simp only [found, ok_bind, closes]
  · intro fuel fd member
    rw [searchedDups, before] at member
    simp only [search_dups_eq fuel searching below pushes] at member
    have given := List.mem_of_mem_take ((List.dropLast_sublist _).mem member)
    rcases List.mem_append.mp given with gap | last
    · obtain ⟨number, _, same⟩ := List.mem_map.mp gap
      rw [← same]
      exact Int.natCast_nonneg number
    · rw [List.mem_singleton.mp last]
      exact Int.natCast_nonneg wanted

end Calls

/-- The call ends as it should exactly if it returns before the search, or
looks for a number below the limit with fewer than 64 gaps below it. -/
theorem dup2_ends_iff (limit : Nat) (allocator : Allocator) (oldfd newfd : Int)
    (process : Descriptors Item) :
    Ends limit allocator oldfd newfd process ↔
      newfd < 0 ∨ oldfd < 0 ∨ oldfd = newfd ∨ entry process.table oldfd = none ∨
        limit ≤ lowestFree process.table ∨
        (newfd < limit ∧ (gapsBelow process.table newfd.toNat).length < 64) := by
  by_cases signs : newfd < 0 ∨ oldfd < 0
  · apply iff_of_true (ends_before_search (if_pos signs) (.inr ⟨rfl, rfl⟩))
    exact signs.imp_right .inl
  by_cases same : oldfd = newfd
  · exact iff_of_true (ends_for_same signs same) (.inr (.inr (.inl same)))
  by_cases none : entry process.table oldfd = none ∨ limit ≤ lowestFree process.table
  · apply iff_of_true (ends_when_dup_fails none)
    exact .inr (.inr (.inr (none.imp_right .inl)))
  rw [not_or] at signs none
  obtain ⟨item, isOpen⟩ := Option.ne_none_iff_exists'.mp none.1
  obtain ⟨wanted, natural⟩ := Int.eq_ofNat_of_zero_le (Int.not_lt.mp signs.1)
  subst natural
  have room := Nat.not_le.mp none.2
  simp only [signs.1, signs.2, same, none.1, none.2, false_or, Int.toNat_natCast, Int.ofNat_lt]
  constructor
  · intro ends
    obtain ⟨fuel, value, after, returned, _⟩ := ends.returns
    by_contra neither
    by_cases below : wanted < limit
    · have many : 64 ≤ (gapsBelow process.table wanted).length := by
        by_contra few
        exact neither ⟨below, Nat.not_le.mp few⟩
      exact never_returns_past_room isOpen same below room many fuel _ returned
    · exact never_returns_past_limit isOpen same room (Nat.not_lt.mp below) fuel _ returned
  · intro condition
    exact ends_in_room isOpen same room condition.1 condition.2

/-- With a limit of 3, the search for 5 goes on with `dup` failing for ever. -/
theorem search_past_limit :
    entry onlyStdin.table 0 ≠ none ∧
      searchedDups 3 zeroed 5 0 5 onlyStdin = [1, 2, -1, -1, -1] ∧
      (∀ fuel result, dup2Impl 3 zeroed fuel 0 5 onlyStdin ≠ .ok result) ∧
      ¬ Ends 3 zeroed 0 5 onlyStdin := by
  have never : ∀ fuel result, dup2Impl 3 zeroed fuel 0 5 onlyStdin ≠ .ok result :=
    fun fuel result => @never_returns_past_limit _ 3 zeroed onlyStdin 0 5 7 rfl (by decide)
      (by decide) (by decide) fuel result
  refine ⟨by decide, by decide, never, ?_⟩
  intro ends
  obtain ⟨fuel, value, after, returned, _⟩ := ends.returns
  exact never fuel _ returned

end Sysprog.Shell.Dup2Endings
