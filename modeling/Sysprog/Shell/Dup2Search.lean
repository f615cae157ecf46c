import Sysprog.Shell.Dup2Stack

/-!
# The search of dup2 by hand

`dup` gives the free numbers below the wanted one in increasing order and then
the wanted one, so the search needs one `dup` more than there are gaps. What
ends it early is the stack the gaps are pushed on.
-/

namespace Sysprog.Shell.Dup2Search

open CheckedRuns DescriptorTable Dup2 Dup2Tables Dup2Stack
open Dup2Behaviour (zeroed oneGap)

set_option autoImplicit false

variable {Item : Type} {limit : Nat} {allocator : Allocator}

/-- What the calls of `dup` in the search give, as far as it gets. -/
def searchDups (limit : Nat) (allocator : Allocator) (oldfd newfd : Int) :
    Nat → Stack → Descriptors Item → List Int
  | 0, _, _ => []
  | fuel + 1, s, process =>
      let (fd, process) := dup limit oldfd process
      if fd = newfd then [fd]
      else fd :: match stackPush allocator s fd with
        | .error _ => []
        | .ok s => searchDups limit allocator oldfd newfd fuel s process

section Gaps

variable {oldfd : Int} {wanted : Nat} {item : Item}

/-- Every round but the last is the next gap. -/
theorem search_dups_eq {process : Descriptors Item} {s pushed : Stack} (fuel : Nat)
    (searching : Searching process oldfd wanted item) (below : wanted < limit)
    (pushes : pushAll allocator s (asInts (gapsBelow process.table wanted)) = .ok pushed) :
    searchDups limit allocator oldfd wanted fuel s process =
      (asInts (gapsBelow process.table wanted) ++ [(wanted : Int)]).take fuel := by
  induction fuel generalizing process s with
  | zero => rfl
  | succ fuel ih =>
      cases gaps : gapsBelow process.table wanted with
      | nil =>
          have lowest := lowest_free_of_no_gaps gaps searching.free
          rw [searchDups, dup_opens searching.isOpen (by omega), lowest]
          simp [asInts]
      | cons first rest =>
          obtain ⟨given, other⟩ := dup_gap searching.isOpen below gaps
          obtain ⟨next, _⟩ := searching_filled searching gaps
          obtain ⟨one, push, others⟩ := pushes_gap item gaps pushes
          have remaining := ih next others
          rw [searchDups, given]
          simp only [if_neg other, push, remaining, gaps_below_filled item gaps]
          rfl

theorem search_out_of_fuel {process : Descriptors Item} {s pushed : Stack} {fuel : Nat}
    (searching : Searching process oldfd wanted item) (below : wanted < limit)
    (pushes : pushAll allocator s (asInts (gapsBelow process.table wanted)) = .ok pushed)
    (short : fuel ≤ (gapsBelow process.table wanted).length) :
    searchLoop limit allocator oldfd wanted fuel s process = .error .outOfFuel := by
  induction fuel generalizing process s with
  | zero => rfl
  | succ fuel ih =>
      cases gaps : gapsBelow process.table wanted with
      | nil =>
          rw [gaps] at short
          cases short
      | cons first rest =>
          obtain ⟨next, _⟩ := searching_filled searching gaps
          obtain ⟨one, push, others⟩ := pushes_gap item gaps pushes
          rw [search_gap s searching.isOpen below gaps, push, ok_bind]
          apply ih next others
          rw [gaps_below_filled item gaps]
          rw [gaps] at short
          exact Nat.le_of_succ_le_succ short

end Gaps

/-! ## What the search is for -/

/-- The search ends with its `dup` number `g + 1`, where `g` numbers below
`newfd` are free. It has pushed these in increasing order, they and `newfd`
refer to what `oldfd` does, and nothing else has changed. -/
structure FillsGaps (limit : Nat) (allocator : Allocator) (oldfd newfd : Int)
    (process : Descriptors Item) (pushed : Stack) (after : Descriptors Item) : Prop where
  ends : ∀ fuel, searchLoop limit allocator oldfd newfd fuel (stackNew allocator) process =
    if (gapsBelow process.table newfd.toNat).length + 1 ≤ fuel then .ok (pushed, after)
    else .error .outOfFuel
  dups : ∀ fuel, (gapsBelow process.table newfd.toNat).length + 1 ≤ fuel →
    searchDups limit allocator oldfd newfd fuel (stackNew allocator) process =
      asInts (gapsBelow process.table newfd.toNat) ++ [newfd]
  pushes : pushAll allocator (stackNew allocator)
    (asInts (gapsBelow process.table newfd.toNat)) = .ok pushed
  table : ∀ number, lookup after.table number =
    if number = newfd.toNat ∨ number ∈ gapsBelow process.table newfd.toNat then
      entry process.table oldfd
    else lookup process.table number

/-- The search does this exactly when its pushes get through. -/
theorem search_fills_gaps_iff (allocator : Allocator) (oldfd newfd : Int)
    (process : Descriptors Item) (isOpen : entry process.table oldfd ≠ none) (sign : 0 ≤ newfd)
    (below : newfd < limit) (free : entry process.table newfd = none) :
    (∃ pushed after, FillsGaps limit allocator oldfd newfd process pushed after) ↔
      (gapsBelow process.table newfd.toNat).length ≤ 64 ∨
        ((gapsBelow process.table newfd.toNat).length ≤ 70 ∧ allocator.moves 64 = false) := by
  obtain ⟨item, present⟩ := Option.ne_none_iff_exists'.mp isOpen
  obtain ⟨wanted, same⟩ := Int.eq_ofNat_of_zero_le sign
  subst same
  rw [Int.toNat_natCast]
  have inside : wanted < limit := by omega
  rw [entry_of_nat] at free
  have searching : Searching process oldfd wanted item := ⟨present, free⟩
  have count : (asInts (gapsBelow process.table wanted)).length =
      (gapsBelow process.table wanted).length := List.length_map _
  rw [← count, ← push_all_ok_iff]
  constructor
  · intro fills
    obtain ⟨pushed, after, fills⟩ := fills
    exact ⟨pushed, fills.pushes⟩
  · intro gotThrough
    obtain ⟨pushed, pushes⟩ := gotThrough
    refine ⟨pushed, searched process wanted item, ?_, ?_, pushes, ?_⟩
    · intro fuel
      rw [Int.toNat_natCast]
      split_ifs with enough
      · exact search_done searching inside pushes enough
      · exact search_out_of_fuel searching inside pushes (by omega)
    · intro fuel enough
      rw [Int.toNat_natCast] at enough ⊢
      rw [search_dups_eq fuel searching inside pushes]
      apply List.take_of_length_le
      rw [List.length_append, count]
      exact enough
    · intro number
      rw [Int.toNat_natCast, present]
      exact lookup_searched number

theorem one_gap_filled :
    (∃ pushed after, FillsGaps 8 zeroed 0 3 oneGap pushed after) ↔
      (gapsBelow oneGap.table (3 : Int).toNat).length ≤ 64 ∨
        ((gapsBelow oneGap.table (3 : Int).toNat).length ≤ 70 ∧ zeroed.moves 64 = false) :=
  search_fills_gaps_iff zeroed 0 3 oneGap (by decide) (by decide) (by decide) (by decide)

def onlyStdin : Descriptors Nat where
  table := [some 7]
  errno := 0

/-- With 71 numbers free below 72, the search stores its last gap behind the
block. -/
theorem search_leaves_block :
    entry onlyStdin.table 0 ≠ none ∧ entry onlyStdin.table 72 = none ∧
      (∀ fuel pushed after,
        searchLoop 100 zeroed 0 72 fuel (stackNew zeroed) onlyStdin ≠ .ok (pushed, after)) ∧
      ¬ ∃ pushed after, FillsGaps 100 zeroed 0 72 onlyStdin pushed after := by
  have gaps : (gapsBelow onlyStdin.table 72).length = 71 := by decide
  have refused : ¬ ∃ pushed after, FillsGaps 100 zeroed 0 72 onlyStdin pushed after := by
    rw [search_fills_gaps_iff zeroed 0 72 onlyStdin (by decide) (by decide) (by decide) (by decide)]
    rw [show (72 : Int).toNat = 72 from rfl, gaps]
    decide
  refine ⟨by decide, by decide, ?_, refused⟩
  intro fuel pushed after done
  have searching : Searching onlyStdin 0 72 7 := ⟨rfl, rfl⟩
  obtain ⟨pushes, _⟩ := search_ok searching (by decide) done
  have fits := (push_all_ok_iff zeroed _).mp ⟨pushed, pushes⟩
  rw [asInts, List.length_map, gaps] at fits
  revert fits
  decide

end Sysprog.Shell.Dup2Search
