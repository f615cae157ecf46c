import Sysprog.Shell.Dup2Tables

/-!
# When dup2 by hand is dup2

`dup2` changes what one number refers to. The version by hand does the same if
it has nothing to undo, or if the int it pops in place of the lowest number
happens to be that number.
-/

namespace Sysprog.Shell.Dup2Behaviour

open CheckedRuns DescriptorTable Dup2 Dup2Tables

set_option autoImplicit false

variable {Item : Type} {limit : Nat} {allocator : Allocator}

/-- What `dup2` does: it returns `newfd` and only this number changes. -/
def BehavesLikeDup2 (limit : Nat) (allocator : Allocator) (oldfd newfd : Int)
    (process : Descriptors Item) : Prop :=
  ∃ fuel after, dup2Impl limit allocator fuel oldfd newfd process = .ok (newfd, after) ∧
    ∀ number, lookup after.table number =
      if number = newfd.toNat then entry process.table oldfd else lookup process.table number

theorem close_fd_error {fd : Int} {process : Descriptors Item}
    (failed : (closeFd fd process).1 < 0) : (closeFd fd process).2.errno = ebadf := by
  unfold closeFd at *
  cases present : entry process.table fd with
  | none => rfl
  | some item => simp [present] at failed

/-- The descriptors the search starts with, or what the call has returned before. -/
def beforeSearch (limit : Nat) (oldfd newfd : Int) (process : Descriptors Item) :
    Except (Int × Descriptors Item) (Descriptors Item) :=
  if newfd < 0 ∨ oldfd < 0 then .error (-1, { process with errno := ebadf })
  else if oldfd = newfd then .error (newfd, process)
  else
    let (fd, process) := dup limit oldfd process
    if fd < 0 then .error (-1, { process with errno := ebadf })
    else
      let (_, process) := closeFd fd process
      let (closed, process) := closeFd newfd process
      if closed < 0 ∧ process.errno ≠ ebadf then .error (-1, process) else .ok process

theorem dup2_impl_eq (fuel : Nat) (oldfd newfd : Int) (process : Descriptors Item) :
    dup2Impl limit allocator fuel oldfd newfd process =
      match beforeSearch limit oldfd newfd process with
      | .error returned => .ok returned
      | .ok process =>
          searchLoop limit allocator oldfd newfd fuel (stackNew allocator) process >>= fun found =>
            closeLoop found.1.size found.1 found.2 >>= fun closed => .ok (newfd, closed) := by
  simp only [dup2Impl, beforeSearch]
  split_ifs <;> rfl

theorem before_search_ok {process : Descriptors Item} {oldfd : Int} {wanted : Nat} {item : Item}
    (isOpen : entry process.table oldfd = some item) (apart : oldfd ≠ wanted)
    (room : lowestFree process.table < limit) :
    ∃ freed : Descriptors Item, beforeSearch limit oldfd wanted process = .ok freed ∧
      Searching freed oldfd wanted item ∧
      ∀ number, lookup freed.table number =
        if number = wanted then none else lookup process.table number := by
  have sign : 0 ≤ oldfd := by
    by_contra negative
    simp [entry, negative] at isOpen
  let tried : Descriptors Item :=
    { process with table := place process.table (lowestFree process.table) item }
  let again := (closeFd (lowestFree process.table : Int) tried).2
  have sameTable (number : Nat) : lookup again.table number = lookup process.table number := by
    rw [lookup_close_fd, lookup_place]
    by_cases lowest : number = lowestFree process.table
    · rw [if_pos (by rw [lowest]), lowest, lookup_lowest_free]
    · rw [if_neg (by omega), if_neg lowest]
  have freedTable (number : Nat) : lookup (closeFd (wanted : Int) again).2.table number =
      if number = wanted then none else lookup process.table number := by
    rw [lookup_close_fd, sameTable]
    simp only [Int.natCast_inj]
  refine ⟨(closeFd (wanted : Int) again).2, ?_, ⟨?_, ?_⟩, freedTable⟩
  · have signs : ¬ ((wanted : Int) < 0 ∨ oldfd < 0) := by omega
    have given : ¬ (lowestFree process.table : Int) < 0 := by omega
    have ignored : ¬ ((closeFd (wanted : Int) again).1 < 0 ∧
        (closeFd (wanted : Int) again).2.errno ≠ ebadf) := by
      intro both
      exact both.2 (close_fd_error both.1)
    rw [beforeSearch, if_neg signs, if_neg apart, dup_opens isOpen room]
    simp only [if_neg given]
    rw [if_neg ignored]
  · unfold entry at *
    rw [if_pos sign] at *
    rw [freedTable, if_neg (by omega)]
    exact isOpen
  · rw [freedTable, if_pos rfl]

/-- With `newfd` freed, the rest is the search and the closing. -/
theorem dup2_searches (allocator : Allocator) {process : Descriptors Item} {oldfd : Int}
    {wanted : Nat} {item : Item} (isOpen : entry process.table oldfd = some item)
    (apart : oldfd ≠ wanted) (room : lowestFree process.table < limit) :
    ∃ freed : Descriptors Item, Searching freed oldfd wanted item ∧
      (∀ number, lookup freed.table number =
        if number = wanted then none else lookup process.table number) ∧
      ∀ fuel, dup2Impl limit allocator fuel oldfd wanted process =
        (searchLoop limit allocator oldfd wanted fuel (stackNew allocator) freed >>= fun found =>
          closeLoop found.1.size found.1 found.2 >>= fun closed => .ok ((wanted : Int), closed)) := by
  obtain ⟨freed, before, searching, freedTable⟩ := before_search_ok isOpen apart room
  refine ⟨freed, searching, freedTable, ?_⟩
  intro fuel
  rw [dup2_impl_eq, before]

section Outcome

variable {process freed : Descriptors Item} {oldfd : Int} {wanted : Nat} {item : Item}

theorem mem_as_ints {number : Nat} {numbers : List Nat} :
    (number : Int) ∈ asInts numbers ↔ number ∈ numbers := by
  unfold asInts
  rw [List.mem_map]
  constructor
  · intro found
    obtain ⟨other, member, same⟩ := found
    cases same
    exact member
  · intro member
    exact ⟨number, member, rfl⟩

theorem as_ints_length (numbers : List Nat) : (asInts numbers).length = numbers.length :=
  List.length_map _

theorem gaps_below_freed (freedTable : ∀ number, lookup freed.table number =
    if number = wanted then none else lookup process.table number) :
    gapsBelow freed.table wanted = gapsBelow process.table wanted := by
  apply gaps_below_congr
  intro number below
  rw [freedTable, if_neg (by omega)]

/-- With room for all gaps, the ints closed are the one behind them and all of
them but the first. -/
theorem closed_in_room (allocator : Allocator) (first : Nat) {rest : List Nat} (room : rest.length + 1 < 64)
    (state : Descriptors Item) :
    closeLoop (holding allocator (asInts (first :: rest))).size
        (holding allocator (asInts (first :: rest))) state =
      .ok (closeAll state (allocator.garbage (rest.length + 1) :: (asInts rest).reverse)) := by
  have length : (asInts (first :: rest)).length = rest.length + 1 := as_ints_length _
  have elements : (holding allocator (asInts (first :: rest))).elements =
      (first : Int) :: (asInts rest ++ allocator.garbage (rest.length + 1) ::
        ((List.range 64).map allocator.garbage).drop (rest.length + 2)) := by
    simp only [holding, length, unused_of_room room]
    rfl
  have size : (holding allocator (asInts (first :: rest))).size = rest.length + 1 := length
  rw [size, close_loop_in_room rfl length]
  · rw [elements, popped_eq]
    · rw [← as_ints_length rest, List.take_append, List.take_of_length_le (by omega)]
      simp
    · simp [as_ints_length]
  · rw [holding_elements_length (by omega)]
    exact room

theorem behaves_for_same {fd : Int} (isOpen : entry process.table fd ≠ none) :
    BehavesLikeDup2 limit allocator fd fd process := by
  have sign : 0 ≤ fd := by
    by_contra negative
    simp [entry, negative] at isOpen
  refine ⟨0, process, ?_, ?_⟩
  · rw [dup2Impl, if_neg (by omega), if_pos rfl]
  · intro number
    split_ifs with same
    · rw [entry, if_pos sign, same]
    · rfl

theorem behaves_iff_closes (allocator : Allocator)
    (isOpen : entry process.table oldfd = some item)
    (apart : oldfd ≠ wanted) (below : wanted < limit) (room : lowestFree process.table < limit) :
    ∃ freed : Descriptors Item,
      (∀ number, lookup freed.table number =
        if number = wanted then none else lookup process.table number) ∧
      (BehavesLikeDup2 limit allocator oldfd wanted process ↔ ∃ pushed closed,
        pushAll allocator (stackNew allocator) (asInts (gapsBelow process.table wanted)) =
          .ok pushed ∧
        closeLoop pushed.size pushed (searched freed wanted item) = .ok closed ∧
        ∀ number, lookup closed.table number =
          if number = wanted then some item else lookup process.table number) := by
  obtain ⟨freed, searching, freedTable, reduces⟩ :=
    dup2_searches allocator isOpen apart room
  have gaps := gaps_below_freed freedTable
  refine ⟨freed, freedTable, ?_⟩
  unfold BehavesLikeDup2
  rw [isOpen]
  constructor
  · intro behaves
    obtain ⟨fuel, after, returns, changed⟩ := behaves
    rw [reduces] at returns
    obtain ⟨⟨pushed, state⟩, found, remaining⟩ := bind_eq_ok.mp returns
    obtain ⟨closed, closes, result⟩ := bind_eq_ok.mp remaining
    obtain ⟨pushes, reached⟩ := search_ok searching below found
    cases result
    rw [gaps] at pushes
    rw [reached] at closes
    exact ⟨pushed, after, pushes, closes, changed⟩
  · intro outcome
    obtain ⟨pushed, last, pushes, closes, changed⟩ := outcome
    rw [← gaps] at pushes
    have found := search_done searching below pushes (Nat.lt_succ_self _)
    refine ⟨(gapsBelow freed.table wanted).length + 1, last, ?_, changed⟩
    rw [reduces, found, ok_bind, closes, ok_bind]

theorem behaves_without_gaps (isOpen : entry process.table oldfd = some item)
    (apart : oldfd ≠ wanted) (below : wanted < limit) (room : lowestFree process.table < limit)
    (gaps : gapsBelow process.table wanted = []) :
    BehavesLikeDup2 limit allocator oldfd wanted process := by
  obtain ⟨freed, freedTable, same⟩ :=
    behaves_iff_closes allocator isOpen apart below room
  apply same.mpr
  rw [gaps]
  refine ⟨stackNew allocator, searched freed wanted item, rfl, rfl, ?_⟩
  intro number
  rw [lookup_searched, gaps_below_freed freedTable, gaps, freedTable]
  by_cases own : number = wanted
  · rw [if_pos (.inl own), if_pos own]
  · rw [if_neg (by simp [own]), if_neg own, if_neg own]

/-- The int behind the gaps decides which table is left. -/
theorem behaves_in_room_iff {first : Nat} {rest : List Nat}
    (isOpen : entry process.table oldfd = some item) (apart : oldfd ≠ wanted)
    (below : wanted < limit) (gaps : gapsBelow process.table wanted = first :: rest)
    (fits : rest.length + 1 < 64) :
    BehavesLikeDup2 limit allocator oldfd wanted process ↔
      allocator.garbage (rest.length + 1) = first := by
  have member (number : Nat) : number ∈ first :: rest ↔
      number < wanted ∧ lookup process.table number = none := by
    rw [← gaps, mem_gaps_below]
  obtain ⟨firstBelow, firstFree⟩ := (member first).mp List.mem_cons_self
  have room : lowestFree process.table < limit := by
    rw [lowest_free_of_gaps gaps]
    omega
  have nodup := gaps_below_nodup process.table wanted
  rw [gaps, List.nodup_cons] at nodup
  obtain ⟨freed, freedTable, same⟩ :=
    behaves_iff_closes allocator isOpen apart below room
  have freedGaps := gaps_below_freed freedTable
  have pushes := push_all_new allocator (asInts (first :: rest))
    (by rw [as_ints_length]; exact Nat.le_of_lt fits)
  rw [gaps] at same freedGaps
  have closes := closed_in_room allocator first fits (searched freed wanted item)
  rw [same]
  constructor
  · intro outcome
    obtain ⟨pushed, closed, pushesAs, closesAs, changed⟩ := outcome
    have onlyPushes := pushesAs.symm.trans pushes
    cases onlyPushes
    have onlyCloses := closesAs.symm.trans closes
    cases onlyCloses
    by_contra other
    have stays : (first : Int) ∉ allocator.garbage (rest.length + 1) :: (asInts rest).reverse := by
      intro closedToo
      rcases List.mem_cons.mp closedToo with popped | pushed
      · exact other popped.symm
      · exact nodup.1 (mem_as_ints.mp (List.mem_reverse.mp pushed))
    have wrong := changed first
    rw [lookup_close_all, if_neg stays, lookup_searched, freedGaps,
      if_pos (Or.inr List.mem_cons_self), if_neg (by omega), firstFree] at wrong
    cases wrong
  · intro lucky
    refine ⟨_, _, pushes, closes, ?_⟩
    intro number
    rw [lookup_close_all, lookup_searched, freedGaps, freedTable, lucky]
    have closedIff : (number : Int) ∈ (first : Int) :: (asInts rest).reverse ↔
        number ∈ first :: rest := by
      rw [List.mem_cons, List.mem_cons, List.mem_reverse, mem_as_ints, Int.natCast_inj]
    by_cases gap : number ∈ first :: rest
    · obtain ⟨less, free⟩ := (member number).mp gap
      rw [if_pos (closedIff.mpr gap), if_neg (by omega), free]
    · rw [if_neg (fun closed => gap (closedIff.mp closed))]
      by_cases own : number = wanted
      · rw [if_pos (.inl own), if_pos own]
      · rw [if_neg (by simp only [own, gap, or_self, not_false_eq_true]), if_neg own, if_neg own]

/-- From 64 gaps on the run does not come to its return. -/
theorem never_returns_past_room (isOpen : entry process.table oldfd = some item)
    (apart : oldfd ≠ wanted) (below : wanted < limit) (room : lowestFree process.table < limit)
    (many : 64 ≤ (gapsBelow process.table wanted).length) (fuel : Nat)
    (result : Int × Descriptors Item) :
    dup2Impl limit allocator fuel oldfd wanted process ≠ .ok result := by
  obtain ⟨freed, searching, freedTable, reduces⟩ := dup2_searches allocator isOpen apart room
  intro returns
  rw [reduces] at returns
  obtain ⟨⟨pushed, state⟩, found, remaining⟩ := bind_eq_ok.mp returns
  obtain ⟨closed, closes, _⟩ := bind_eq_ok.mp remaining
  obtain ⟨pushes, _⟩ := search_ok searching below found
  rw [gaps_below_freed freedTable] at pushes
  have length := as_ints_length (gapsBelow process.table wanted)
  rcases Nat.lt_or_eq_of_le many with more | full
  · obtain ⟨data, some⟩ := push_all_past_room (by rw [length]; exact more) pushes
    obtain ⟨count, size⟩ := Nat.exists_eq_succ_of_ne_zero (Nat.ne_of_gt some)
    rw [size] at closes
    exact close_loop_after_growth data size closes
  · have sized := length.trans full.symm
    have only := pushes.symm.trans (push_all_new allocator _ (Nat.le_of_eq sized))
    cases only
    have block := @holding_elements_length allocator _ (Nat.le_of_eq sized)
    have some : 0 < (asInts (gapsBelow process.table wanted)).length := by omega
    rw [close_loop_full rfl (sized.trans block.symm) some] at closes
    cases closes

theorem never_behaves_past_room (isOpen : entry process.table oldfd = some item)
    (apart : oldfd ≠ wanted) (below : wanted < limit) (room : lowestFree process.table < limit)
    (many : 64 ≤ (gapsBelow process.table wanted).length) :
    ¬ BehavesLikeDup2 limit allocator oldfd wanted process := by
  intro behaves
  obtain ⟨fuel, after, returns, _⟩ := behaves
  exact never_returns_past_room isOpen apart below room many fuel _ returns

end Outcome

/-- `dup2` by hand is `dup2` if and only if both numbers are one, no number
below `newfd` is free, or fewer than 64 are and the int behind them is the
lowest. -/
theorem dup2_impl_behaves_iff (limit : Nat) (allocator : Allocator) (oldfd newfd : Int)
    (process : Descriptors Item) (isOpen : entry process.table oldfd ≠ none) (sign : 0 ≤ newfd)
    (below : newfd < limit) (free : ∃ number < limit, lookup process.table number = none) :
    BehavesLikeDup2 limit allocator oldfd newfd process ↔
      oldfd = newfd ∨ gapsBelow process.table newfd.toNat = [] ∨
        (gapsBelow process.table newfd.toNat).length < 64 ∧
          allocator.garbage (gapsBelow process.table newfd.toNat).length =
            lowestFree process.table := by
  obtain ⟨item, present⟩ := Option.ne_none_iff_exists'.mp isOpen
  obtain ⟨wanted, same⟩ := Int.eq_ofNat_of_zero_le sign
  obtain ⟨number, less, isFree⟩ := free
  have room : lowestFree process.table < limit := by
    by_contra above
    exact lookup_below_lowest_free (by omega) isFree
  subst same
  rw [Int.toNat_natCast]
  by_cases apart : oldfd = wanted
  · simp only [apart, true_or, iff_true]
    exact behaves_for_same (by rw [← apart]; exact isOpen)
  have inside : wanted < limit := by omega
  cases gaps : gapsBelow process.table wanted with
  | nil =>
      simp only [true_or, or_true, iff_true]
      exact behaves_without_gaps present apart inside room gaps
  | cons first rest =>
      rw [List.length_cons, lowest_free_of_gaps gaps]
      simp only [apart, reduceCtorEq, false_or]
      by_cases fits : rest.length + 1 < 64
      · rw [behaves_in_room_iff present apart inside gaps fits]
        simp only [fits, true_and]
      · have never := @never_behaves_past_room _ limit allocator process oldfd wanted item present
          apart inside room (by rw [gaps, List.length_cons]; omega)
        simp only [never, fits, false_and]

def zeroed : Allocator where
  garbage := fun _ => 0
  moves := fun _ => false

def leavingOnes : Allocator where
  garbage := fun _ => 1
  moves := fun _ => false

def oneGap : Descriptors Nat where
  table := [some 7, none, some 8]
  errno := 0

/-- The int behind the one gap is the gap itself, or it is not. -/
theorem dup2_impl_behaves_by_garbage :
    BehavesLikeDup2 8 leavingOnes 0 3 oneGap ∧ ¬ BehavesLikeDup2 8 zeroed 0 3 oneGap := by
  have iffGarbage (allocator : Allocator) := dup2_impl_behaves_iff 8 allocator 0 3 oneGap
    (by decide) (by decide) (by decide) ⟨1, by decide⟩
  constructor
  · exact (iffGarbage leavingOnes).mpr (by decide)
  · intro behaves
    exact absurd ((iffGarbage zeroed).mp behaves) (by decide)

/-- The zero behind the one gap closes 0, and 1 stays open. -/
theorem dup2_impl_closes_zero :
    entry oneGap.table 0 = some 7 ∧ lookup oneGap.table 1 = none ∧
      dup2Impl 8 zeroed 2 0 3 oneGap =
        .ok (3, { table := [none, some 7, some 8, some 7], errno := ebadf }) ∧
      ¬ BehavesLikeDup2 8 zeroed 0 3 oneGap := by
  refine ⟨rfl, rfl, by decide, ?_⟩
  have gaps : gapsBelow oneGap.table 3 = 1 :: [] := by decide
  have isOpen : entry oneGap.table 0 = some 7 := rfl
  have apart : (0 : Int) ≠ (3 : Nat) := by decide
  have below : 3 < 8 := by decide
  intro behaves
  have wrong := (behaves_in_room_iff isOpen apart below gaps (by decide)).mp behaves
  cases wrong

end Sysprog.Shell.Dup2Behaviour
