import Mathlib.Data.List.Basic
import Mathlib.Tactic.SplitIfs

/-!
# Descriptor tables

A table numbers what a process has open. Opening takes the lowest number that
is free; two tables are the same when every number refers to the same thing.
-/

namespace Sysprog.DescriptorTable

set_option autoImplicit false

variable {Item : Type*}

abbrev Table (Item : Type*) := List (Option Item)

def lookup (table : Table Item) (number : Nat) : Option Item := (table[number]?).join

def place (table : Table Item) (number : Nat) (item : Item) : Table Item :=
  if number < table.length then table.set number (some item)
  else table ++ List.replicate (number - table.length) none ++ [some item]

def close (table : Table Item) (number : Nat) : Table Item := table.set number none

def lowestFree (table : Table Item) : Nat := table.findIdx Option.isNone

def openLowest (table : Table Item) (item : Item) : Nat × Table Item :=
  (lowestFree table, place table (lowestFree table) item)

/-- `dup2`; a number that is not open changes nothing. -/
def dup2 (table : Table Item) (old new : Nat) : Table Item :=
  match lookup table old with
  | none => table
  | some item => place table new item

theorem lookup_place (table : Table Item) (number other : Nat) (item : Item) :
    lookup (place table number item) other = if other = number then some item else lookup table other := by
  unfold lookup place
  split_ifs with inside same same
  · subst same
    rw [List.getElem?_set_self inside]
    rfl
  · rw [List.getElem?_set_ne (Ne.symm same)]
  · subst same
    rw [List.getElem?_append_right (by simp; omega)]
    simp [Nat.add_sub_cancel' (Nat.le_of_not_lt inside)]
  · by_cases below : other < table.length
    · rw [List.append_assoc, List.getElem?_append_left below]
    · have free : table[other]? = none := List.getElem?_eq_none (Nat.le_of_not_lt below)
      rw [free, List.append_assoc, List.getElem?_append_right (Nat.le_of_not_lt below)]
      by_cases gap : other - table.length < number - table.length
      · rw [List.getElem?_append_left (by simpa using gap)]
        simp [gap]
      · rw [List.getElem?_eq_none]
        simp
        omega

theorem lookup_close (table : Table Item) (number other : Nat) :
    lookup (close table number) other = if other = number then none else lookup table other := by
  unfold lookup close
  split_ifs with same
  · subst same
    by_cases inside : other < table.length
    · rw [List.getElem?_set_self inside]
      rfl
    · rw [List.getElem?_eq_none (by simpa using inside)]
      rfl
  · rw [List.getElem?_set_ne (Ne.symm same)]

theorem lookup_lowest_free (table : Table Item) : lookup table (lowestFree table) = none := by
  unfold lookup lowestFree
  by_cases inside : table.findIdx Option.isNone < table.length
  · have free : (table[table.findIdx Option.isNone]).isNone = true := List.findIdx_getElem
    rw [List.getElem?_eq_getElem inside, Option.isNone_iff_eq_none.mp free]
    rfl
  · rw [List.getElem?_eq_none (Nat.le_of_not_lt inside)]
    rfl

theorem lookup_below_lowest_free {table : Table Item} {number : Nat}
    (below : number < lowestFree table) : lookup table number ≠ none := by
  unfold lookup
  have inside : number < table.length := Nat.lt_of_lt_of_le below List.findIdx_le_length
  have taken := List.not_of_lt_findIdx below
  rw [List.getElem?_eq_getElem inside]
  cases entry : table[number] with
  | none => simp [entry] at taken
  | some item => simp

/-- The lowest free number is what its name says. -/
theorem lowest_free_eq {table : Table Item} {number : Nat} (free : lookup table number = none)
    (taken : ∀ other < number, lookup table other ≠ none) : lowestFree table = number := by
  rcases Nat.lt_trichotomy (lowestFree table) number with less | same | more
  · exact absurd (lookup_lowest_free table) (taken _ less)
  · exact same
  · exact absurd free (lookup_below_lowest_free more)

theorem lookup_dup2 {table : Table Item} {old : Nat} {item : Item}
    (present : lookup table old = some item) (new other : Nat) :
    lookup (dup2 table old new) other = if other = new then some item else lookup table other := by
  rw [dup2, present]
  exact lookup_place table new other item

/-- The free numbers below a bound, in order. -/
def gapsBelow (table : Table Item) (bound : Nat) : List Nat :=
  (List.range bound).filter fun number => (lookup table number).isNone

theorem mem_gaps_below {table : Table Item} {bound number : Nat} :
    number ∈ gapsBelow table bound ↔ number < bound ∧ lookup table number = none := by
  simp [gapsBelow]

theorem gaps_below_nodup (table : Table Item) (bound : Nat) : (gapsBelow table bound).Nodup :=
  List.Pairwise.filter _ List.nodup_range

theorem gaps_below_sorted (table : Table Item) (bound : Nat) :
    (gapsBelow table bound).Pairwise (· < ·) :=
  List.Pairwise.filter _ List.pairwise_lt_range

theorem gaps_below_congr {table other : Table Item} {bound : Nat}
    (same : ∀ number < bound, lookup table number = none ↔ lookup other number = none) :
    gapsBelow table bound = gapsBelow other bound := by
  apply List.filter_congr
  intro number member
  rw [Bool.eq_iff_iff, Option.isNone_iff_eq_none, Option.isNone_iff_eq_none]
  exact same number (List.mem_range.mp member)

/-- The first gap is what the next opening takes. -/
theorem lowest_free_of_gaps {table : Table Item} {bound first : Nat} {rest : List Nat}
    (gaps : gapsBelow table bound = first :: rest) : lowestFree table = first := by
  have sorted := gaps_below_sorted table bound
  have own : first ∈ gapsBelow table bound := by
    rw [gaps]
    exact List.mem_cons_self
  obtain ⟨below, free⟩ := mem_gaps_below.mp own
  apply lowest_free_eq free
  intro other less isFree
  have member := mem_gaps_below.mpr ⟨Nat.lt_trans less below, isFree⟩
  rw [gaps] at member sorted
  rcases List.mem_cons.mp member with same | later
  · omega
  · have above := (List.pairwise_cons.mp sorted).1 other later
    omega

/-- Without gaps below it a free number is the lowest. -/
theorem lowest_free_of_no_gaps {table : Table Item} {bound : Nat}
    (gaps : gapsBelow table bound = []) (free : lookup table bound = none) :
    lowestFree table = bound := by
  apply lowest_free_eq free
  intro other less isFree
  have member := mem_gaps_below.mpr ⟨less, isFree⟩
  rw [gaps] at member
  cases member

/-- Filling the first gap leaves the others. -/
theorem gaps_below_filled {table : Table Item} {bound first : Nat} {rest : List Nat} (item : Item)
    (gaps : gapsBelow table bound = first :: rest) :
    gapsBelow (place table first item) bound = rest := by
  have nodup := gaps_below_nodup table bound
  rw [gaps, List.nodup_cons] at nodup
  have whole : gapsBelow (place table first item) bound =
      (gapsBelow table bound).filter fun number => number ≠ first := by
    unfold gapsBelow
    rw [List.filter_filter]
    apply List.filter_congr
    intro number _
    rw [lookup_place]
    by_cases own : number = first
    · simp [own]
    · simp [own]
  rw [whole, gaps, List.filter_cons_of_neg (by simp)]
  apply List.filter_eq_self.mpr
  intro number member
  have apart : number ≠ first := fun same => nodup.1 (same ▸ member)
  simpa using apart

/-- Put the same item on every number of a list. -/
def placeAll (table : Table Item) (numbers : List Nat) (item : Item) : Table Item :=
  numbers.foldl (fun table number => place table number item) table

theorem lookup_place_all (table : Table Item) (numbers : List Nat) (item : Item) (number : Nat) :
    lookup (placeAll table numbers item) number =
      if number ∈ numbers then some item else lookup table number := by
  induction numbers generalizing table with
  | nil => rw [if_neg List.not_mem_nil, placeAll, List.foldl_nil]
  | cons first rest ih =>
      have step : placeAll table (first :: rest) item = placeAll (place table first item) rest item :=
        rfl
      rw [step, ih, lookup_place]
      by_cases later : number ∈ rest
      · rw [if_pos later, if_pos (List.mem_cons_of_mem _ later)]
      · rw [if_neg later]
        by_cases own : number = first
        · rw [if_pos own, if_pos (by rw [own]; exact List.mem_cons_self)]
        · rw [if_neg own, if_neg (by simp [own, later])]

/-- Moving an item from one of two numbers to a third and closing both leaves
the table from before the two were opened, with the item on the third. -/
theorem lookup_moved {before table : Table Item} {used unused onto : Nat} {item : Item}
    (usedFree : lookup before used = none) (unusedFree : lookup before unused = none)
    (usedApart : used ≠ onto) (unusedApart : unused ≠ onto)
    (present : lookup table used = some item)
    (others : ∀ other, other ≠ used → other ≠ unused → lookup table other = lookup before other)
    (number : Nat) :
    lookup (close (close (dup2 table used onto) used) unused) number =
      if number = onto then some item else lookup before number := by
  rw [lookup_close, lookup_close, lookup_dup2 present]
  by_cases isUnused : number = unused
  · rw [if_pos isUnused, if_neg (by rw [isUnused]; exact unusedApart), isUnused, unusedFree]
  rw [if_neg isUnused]
  by_cases isUsed : number = used
  · rw [if_pos isUsed, if_neg (by rw [isUsed]; exact usedApart), isUsed, usedFree]
  rw [if_neg isUsed, others number isUsed isUnused]

end Sysprog.DescriptorTable
