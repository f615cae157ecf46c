import Sysprog.Arrays.Growth
import Mathlib.Data.List.Induction

/-!
# What an array of ints holds

As long as every growth doubles the capacity, the elements are the numbers
added, in order. The capacities an array goes through are those of
`array_init` times a power of two, and a growth is due when as many numbers
were added.
-/

namespace Sysprog.Arrays.AddedNumbers

open CheckedRuns IntArrays Growth

set_option autoImplicit false

/-- `buf[0 .. size)` is exactly `added`, in a buffer of `capacity` ints. -/
structure Holds (arr : ArrayInt) (added : List Int) : Prop where
  length : arr.buf.length = arr.capacity
  inside : arr.size ≤ arr.capacity
  size : arr.size = added.length
  content : arr.buf.take arr.size = added.map some

/-- After `array_init` and after each `array_add` for these numbers no write
was outside the buffer, and it holds what was added so far. -/
def StaysList (size : Nat) (numbers : List Int) : Prop :=
  ∀ added, added <+: numbers →
    ∃ arr, addAll (arrayInit size) added = .ok arr ∧ Holds arr added

/-- The array after so many growths, each of which could double. -/
structure Grown (size : Nat) (added : List Int) (arr : ArrayInt) (growths : Nat) : Prop where
  sound : Sound arr
  holds : Holds arr added
  capacity : arr.capacity = size * 2 ^ growths
  grew : ∀ earlier < growths, 1 ≤ size * 2 ^ earlier ∧ size * 2 ^ earlier < 2 ^ 30

variable {size growths : Nat} {added numbers : List Int} {arr after : ArrayInt} {number : Int}

theorem init_grown (fits : size < 2 ^ 62) : Grown size [] (arrayInit size) 0 := by
  have sound := init_sound fits
  refine ⟨sound, ⟨sound.length, sound.inside, rfl, rfl⟩, ?_, ?_⟩
  · rw [Nat.pow_zero, Nat.mul_one]
    rfl
  · intro earlier before
    exact absurd before (Nat.not_lt_zero _)

theorem appends_holds (holds : Holds arr added) (sound : Sound after)
    (appends : Appends arr number after) : Holds after (added ++ [number]) := by
  refine ⟨sound.length, sound.inside, ?_, ?_⟩
  · rw [appends.size, holds.size, List.length_append, List.length_singleton]
  · rw [appends.size, appends.content, holds.content, List.map_append]
    rfl

theorem grown_add (grown : Grown size added arr growths) (number : Int)
    (growable : arr.size = arr.capacity → 1 ≤ arr.capacity ∧ arr.capacity < 2 ^ 30) :
    ∃ after growths, arrayAdd arr number = .ok after ∧
      Grown size (added ++ [number]) after growths := by
  obtain ⟨after, stored, sound, appends⟩ := add_appends grown.sound number growable
  have holds := appends_holds grown.holds sound appends
  have capacity := appends.capacity
  by_cases full : arr.size = arr.capacity
  · refine ⟨after, growths + 1, stored, sound, holds, ?_, ?_⟩
    · rw [capacity, if_pos full, grown.capacity, Nat.pow_succ', Nat.mul_left_comm]
    · intro earlier before
      cases Nat.lt_succ_iff_lt_or_eq.mp before with
      | inl older => exact grown.grew earlier older
      | inr last =>
          rw [last, ← grown.capacity]
          exact growable full
  · rw [if_neg full] at capacity
    exact ⟨after, growths, stored, sound, holds, capacity.trans grown.capacity, grown.grew⟩

theorem add_all_snoc (stored : addAll (arrayInit size) added = .ok arr) :
    addAll (arrayInit size) (added ++ [number]) = arrayAdd arr number := by
  rw [add_all_append, stored, ok_bind, add_all_one]

theorem grown_of_growable (fits : size < 2 ^ 62)
    (growable : ∀ growths, size * 2 ^ growths < numbers.length →
      1 ≤ size * 2 ^ growths ∧ size * 2 ^ growths < 2 ^ 30) :
    ∃ arr growths, addAll (arrayInit size) numbers = .ok arr ∧
      Grown size numbers arr growths := by
  induction numbers using List.reverseRecOn with
  | nil => exact ⟨arrayInit size, 0, rfl, init_grown fits⟩
  | append_singleton earlier number ih =>
      rw [List.length_append, List.length_singleton] at growable
      obtain ⟨arr, growths, stored, grown⟩ :=
        ih (fun growths due => growable growths (Nat.lt_succ_of_lt due))
      have due : arr.size = arr.capacity → 1 ≤ arr.capacity ∧ arr.capacity < 2 ^ 30 := by
        intro full
        rw [grown.capacity]
        apply growable
        rw [← grown.capacity, ← full, grown.holds.size]
        exact Nat.lt_succ_self _
      obtain ⟨after, growths, last, afterGrown⟩ := grown_add grown number due
      exact ⟨after, growths, (add_all_snoc stored).trans last, afterGrown⟩

theorem grown_of_stays (stays : StaysList size numbers) :
    ∃ arr growths, addAll (arrayInit size) numbers = .ok arr ∧
      Grown size numbers arr growths := by
  induction numbers using List.reverseRecOn with
  | nil =>
      obtain ⟨arr, made, holds⟩ := stays [] (List.prefix_refl [])
      cases made
      exact ⟨arrayInit size, 0, rfl, init_grown (init_length.mp holds.length)⟩
  | append_singleton earlier number ih =>
      obtain ⟨arr, growths, stored, grown⟩ :=
        ih (fun added before => stays added (before.trans (List.prefix_append _ _)))
      obtain ⟨kept, made, holds⟩ := stays _ (List.prefix_refl _)
      rw [add_all_snoc stored] at made
      have due : arr.size = arr.capacity → 1 ≤ arr.capacity ∧ arr.capacity < 2 ^ 30 := by
        intro full
        by_contra stuck
        exact (add_misses grown.sound full stuck made).1 holds.length
      obtain ⟨after, growths, last, afterGrown⟩ := grown_add grown number due
      exact ⟨after, growths, (add_all_snoc stored).trans last, afterGrown⟩

/-- An array is a list exactly as long as no growth starts from nothing or
from 2^30 on. -/
theorem stays_list_iff {size : Nat} {numbers : List Int} :
    StaysList size numbers ↔ size < 2 ^ 62 ∧
      ∀ growths, size * 2 ^ growths < numbers.length →
        1 ≤ size * 2 ^ growths ∧ size * 2 ^ growths < 2 ^ 30 := by
  constructor
  · intro stays
    obtain ⟨first, made, holds⟩ := stays [] (List.nil_prefix)
    cases made
    obtain ⟨arr, growths, stored, grown⟩ := grown_of_stays stays
    refine ⟨init_length.mp holds.length, ?_⟩
    intro earlier due
    apply grown.grew
    by_contra later
    have more : size * 2 ^ growths ≤ size * 2 ^ earlier :=
      Nat.mul_le_mul_left _ (Nat.pow_le_pow_right (by decide) (Nat.not_lt.mp later))
    have inside := grown.holds.inside
    rw [grown.capacity, grown.holds.size] at inside
    omega
  · intro within added before
    obtain ⟨arr, growths, stored, grown⟩ := @grown_of_growable size added within.1
      (fun growths due => within.2 growths (Nat.lt_of_lt_of_le due before.length_le))
    exact ⟨arr, stored, grown.holds⟩

/-- Twice nothing is nothing: the first number goes behind the buffer. -/
theorem empty_array_overrun :
    addAll (arrayInit 0) [5] = .error .outOfRange ∧ ¬ StaysList 0 [5] := by
  have overrun : addAll (arrayInit 0) [5] = .error .outOfRange := by decide +kernel
  refine ⟨overrun, ?_⟩
  intro stays
  obtain ⟨arr, stored, _⟩ := stays [5] (List.prefix_refl [5])
  rw [overrun] at stored
  cases stored

end Sysprog.Arrays.AddedNumbers
