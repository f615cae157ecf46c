import Sysprog.Arrays.ArrayCalls
import Mathlib.Algebra.BigOperators.Fin
import Mathlib.Data.List.Sort

/-!
# The lists a program holds

Each array of a program is a list of its own. The memory in use is one buffer
for each list, with one more for each `array_init` of an array that had not
been freed, and all the copying for growth is paid for by the numbers added.
-/

namespace Sysprog.Arrays.HeldLists

open CheckedRuns Growth AddedNumbers ArrayCalls
open IntArrays (ArrayInt Buffer Halt malloc sizeofInt toSizeT)

set_option autoImplicit false

variable {count : Nat}

/-- The lists of the arrays that have a buffer, and the buffers nobody has. -/
structure Ledger (count : Nat) where
  lists : Fin count → Option (List Int)
  lost : Nat

def ones (list : Option (List Int)) : Nat :=
  match list with
  | none => 0
  | some _ => 1

def Ledger.put (ledger : Ledger count) (index : Fin count) (list : Option (List Int))
    (gained : Nat) : Ledger count where
  lists := Function.update ledger.lists index list
  lost := ledger.lost + gained

def Ledger.after (order : List Int → List Int) (ledger : Ledger count) : Call count → Ledger count
  | .init index _ => ledger.put index (some []) (ones (ledger.lists index))
  | .resize _ => ledger
  | .add index number => ledger.put index ((ledger.lists index).map (· ++ [number])) 0
  | .sort index => ledger.put index ((ledger.lists index).map order) 0
  | .free index => ledger.put index none 0

def ledgerOf (order : List Int → List Int) (history : History count) : Ledger count :=
  history.foldl (fun ledger event => ledger.after order event.call) ⟨fun _ => none, 0⟩

/-- What `array_sort` relies on: called for the elements of a buffer up to the
last one, the function leaves them in `order` and the rest as it was. -/
structure Rearranges (function : Buffer → Nat → Nat → Except Halt Buffer)
    (order : List Int → List Int) : Prop where
  length : ∀ numbers, (order numbers).length = numbers.length
  sorts : ∀ (numbers : List Int) (rest : Buffer), numbers ≠ [] →
    function (numbers.map some ++ rest) 0 (numbers.length - 1) =
      .ok ((order numbers).map some ++ rest)

def pointer (arr : Option ArrayFields) : Option Nat := arr.bind ArrayFields.buf

/-- An array_int is a list when its buffer is live and holds it, and nothing
when it was never initialised or was freed. -/
inductive Shows (buffers : Heap Buffer) : Option ArrayFields → Option (List Int) → Prop where
  | unset : Shows buffers none none
  | freed : Shows buffers (some ⟨none, 0, 0⟩) none
  | held {address : Nat} {arr : ArrayInt} {numbers : List Int}
      (found : buffers.read address = some arr.buf) (sound : Sound arr)
      (holds : Holds arr numbers) :
      Shows buffers (some ⟨some address, arr.capacity, arr.size⟩) (some numbers)

def live (ledger : Ledger count) : Nat := ∑ index, ones (ledger.lists index)

structure Stands (memory : Memory count) (ledger : Ledger count) : Prop where
  shows : ∀ index, Shows memory.buffers (memory.arrays index) (ledger.lists index)
  apart : ∀ index other address, pointer (memory.arrays index) = some address →
    pointer (memory.arrays other) = some address → index = other
  used : memory.buffers.inUse = live ledger + ledger.lost

theorem sum_update {Item : Type} (amount : Item → Nat) (items : Fin count → Item)
    (index : Fin count) (item : Item) :
    ∑ other, amount (Function.update items index item other) + amount (items index) =
      ∑ other, amount (items other) + amount item := by
  have rest : ∑ other ∈ Finset.univ.erase index, amount (Function.update items index item other) =
      ∑ other ∈ Finset.univ.erase index, amount (items other) := by
    apply Finset.sum_congr rfl
    intro other outside
    rw [Function.update_of_ne (Finset.ne_of_mem_erase outside)]
  rw [← Finset.add_sum_erase _ _ (Finset.mem_univ index),
    ← Finset.add_sum_erase _ (fun other => amount (items other)) (Finset.mem_univ index), rest,
    Function.update_self]
  omega

section Steps

variable {memory : Memory count} {ledger : Ledger count} {index : Fin count} {done : Done}

theorem read_of_shows {buffers : Heap Buffer} {arr : Option ArrayFields}
    {list : Option (List Int)} {address : Nat} (shows : Shows buffers arr list)
    (owns : pointer arr = some address) : ∃ buffer, buffers.read address = some buffer := by
  cases shows with
  | unset => cases owns
  | freed => cases owns
  | held found sound holds =>
      cases owns
      exact ⟨_, found⟩

theorem shows_kept {before after : Heap Buffer} {arr : Option ArrayFields}
    {list : Option (List Int)} (shows : Shows before arr list)
    (kept : ∀ address buffer, pointer arr = some address → before.read address = some buffer →
      after.read address = some buffer) : Shows after arr list := by
  cases shows with
  | unset => exact .unset
  | freed => exact .freed
  | held found sound holds => exact .held (kept _ _ rfl found) sound holds

/-- A call that leaves the array `index` as `list`, with so many more buffers
nobody has. -/
structure Settles (memory : Memory count) (ledger : Ledger count) (index : Fin count)
    (done : Done) (list : Option (List Int)) (gained : Nat) : Prop where
  shows : Shows done.buffers (some done.arr) list
  others : ∀ address buffer, pointer (memory.arrays index) ≠ some address →
    memory.buffers.read address = some buffer →
      done.arr.buf ≠ some address ∧ done.buffers.read address = some buffer
  used : done.buffers.inUse + ones (ledger.lists index) =
    memory.buffers.inUse + ones list + gained

theorem after_self : (memory.after index done).arrays index = some done.arr :=
  Function.update_self _ _ _

theorem after_other {other : Fin count} (different : other ≠ index) :
    (memory.after index done).arrays other = memory.arrays other :=
  Function.update_of_ne different _ _

theorem put_self {list : Option (List Int)} {gained : Nat} :
    (ledger.put index list gained).lists index = list := Function.update_self _ _ _

theorem put_other {list : Option (List Int)} {gained : Nat} {other : Fin count}
    (different : other ≠ index) :
    (ledger.put index list gained).lists other = ledger.lists other :=
  Function.update_of_ne different _ _

theorem stands_settled {list : Option (List Int)} {gained : Nat} (held : Stands memory ledger)
    (settles : Settles memory ledger index done list gained) :
    Stands (memory.after index done) (ledger.put index list gained) := by
  have elsewhere : ∀ other address, other ≠ index → pointer (memory.arrays other) = some address →
      pointer (memory.arrays index) ≠ some address :=
    fun other address different owns same => different (held.apart _ _ _ owns same)
  have unshared : ∀ other address, other ≠ index →
      pointer (memory.arrays other) = some address → done.arr.buf ≠ some address := by
    intro other address different owns
    obtain ⟨buffer, found⟩ := read_of_shows (held.shows other) owns
    exact (settles.others _ _ (elsewhere other address different owns) found).1
  refine ⟨?_, ?_, ?_⟩
  · intro other
    by_cases same : other = index
    · rw [same, after_self, put_self]
      exact settles.shows
    · rw [after_other same, put_other same]
      apply shows_kept (held.shows other)
      intro address buffer owns found
      exact (settles.others _ _ (elsewhere other address same owns) found).2
  · intro first second address owns shares
    by_cases firstHere : first = index
    · by_cases secondHere : second = index
      · rw [firstHere, secondHere]
      · rw [firstHere, after_self] at owns
        rw [after_other secondHere] at shares
        exact absurd owns (unshared second address secondHere shares)
    · rw [after_other firstHere] at owns
      by_cases secondHere : second = index
      · rw [secondHere, after_self] at shares
        exact absurd shares (unshared first address firstHere owns)
      · rw [after_other secondHere] at shares
        exact held.apart _ _ _ owns shares
  · have before := held.used
    have here := settles.used
    have sum := sum_update ones ledger.lists index list
    change done.buffers.inUse = (∑ other, ones (Function.update ledger.lists index list other)) +
      (ledger.lost + gained)
    change memory.buffers.inUse = (∑ other, ones (ledger.lists other)) + ledger.lost at before
    omega

theorem init_settles {size : Nat} (fits : size < 2 ^ 62) :
    Settles memory ledger index (arrayInit size memory.buffers) (some [])
      (ones (ledger.lists index)) := by
  have fresh : (IntArrays.arrayInit size).buf = malloc (toSizeT (size * sizeofInt)) := rfl
  have grown := init_grown fits
  refine ⟨?_, ?_, ?_⟩
  · exact @Shows.held _ _ (IntArrays.arrayInit size) _ (Heap.read_alloc_next _ _)
      grown.sound grown.holds
  · intro address buffer _ found
    have earlier := Nat.ne_of_lt (Heap.lt_next_of_read found)
    refine ⟨?_, Heap.read_alloc_of_read _ found⟩
    intro same
    exact earlier (Option.some.inj same).symm
  · rw [arrayInit, Heap.inUse_alloc]
    rfl

theorem ne_of_elsewhere {arr : ArrayFields} {address other : Nat}
    (here : memory.arrays index = some arr) (owns : arr.buf = some address)
    (elsewhere : pointer (memory.arrays index) ≠ some other) : other ≠ address := by
  intro same
  rw [here, same, ← owns] at elsewhere
  exact elsewhere rfl

theorem rehoused_settles {address fresh : Nat} {arr after : ArrayInt} {before numbers : List Int}
    (here : memory.arrays index = some ⟨some address, arr.capacity, arr.size⟩)
    (listed : ledger.lists index = some before)
    (moved : Rehouses memory.buffers address after done fresh) (sound : Sound after)
    (holds : Holds after numbers) : Settles memory ledger index done (some numbers) 0 := by
  refine ⟨?_, ?_, ?_⟩
  · rw [moved.arr]
    exact .held moved.found sound holds
  · intro other buffer elsewhere found
    have different := ne_of_elsewhere here rfl elsewhere
    obtain ⟨apart, kept⟩ := moved.others other buffer different found
    refine ⟨?_, kept⟩
    rw [moved.arr]
    intro same
    exact apart (Option.some.inj same).symm
  · rw [moved.inUse, listed]
    rfl

theorem free_settles (held : Stands memory ledger) {arr : ArrayFields}
    (here : memory.arrays index = some arr) :
    ∃ done, arrayFree arr memory.buffers = .ok done ∧ done.arr = ⟨none, 0, 0⟩ ∧
      Settles memory ledger index done none 0 := by
  have shows := held.shows index
  rw [here] at shows
  cases listed : ledger.lists index with
  | none =>
      rw [listed] at shows
      cases shows
      refine ⟨⟨0, ⟨none, 0, 0⟩, memory.buffers⟩, rfl, rfl, .freed, ?_, ?_⟩
      · intro address buffer _ found
        exact ⟨(Option.some_ne_none _).symm, found⟩
      · rw [listed]
        rfl
  | some numbers =>
      rw [listed] at shows
      cases shows with
      | @held address array _ found sound holds =>
          have released := Heap.inUse_release found
          refine ⟨⟨0, ⟨none, 0, 0⟩, memory.buffers.release address⟩, ?_, rfl, .freed, ?_, ?_⟩
          · rw [arrayFree]
            exact congrArg (fun rest => rest >>= _) (free_of_read found)
          · intro other buffer elsewhere present
            have different := ne_of_elsewhere here rfl elsewhere
            exact ⟨(Option.some_ne_none _).symm, (Heap.read_release_of_ne different).trans present⟩
          · rw [listed]
            exact released

theorem held_of_ne {arr : ArrayFields} (held : Stands memory ledger)
    (here : memory.arrays index = some arr) (owns : arr ≠ ⟨none, 0, 0⟩) :
    ∃ address array numbers, arr = ⟨some address, array.capacity, array.size⟩ ∧
      ledger.lists index = some numbers ∧ memory.buffers.read address = some array.buf ∧
      Sound array ∧ Holds array numbers := by
  have shows := held.shows index
  rw [here] at shows
  cases listed : ledger.lists index with
  | none =>
      rw [listed] at shows
      cases shows
      exact absurd rfl owns
  | some numbers =>
      rw [listed] at shows
      cases shows with
      | held found sound holds => exact ⟨_, _, numbers, rfl, rfl, found, sound, holds⟩

/-- The bytes the numbers in an array have been charged for and that were not
spent on growth yet. -/
def saved : Option ArrayFields → Nat
  | none => 0
  | some arr => sizeofInt * (2 * arr.size - arr.capacity)

def savings (memory : Memory count) : Nat := ∑ index, saved (memory.arrays index)

def addCopies (event : Event (Call count) Nat) : Nat :=
  match event.call with
  | .add _ _ => event.result
  | _ => 0

def isAdd (event : Event (Call count) Nat) : Nat :=
  match event.call with
  | .add _ _ => 1
  | _ => 0

theorem savings_after :
    savings (memory.after index done) + saved (memory.arrays index) =
      savings memory + saved (some done.arr) :=
  sum_update saved memory.arrays index (some done.arr)

end Steps

/-- A call that is permitted is made, does to the lists what it is for, and is
paid for: an `array_add` saves twice the bytes of a number. -/
structure Makes (function : Buffer → Nat → Nat → Except Halt Buffer)
    (order : List Int → List Int) (memory : Memory count) (ledger : Ledger count)
    (call : Call count) (copied : Nat) (next : Memory count) : Prop where
  performed : perform function memory call = .ok (copied, next)
  stands : Stands next (ledger.after order call)
  paid : addCopies ⟨call, copied⟩ + savings next ≤
    savings memory + 2 * sizeofInt * isAdd ⟨call, copied⟩

section Calls

variable {memory : Memory count} {ledger : Ledger count} {index : Fin count}
  {function : Buffer → Nat → Nat → Except Halt Buffer} {order : List Int → List Int}

theorem fields_of_here {arr : ArrayFields} (here : memory.arrays index = some arr) :
    fieldsOf memory index = .ok arr := by
  rw [fieldsOf, here]

theorem init_made {size : Nat} (held : Stands memory ledger) (fits : size < 2 ^ 62) :
    ∃ copied next, Makes function order memory ledger (.init index size) copied next := by
  refine ⟨_, _, rfl, stands_settled held (init_settles fits), ?_⟩
  have sum := @savings_after _ memory index (arrayInit size memory.buffers)
  have nothing : saved (some (arrayInit size memory.buffers).arr) = 0 := by
    change sizeofInt * (2 * 0 - size) = 0
    rw [Nat.mul_zero, Nat.zero_sub, Nat.mul_zero]
  unfold addCopies isAdd
  dsimp only
  omega

theorem free_made (held : Stands memory ledger) {arr : ArrayFields}
    (here : memory.arrays index = some arr) :
    ∃ copied next, Makes function order memory ledger (.free index) copied next := by
  obtain ⟨done, freed, fields, settles⟩ := free_settles held here
  refine ⟨done.copied, _, ?_, stands_settled held settles, ?_⟩
  · rw [perform, fields_of_here here, ok_bind, freed, ok_bind]
  · have sum := @savings_after _ memory index done
    have nothing : saved (some done.arr) = 0 := by
      rw [fields]
      rfl
    unfold addCopies isAdd
    dsimp only
    omega

theorem resize_made (held : Stands memory ledger) {arr : ArrayFields}
    (here : memory.arrays index = some arr) (owns : arr.buf ≠ none)
    (small : arr.capacity < 2 ^ 30) :
    ∃ copied next, Makes function order memory ledger (.resize index) copied next := by
  obtain ⟨address, array, numbers, rfl, listed, found, sound, holds⟩ :=
    held_of_ne held here (fun freed => owns (by rw [freed]))
  obtain ⟨after, resized, doubles⟩ := resize_doubles sound small
  obtain ⟨done, performed, moved, _⟩ :=
    @resize_done memory.buffers ⟨some address, array.capacity, array.size⟩ _ _ _ rfl found resized
  have afterSound : Sound after := by
    have length := doubles.length
    have capacity := doubles.capacity
    have size := doubles.size
    have inside := sound.inside
    dsimp only at small
    exact ⟨by omega, by omega, by omega⟩
  have afterHolds : Holds after numbers := by
    refine ⟨afterSound.length, afterSound.inside, doubles.size.trans holds.size, ?_⟩
    have kept := congrArg (List.take array.size) doubles.kept
    rw [List.take_take, Nat.min_eq_left sound.inside, holds.content] at kept
    rw [doubles.size, kept]
  have settles := rehoused_settles here listed moved afterSound afterHolds
  refine ⟨done.copied, memory.after index done, ?_, ?_, ?_⟩
  · rw [perform, fields_of_here here, ok_bind, performed, ok_bind]
  · have stands := stands_settled held settles
    rw [Ledger.put, ← listed, Function.update_eq_self] at stands
    exact stands
  · have sum := @savings_after _ memory index done
    have less : saved (some done.arr) ≤ saved (memory.arrays index) := by
      rw [moved.arr, here]
      unfold saved
      dsimp only
      rw [doubles.size, doubles.capacity]
      unfold sizeofInt
      omega
    unfold addCopies isAdd
    dsimp only
    omega

/-- What `array_add` copies and saves: a growth spends what the elements in the
second half of the array were charged for. -/
theorem add_paid {arr after : ArrayInt} {number : Int} {copied : Nat} (sound : Sound arr)
    (appends : Appends arr number after)
    (cost : copied = if toSizeT (arr.size + 1) > arr.capacity then
      toSizeT (arr.capacity * sizeofInt) else 0) :
    copied + sizeofInt * (2 * after.size - after.capacity) ≤
      sizeofInt * (2 * arr.size - arr.capacity) + 2 * sizeofInt := by
  have bytes := sound.bytes
  have inside := sound.inside
  have product : toSizeT (arr.capacity * sizeofInt) = arr.capacity * sizeofInt := by
    unfold toSizeT sizeofInt
    omega
  have capacity := appends.capacity
  have size := appends.size
  rw [next_size sound, product] at cost
  unfold sizeofInt at cost ⊢
  by_cases full : arr.size = arr.capacity
  · rw [if_pos full] at capacity
    rw [if_pos (by omega)] at cost
    omega
  · rw [if_neg full] at capacity
    rw [if_neg (by omega)] at cost
    omega

theorem add_made {number : Int} (held : Stands memory ledger) {arr : ArrayFields}
    (here : memory.arrays index = some arr)
    (growable : arr.size = arr.capacity → 1 ≤ arr.capacity ∧ arr.capacity < 2 ^ 30) :
    ∃ copied next, Makes function order memory ledger (.add index number) copied next := by
  have owns : arr ≠ ⟨none, 0, 0⟩ := by
    intro freed
    rw [freed] at growable
    exact absurd (growable rfl).1 (by decide)
  obtain ⟨address, array, numbers, rfl, listed, found, sound, holds⟩ := held_of_ne held here owns
  obtain ⟨after, added, afterSound, appends⟩ := add_appends sound number growable
  obtain ⟨done, fresh, performed, moved, cost⟩ :=
    @add_done memory.buffers ⟨some address, array.capacity, array.size⟩ _ _ _ _ rfl found added
  have settles :=
    rehoused_settles here listed moved afterSound (appends_holds holds afterSound appends)
  refine ⟨done.copied, memory.after index done, ?_, ?_, ?_⟩
  · rw [perform, fields_of_here here, ok_bind, performed, ok_bind]
  · have stands := stands_settled held settles
    rw [Ledger.after, listed]
    exact stands
  · have sum := @savings_after _ memory index done
    have paid := add_paid sound appends cost
    rw [moved.arr, here] at sum
    change _ + sizeofInt * (2 * array.size - array.capacity) =
      _ + sizeofInt * (2 * after.size - after.capacity) at sum
    change done.copied + _ ≤ _ + 2 * sizeofInt * 1
    omega

theorem sorted_array (rearranges : Rearranges function order) {arr : ArrayInt}
    {numbers : List Int} (sound : Sound arr) (holds : Holds arr numbers) (filled : arr.size ≠ 0) :
    ∃ sorted, function arr.buf 0 (toSizeT ((arr.size : Int) - 1)) = .ok sorted ∧
      Sound ⟨sorted, arr.capacity, arr.size⟩ ∧
      Holds ⟨sorted, arr.capacity, arr.size⟩ (order numbers) := by
  have size := holds.size
  have length := rearranges.length numbers
  have nonempty : numbers ≠ [] := by
    intro none
    rw [none] at size
    exact filled size
  have parts : numbers.map some ++ arr.buf.drop arr.size = arr.buf := by
    rw [← holds.content, List.take_append_drop]
  have last : toSizeT ((arr.size : Int) - 1) = numbers.length - 1 := by
    have bytes := sound.bytes
    have inside := sound.inside
    unfold toSizeT
    omega
  have sorted := rearranges.sorts numbers (arr.buf.drop arr.size) nonempty
  rw [parts, ← last] at sorted
  have whole : ((order numbers).map some ++ arr.buf.drop arr.size).length = arr.capacity := by
    have before := congrArg List.length parts
    rw [List.length_append, List.length_map, sound.length] at before
    rw [List.length_append, List.length_map, length, before]
  refine ⟨_, sorted, ⟨whole, sound.bytes, sound.inside⟩, whole, sound.inside,
    size.trans length.symm, ?_⟩
  apply List.take_left'
  rw [List.length_map, length, ← size]

theorem sort_made (rearranges : Rearranges function order) (held : Stands memory ledger)
    {arr : ArrayFields} (here : memory.arrays index = some arr) (filled : arr.size ≠ 0) :
    ∃ copied next, Makes function order memory ledger (.sort index) copied next := by
  have owns : arr ≠ ⟨none, 0, 0⟩ := by
    intro freed
    rw [freed] at filled
    exact filled rfl
  obtain ⟨address, array, numbers, rfl, listed, found, sound, holds⟩ := held_of_ne held here owns
  obtain ⟨sorted, called, sortedSound, sortedHolds⟩ :=
    sorted_array rearranges sound holds filled
  let done : Done := ⟨0, ⟨some address, array.capacity, array.size⟩,
    memory.buffers.write address sorted⟩
  have moved : Rehouses memory.buffers address ⟨sorted, array.capacity, array.size⟩ done address :=
    write_rehouses found 0
  have settles := rehoused_settles here listed moved sortedSound sortedHolds
  refine ⟨done.copied, memory.after index done, ?_, ?_, ?_⟩
  · rw [perform, fields_of_here here, ok_bind, arraySort, deref_of_read rfl found, ok_bind]
    dsimp only
    rw [called]
    rfl
  · have stands := stands_settled held settles
    rw [Ledger.after, listed]
    exact stands
  · have sum := @savings_after _ memory index done
    rw [here] at sum
    change _ + saved (some done.arr) = _ at sum
    unfold addCopies isAdd
    dsimp only
    omega

theorem call_made (rearranges : Rearranges function order) (held : Stands memory ledger)
    {call : Call count} (permitted : Permitted memory call) :
    ∃ copied next, Makes function order memory ledger call copied next := by
  cases call with
  | init index size => exact init_made held permitted
  | resize index =>
      obtain ⟨arr, here, owns, small⟩ := permitted
      exact resize_made held here owns small
  | add index number =>
      obtain ⟨arr, here, growable⟩ := permitted
      exact add_made held here growable
  | sort index =>
      obtain ⟨arr, here, some⟩ := permitted
      exact sort_made rearranges held here some
  | free index =>
      obtain ⟨arr, here⟩ := permitted
      exact free_made held here

theorem stands_start : Stands (start count) ⟨fun _ => none, 0⟩ := by
  refine ⟨fun _ => .unset, ?_, ?_⟩
  · intro index other address owns
    cases owns
  · change 0 = (∑ _, 0) + 0
    rw [Finset.sum_const_zero]

theorem ledger_snoc (history : History count) (event : Event (Call count) Nat) :
    ledgerOf order (history ++ [event]) = (ledgerOf order history).after order event.call :=
  List.foldl_append

theorem stands_call (rearranges : Rearranges function order) {history : History count}
    {call : Call count} {copied : Nat} {next : Memory count}
    (held : Stands memory (ledgerOf order history)) (permitted : Permitted memory call)
    (performed : perform function memory call = .ok (copied, next)) :
    Stands next (ledgerOf order (history ++ [⟨call, copied⟩])) ∧
      addCopies ⟨call, copied⟩ + savings next ≤
        savings memory + 2 * sizeofInt * isAdd ⟨call, copied⟩ := by
  obtain ⟨_, _, made⟩ := call_made rearranges held permitted
  obtain ⟨rfl, rfl⟩ := Prod.mk.inj (Except.ok.inj (made.performed.symm.trans performed))
  rw [ledger_snoc]
  exact ⟨made.stands, made.paid⟩

end Calls

section Runs

variable {memory : Memory count} {function : Buffer → Nat → Nat → Except Halt Buffer}
  {order : List Int → List Int} {history : History count}

theorem run_stands (rearranges : Rearranges function order)
    (run : Run (perform function) (fun _ => Permitted) (start count) history memory) :
    Stands memory (ledgerOf order history) := by
  refine run_invariant (fun history memory => Stands memory (ledgerOf order history))
    stands_start ?_ run
  intro history memory call copied next held permitted performed
  exact (stands_call rearranges held permitted performed).1

/-- Arrays are lists of their own, and memory is lost by `array_init` only. -/
theorem arrays_hold_lists (rearranges : Rearranges function order)
    (run : Run (perform function) (fun _ => Permitted) (start count) history memory) :
    (∀ index, Shows memory.buffers (memory.arrays index) ((ledgerOf order history).lists index)) ∧
      (∀ index other address, pointer (memory.arrays index) = some address →
        pointer (memory.arrays other) = some address → index = other) ∧
      memory.buffers.inUse = live (ledgerOf order history) + (ledgerOf order history).lost ∧
      ∀ call, Permitted memory call → ∃ copied next,
        perform function memory call = .ok (copied, next) := by
  have stands := run_stands rearranges run
  refine ⟨stands.shows, stands.apart, stands.used, ?_⟩
  intro call permitted
  obtain ⟨copied, next, made⟩ := call_made rearranges stands permitted
  exact ⟨copied, next, made.performed⟩

/-! ## Two arrays -/

def sortRange (buffer : Buffer) (first last : Nat) : Except Halt Buffer :=
  if last < buffer.length then
    .ok (buffer.take first ++
      (((buffer.drop first).take (last + 1 - first)).insertionSort fun left right =>
        left.getD 0 ≤ right.getD 0) ++ buffer.drop (last + 1))
  else .error .outOfRange

theorem sort_range_rearranges : Rearranges sortRange (List.insertionSort (· ≤ ·)) := by
  refine ⟨fun numbers => List.length_insertionSort _ numbers, ?_⟩
  intro numbers rest nonempty
  have positive := List.length_pos_iff.mpr nonempty
  have last : numbers.length - 1 + 1 = numbers.length := Nat.sub_add_cancel positive
  have inside : numbers.length - 1 < (numbers.map some ++ rest).length := by
    rw [List.length_append, List.length_map]
    omega
  have elements : (numbers.map some ++ rest).take numbers.length = numbers.map some :=
    List.take_left' (List.length_map _)
  have others : (numbers.map some ++ rest).drop numbers.length = rest :=
    List.drop_left' (List.length_map _)
  have sorted := List.map_insertionSort (· ≤ ·)
    (fun left right : Option Int => left.getD 0 ≤ right.getD 0) some numbers
    (fun _ _ _ _ => Iff.rfl)
  rw [sortRange, if_pos inside, last, List.take_zero, List.drop_zero, Nat.sub_zero, elements,
    others, sorted, List.nil_append]

/-- The first array grows twice and is sorted, freed and begun again; the
second is begun again without having been freed. -/
def twoArrays : List (Call 2) :=
  [.init 0 1, .add 0 5, .add 0 3, .init 1 2, .add 0 4, .sort 0, .add 1 7, .free 0, .free 0,
    .init 0 4, .add 0 2, .init 1 0]

theorem two_arrays_run {wanted : History 2 → Bool}
    (found : (replay (perform sortRange) (fun _ => Permitted) twoArrays [] (start 2)).any
      (fun outcome => wanted outcome.1) = true) :
    ∃ history memory, Run (perform sortRange) (fun _ => Permitted) (start 2) history memory ∧
      wanted history = true := by
  obtain ⟨⟨history, memory⟩, replayed, holds⟩ := (Option.any_eq_true _ _).mp found
  exact ⟨history, memory, run_of_replay .start replayed, holds⟩

theorem two_arrays_hold_lists : ∃ history memory,
    Run (perform sortRange) (fun _ => Permitted) (start 2) history memory ∧
      Shows memory.buffers (memory.arrays 0) (some [2]) ∧
      Shows memory.buffers (memory.arrays 1) (some []) ∧ memory.buffers.inUse = 3 := by
  obtain ⟨history, memory, run, calls⟩ :=
    @two_arrays_run (fun history => history.map Event.call = twoArrays) (by decide +kernel)
  obtain ⟨shows, _, used, _⟩ := arrays_hold_lists sort_range_rearranges run
  have ledger : ledgerOf (List.insertionSort (· ≤ ·)) history =
      (history.map Event.call).foldl (Ledger.after (List.insertionSort (· ≤ ·)))
        ⟨fun _ => none, 0⟩ := List.foldl_map.symm
  rw [of_decide_eq_true calls] at ledger
  rw [ledger] at shows used
  exact ⟨history, memory, run, shows 0, shows 1, used⟩

/-- All growth together copies at most twice the bytes of the numbers added. -/
theorem copies_amortised (rearranges : Rearranges function order)
    (run : Run (perform function) (fun _ => Permitted) (start count) history memory) :
    total addCopies history ≤ 2 * sizeofInt * total isAdd history := by
  have nothing : savings (start count) = 0 := Finset.sum_const_zero
  have paid : total addCopies history + savings memory ≤ savings (start count) +
      total (fun event => 2 * sizeofInt * isAdd event) history := by
    refine charged_run addCopies _ savings
      (fun history memory => Stands memory (ledgerOf order history)) stands_start ?_ run
    intro history memory call copied next held permitted performed
    exact stands_call rearranges held permitted performed
  rw [nothing, Nat.zero_add, total_mul] at paid
  exact Nat.le_trans (Nat.le_add_right _ _) paid

/-- The growths of the first array copy one int and then two, for five numbers. -/
theorem two_arrays_copies : ∃ history memory,
    Run (perform sortRange) (fun _ => Permitted) (start 2) history memory ∧
      total isAdd history = 5 ∧ total addCopies history = 12 ∧
      total addCopies history ≤ 2 * sizeofInt * total isAdd history := by
  obtain ⟨history, memory, run, counted⟩ :=
    @two_arrays_run (fun history => total isAdd history = 5 ∧ total addCopies history = 12)
      (by decide +kernel)
  obtain ⟨adds, copies⟩ := of_decide_eq_true counted
  exact ⟨history, memory, run, adds, copies, copies_amortised sort_range_rearranges run⟩

end Runs

end Sysprog.Arrays.HeldLists
