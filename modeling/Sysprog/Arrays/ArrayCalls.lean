import Sysprog.Library.Heap
import Sysprog.Arrays.AddedNumbers
import Mathlib.Logic.Function.Basic

/-!
# Arrays of ints in memory

The calls of `array.c` on the array_ints of a program whose buffers share one
heap: `array_init` stores a new pointer whatever was there, `array_resize`
copies into a new buffer before it frees the old one, and `array_sort` hands
the buffer to a function of its caller.
-/

namespace Sysprog.Arrays.ArrayCalls

open CheckedRuns IntArrays

set_option autoImplicit false

/-- `invalidPointer` is the use of NULL or of a freed buffer, `uninitialised`
that of an array_int which `array_init` never stored to. -/
inductive Fault where
  | buffer (halt : Halt)
  | invalidPointer
  | uninitialised
  deriving DecidableEq

structure ArrayFields where
  buf : Option Nat
  capacity : Nat
  size : Nat
  deriving DecidableEq

structure Memory (count : Nat) where
  buffers : Heap Buffer
  arrays : Fin count → Option ArrayFields

def start (count : Nat) : Memory count where
  buffers := Heap.empty
  arrays := fun _ => none

/-- What a call leaves behind, and how many bytes it had `memcpy` move. -/
structure Done where
  copied : Nat
  arr : ArrayFields
  buffers : Heap Buffer
  deriving DecidableEq

def deref (buffers : Heap Buffer) : Option Nat → Except Fault (Nat × Buffer)
  | none => .error .invalidPointer
  | some address =>
      match buffers.read address with
      | none => .error .invalidPointer
      | some buffer => .ok (address, buffer)

def free (buffers : Heap Buffer) : Option Nat → Except Fault (Heap Buffer)
  | none => .ok buffers
  | some address =>
      match buffers.read address with
      | none => .error .invalidPointer
      | some _ => .ok (buffers.release address)

def arrayInit (size : Nat) (buffers : Heap Buffer) : Done where
  copied := 0
  arr := ⟨some buffers.next, size, 0⟩
  buffers := buffers.alloc (malloc (toSizeT (size * sizeofInt)))

def arrayResize (arr : ArrayFields) (buffers : Heap Buffer) : Except Fault Done := do
  let newCap := toInt (toSizeT (arr.capacity * 2))
  let newBuf := malloc (toSizeT (newCap * sizeofInt))
  let allocated := buffers.alloc newBuf
  let (_, old) ← deref allocated arr.buf
  let bytes := toSizeT (arr.capacity * sizeofInt)
  let filled ← (memcpy newBuf old bytes).mapError .buffer
  let kept ← free (allocated.write buffers.next filled) arr.buf
  .ok ⟨bytes, ⟨some buffers.next, toSizeT newCap, arr.size⟩, kept⟩

def storeNumber (number : Int) (done : Done) : Except Fault Done := do
  let (address, buffer) ← deref done.buffers done.arr.buf
  if done.arr.size < buffer.length then
    .ok { done with
      arr := { done.arr with size := toSizeT (done.arr.size + 1) }
      buffers := done.buffers.write address (buffer.set done.arr.size (some number)) }
  else .error (.buffer .outOfRange)

def arrayAdd (arr : ArrayFields) (number : Int) (buffers : Heap Buffer) : Except Fault Done := do
  let done ← if toSizeT (arr.size + 1) > arr.capacity then arrayResize arr buffers
    else .ok ⟨0, arr, buffers⟩
  storeNumber number done

def arrayFree (arr : ArrayFields) (buffers : Heap Buffer) : Except Fault Done := do
  let rest ← free buffers arr.buf
  .ok ⟨0, ⟨none, 0, 0⟩, rest⟩

/-- The function of the caller gets the buffer and the first and last index to
sort. On an array without elements `arr->size - 1` is 2^64 - 1. -/
def arraySort (function : Buffer → Nat → Nat → Except Halt Buffer) (arr : ArrayFields)
    (buffers : Heap Buffer) : Except Fault Done := do
  let (address, buffer) ← deref buffers arr.buf
  let sorted ← (function buffer 0 (toSizeT ((arr.size : Int) - 1))).mapError .buffer
  .ok ⟨0, arr, buffers.write address sorted⟩

inductive Call (count : Nat) where
  | init (index : Fin count) (size : Nat)
  | resize (index : Fin count)
  | add (index : Fin count) (number : Int)
  | sort (index : Fin count)
  | free (index : Fin count)
  deriving DecidableEq

variable {count : Nat}

def fieldsOf (memory : Memory count) (index : Fin count) : Except Fault ArrayFields :=
  match memory.arrays index with
  | none => .error .uninitialised
  | some arr => .ok arr

def Memory.after (memory : Memory count) (index : Fin count) (done : Done) : Memory count where
  buffers := done.buffers
  arrays := Function.update memory.arrays index (some done.arr)

def perform (function : Buffer → Nat → Nat → Except Halt Buffer) (memory : Memory count) :
    Call count → Except Fault (Nat × Memory count)
  | .init index size =>
      let done := arrayInit size memory.buffers
      .ok (done.copied, memory.after index done)
  | .resize index => do
      let done ← arrayResize (← fieldsOf memory index) memory.buffers
      .ok (done.copied, memory.after index done)
  | .add index number => do
      let done ← arrayAdd (← fieldsOf memory index) number memory.buffers
      .ok (done.copied, memory.after index done)
  | .sort index => do
      let done ← arraySort function (← fieldsOf memory index) memory.buffers
      .ok (done.copied, memory.after index done)
  | .free index => do
      let done ← arrayFree (← fieldsOf memory index) memory.buffers
      .ok (done.copied, memory.after index done)

/-- What a client has to look after: sizes that `malloc` can count, growths
that double, something to sort, and no array_int used before `array_init`. -/
def Permitted (memory : Memory count) : Call count → Prop
  | .init _ size => size < 2 ^ 62
  | .resize index => ∃ arr, memory.arrays index = some arr ∧
      arr.buf ≠ none ∧ arr.capacity < 2 ^ 30
  | .add index _ => ∃ arr, memory.arrays index = some arr ∧
      (arr.size = arr.capacity → 1 ≤ arr.capacity ∧ arr.capacity < 2 ^ 30)
  | .sort index => ∃ arr, memory.arrays index = some arr ∧ arr.size ≠ 0
  | .free index => ∃ arr, memory.arrays index = some arr

def decidableFields (memory : Memory count) (index : Fin count) (demand : ArrayFields → Prop)
    [DecidablePred demand] : Decidable (∃ arr, memory.arrays index = some arr ∧ demand arr) :=
  decidable_of_iff ((memory.arrays index).any (fun arr => decide (demand arr)) = true) (by
    simp [Option.any_eq_true])

instance decidablePermitted (memory : Memory count) :
    (call : Call count) → Decidable (Permitted memory call)
  | .init _ size => inferInstanceAs (Decidable (size < 2 ^ 62))
  | .resize index => decidableFields memory index fun arr => arr.buf ≠ none ∧ arr.capacity < 2 ^ 30
  | .add index _ => decidableFields memory index fun arr =>
      arr.size = arr.capacity → 1 ≤ arr.capacity ∧ arr.capacity < 2 ^ 30
  | .sort index => decidableFields memory index fun arr => arr.size ≠ 0
  | .free index => decidable_of_iff ((memory.arrays index).isSome = true) Option.isSome_iff_exists

abbrev History (count : Nat) := List (Event (Call count) Nat)

/-! ## The calls on one buffer -/

/-- The array_int with its buffer in place of the pointer. -/
def loaded (arr : ArrayFields) (buffer : Buffer) : ArrayInt := ⟨buffer, arr.capacity, arr.size⟩

/-- A call that gave the elements their place in `after.buf`, at the old
address or a fresh one, and left every other buffer alone. -/
structure Rehouses (buffers : Heap Buffer) (address : Nat) (after : ArrayInt) (done : Done)
    (fresh : Nat) : Prop where
  arr : done.arr = ⟨some fresh, after.capacity, after.size⟩
  found : done.buffers.read fresh = some after.buf
  others : ∀ other stored, other ≠ address → buffers.read other = some stored →
    other ≠ fresh ∧ done.buffers.read other = some stored
  inUse : done.buffers.inUse = buffers.inUse

section Calls

variable {buffers : Heap Buffer} {arr : ArrayFields} {address : Nat} {buffer : Buffer}
  {after : ArrayInt}

theorem deref_of_read (pointer : arr.buf = some address)
    (found : buffers.read address = some buffer) :
    deref buffers arr.buf = .ok (address, buffer) := by
  rw [pointer, deref, found]

theorem free_of_read (found : buffers.read address = some buffer) :
    free buffers (some address) = .ok (buffers.release address) := by
  rw [free, found]

theorem write_rehouses (found : buffers.read address = some buffer) (copied : Nat) :
    Rehouses buffers address after
      ⟨copied, ⟨some address, after.capacity, after.size⟩, buffers.write address after.buf⟩
      address := by
  refine ⟨rfl, Heap.read_write_self _ (Heap.lt_next_of_read found), ?_, Heap.inUse_write _ found⟩
  intro other stored different present
  exact ⟨different, (Heap.read_write_of_ne _ different).trans present⟩

theorem replaced_rehouses (found : buffers.read address = some buffer) (made : Buffer)
    (copied : Nat) :
    Rehouses buffers address after
      ⟨copied, ⟨some buffers.next, after.capacity, after.size⟩,
        ((buffers.alloc made).write buffers.next after.buf).release address⟩ buffers.next := by
  have old : address ≠ buffers.next := Nat.ne_of_lt (Heap.lt_next_of_read found)
  have new : (buffers.alloc made).read buffers.next = some made := Heap.read_alloc_next _ _
  have still : ((buffers.alloc made).write buffers.next after.buf).read address = some buffer := by
    rw [Heap.read_write_of_ne _ old]
    exact Heap.read_alloc_of_read _ found
  refine ⟨rfl, ?_, ?_, ?_⟩
  · rw [Heap.read_release_of_ne old.symm]
    exact Heap.read_write_self _ (Heap.lt_next_of_read new)
  · intro other stored different present
    have earlier : other ≠ buffers.next := Nat.ne_of_lt (Heap.lt_next_of_read present)
    refine ⟨earlier, ?_⟩
    rw [Heap.read_release_of_ne different, Heap.read_write_of_ne _ earlier]
    exact Heap.read_alloc_of_read _ present
  · have released := Heap.inUse_release still
    rw [Heap.inUse_write _ new, Heap.inUse_alloc] at released
    exact Nat.succ.inj released

/-- `array_resize` does to the buffer what it does to an array that has its
elements inside. -/
theorem resize_done (pointer : arr.buf = some address)
    (found : buffers.read address = some buffer)
    (resized : IntArrays.arrayResize (loaded arr buffer) = .ok after) :
    ∃ done, arrayResize arr buffers = .ok done ∧ Rehouses buffers address after done buffers.next ∧
      done.copied = toSizeT (arr.capacity * sizeofInt) := by
  obtain ⟨filled, copied, made⟩ := bind_eq_ok.mp resized
  cases made
  refine ⟨_, ?_, @replaced_rehouses buffers address buffer _ found
    (malloc (requested (loaded arr buffer))) (toSizeT (arr.capacity * sizeofInt)), rfl⟩
  have copies : memcpy (malloc (toSizeT (toInt (toSizeT (arr.capacity * 2)) * sizeofInt))) buffer
      (toSizeT (arr.capacity * sizeofInt)) = .ok filled := copied
  have old : address ≠ buffers.next := Nat.ne_of_lt (Heap.lt_next_of_read found)
  have stays : ∀ made, (buffers.alloc made).read address = some buffer :=
    fun made => Heap.read_alloc_of_read made found
  have still : ∀ made, ((buffers.alloc made).write buffers.next filled).read address = some buffer :=
    fun made => (Heap.read_write_of_ne _ old).trans (stays made)
  unfold arrayResize
  dsimp only
  rw [deref_of_read pointer (stays _), ok_bind]
  dsimp only
  rw [copies, pointer, Except.mapError, ok_bind, free_of_read (still _)]
  rfl

theorem rehouses_write {number : Option Int} {done : Done} {fresh : Nat} {resized : ArrayInt}
    {size : Nat} (moved : Rehouses buffers address resized done fresh) :
    Rehouses buffers address ⟨resized.buf.set resized.size number, resized.capacity, size⟩
      { done with
        arr := { done.arr with size := size }
        buffers := done.buffers.write fresh (resized.buf.set resized.size number) } fresh := by
  obtain ⟨fields, found, others, inUse⟩ := moved
  refine ⟨?_, Heap.read_write_self _ (Heap.lt_next_of_read found), ?_,
    (Heap.inUse_write _ found).trans inUse⟩
  · dsimp only
    rw [fields]
  · intro other stored different present
    obtain ⟨apart, kept⟩ := others other stored different present
    exact ⟨apart, (Heap.read_write_of_ne _ apart).trans kept⟩

/-- The store of `array_add`, once the array has been resized or not. -/
theorem store_done {number : Int} {done : Done} {fresh : Nat} {resized : ArrayInt}
    (moved : Rehouses buffers address resized done fresh)
    (inside : resized.size < resized.buf.length) :
    ∃ last, storeNumber number done = .ok last ∧ Rehouses buffers address
      ⟨resized.buf.set resized.size (some number), resized.capacity, toSizeT (resized.size + 1)⟩
      last fresh ∧ last.copied = done.copied := by
  have pointer : done.arr.buf = some fresh := by rw [moved.arr]
  have size : done.arr.size = resized.size := by rw [moved.arr]
  refine ⟨_, ?_, rehouses_write moved, rfl⟩
  rw [storeNumber, deref_of_read pointer moved.found, ok_bind]
  dsimp only
  rw [size, if_pos inside]

/-- `array_add` does to the buffer what it does to an array that has its
elements inside, and copies the elements when it needs room. -/
theorem add_done {number : Int} (pointer : arr.buf = some address)
    (found : buffers.read address = some buffer)
    (added : IntArrays.arrayAdd (loaded arr buffer) number = .ok after) :
    ∃ done fresh, arrayAdd arr number buffers = .ok done ∧
      Rehouses buffers address after done fresh ∧
      done.copied = if toSizeT (arr.size + 1) > arr.capacity then
        toSizeT (arr.capacity * sizeofInt) else 0 := by
  unfold IntArrays.arrayAdd at added
  unfold arrayAdd
  by_cases full : toSizeT (arr.size + 1) > arr.capacity
  · rw [loaded, if_pos full] at added
    obtain ⟨resized, grown, stored⟩ := bind_eq_ok.mp added
    dsimp only at stored
    split_ifs at stored with inside
    cases stored
    obtain ⟨done, performed, moved, copied⟩ := resize_done pointer found grown
    obtain ⟨last, written, rehoused, same⟩ := store_done moved inside
    refine ⟨last, _, ?_, rehoused, ?_⟩
    · rw [if_pos full, performed, ok_bind]
      exact written
    · rw [if_pos full, same, copied]
  · rw [loaded, if_neg full, ok_bind] at added
    dsimp only at added
    split_ifs at added with inside
    cases added
    have still : Rehouses buffers address (loaded arr buffer) ⟨0, arr, buffers⟩ address :=
      ⟨by rw [← pointer]; rfl, found, fun _ _ different present => ⟨different, present⟩, rfl⟩
    obtain ⟨last, written, rehoused, same⟩ := store_done still inside
    refine ⟨last, _, ?_, rehoused, ?_⟩
    · rw [if_neg full, ok_bind]
      exact written
    · rw [if_neg full, same]

end Calls

end Sysprog.Arrays.ArrayCalls
