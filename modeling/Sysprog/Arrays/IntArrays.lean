import Sysprog.Library.CheckedRuns
import Mathlib.Algebra.Group.Nat.Defs
import Mathlib.Algebra.Group.Int.Defs

/-!
# Growable arrays of ints

`array.c` with a `size_t` of 64 bits, an `int` of 32 and a `malloc` that does
not fail. A buffer is the list of its ints; one that was not stored since
`malloc` is `none`.
-/

namespace Sysprog.Arrays.IntArrays

open CheckedRuns

set_option autoImplicit false

/-- `outOfRange` is an access outside a buffer. -/
inductive Halt where
  | outOfRange
  deriving DecidableEq

abbrev Buffer := List (Option Int)

def sizeofInt : Nat := 4

/-- Arithmetic in `size_t` and the conversion to it. -/
def toSizeT (value : Int) : Nat := (value % 2 ^ 64).toNat

def toInt (value : Int) : Int := Int.bmod value (2 ^ 32)

structure ArrayInt where
  buf : Buffer
  capacity : Nat
  size : Nat
  deriving DecidableEq

def malloc (bytes : Nat) : Buffer := List.replicate (bytes / sizeofInt) none

def memcpy (destination source : Buffer) (bytes : Nat) : Except Halt Buffer :=
  if bytes / sizeofInt ≤ source.length ∧ bytes / sizeofInt ≤ destination.length then
    .ok (source.take (bytes / sizeofInt) ++ destination.drop (bytes / sizeofInt))
  else .error .outOfRange

def arrayInit (size : Nat) : ArrayInt where
  buf := malloc (toSizeT (size * sizeofInt))
  capacity := size
  size := 0

def newCap (arr : ArrayInt) : Int := toInt (toSizeT (arr.capacity * 2))

/-- What `array_resize` asks `malloc` for: `new_cap` is converted before it is
multiplied by a `size_t`. -/
def requested (arr : ArrayInt) : Nat := toSizeT (newCap arr * sizeofInt)

def arrayResize (arr : ArrayInt) : Except Halt ArrayInt := do
  let newBuf ← memcpy (malloc (requested arr)) arr.buf (toSizeT (arr.capacity * sizeofInt))
  .ok { arr with
    buf := newBuf
    capacity := toSizeT (newCap arr) }

def arrayAdd (arr : ArrayInt) (number : Int) : Except Halt ArrayInt := do
  let arr ← if toSizeT (arr.size + 1) > arr.capacity then arrayResize arr else .ok arr
  if arr.size < arr.buf.length then
    .ok { arr with
      buf := arr.buf.set arr.size (some number)
      size := toSizeT (arr.size + 1) }
  else .error .outOfRange

def addAll (arr : ArrayInt) (numbers : List Int) : Except Halt ArrayInt :=
  numbers.foldlM arrayAdd arr

theorem add_all_append (arr : ArrayInt) (first second : List Int) :
    addAll arr (first ++ second) = (addAll arr first >>= fun arr => addAll arr second) :=
  List.foldlM_append

theorem add_all_cons (arr : ArrayInt) (number : Int) (numbers : List Int) :
    addAll arr (number :: numbers) = (arrayAdd arr number >>= fun arr => addAll arr numbers) := rfl

theorem add_all_one (arr : ArrayInt) (number : Int) :
    addAll arr [number] = arrayAdd arr number := by
  rw [add_all_cons]
  cases arrayAdd arr number <;> rfl

/-! ## Small numbers -/

theorem to_size_t_of_lt {value : Nat} (fits : value < 2 ^ 64) : toSizeT value = value := by
  unfold toSizeT
  omega

theorem to_int_of_lt {value : Nat} (fits : value < 2 ^ 31) : toInt value = value := by
  rw [toInt, Int.bmod_def]
  omega

/-- An `int` from 2^31 on has lost its high bits or its sign. -/
theorem to_int_of_le {value : Nat} (large : 2 ^ 31 ≤ value) :
    (-2 ^ 31 ≤ toInt value ∧ toInt value < 0) ∨ (0 ≤ toInt value ∧ 2 * toInt value < value) := by
  rw [toInt, Int.bmod_def]
  omega

theorem to_size_t_to_int_ne {value : Nat} (large : 2 ^ 31 ≤ value) (fits : value < 2 ^ 63) :
    toSizeT (toInt value) ≠ value := by
  have wrapped := to_int_of_le large
  unfold toSizeT
  omega

/-- A request for the bytes of a negative number of ints is not one for the
number of ints it converts to. -/
theorem bytes_of_negative {count : Int} (negative : -2 ^ 31 ≤ count ∧ count < 0) :
    toSizeT (count * sizeofInt) / sizeofInt ≠ toSizeT count := by
  unfold toSizeT sizeofInt
  omega

theorem to_size_t_of_nonneg {value : Int} (nonneg : 0 ≤ value) (fits : value < 2 ^ 62) :
    (toSizeT value : Int) = value := by
  unfold toSizeT
  omega

theorem bytes_of_nonneg {count : Int} (nonneg : 0 ≤ count) (fits : count < 2 ^ 62) :
    toSizeT (count * sizeofInt) / sizeofInt = toSizeT count := by
  unfold toSizeT sizeofInt
  omega

attribute [irreducible] toSizeT toInt

theorem malloc_length (count : Nat) : (malloc (count * sizeofInt)).length = count := by
  rw [malloc, List.length_replicate]
  exact Nat.mul_div_cancel _ (by decide)

theorem init_length {size : Nat} :
    (arrayInit size).buf.length = size ↔ size < 2 ^ 62 := by
  simp only [arrayInit, malloc, List.length_replicate, toSizeT, sizeofInt]
  omega

end Sysprog.Arrays.IntArrays
