import Sysprog.Library.CheckedRuns
import Sysprog.Library.Heap
import Mathlib.Algebra.Group.Nat.Defs
import Mathlib.Algebra.Group.Int.Defs

/-!
# The memory of userfs

The static variables of `userfs.c` and the heap they point into. Structs live
in cells that keep their number after they are freed, so following a pointer
to a freed struct is an outcome of its own and not a value. What `malloc`
leaves in a new `struct file` or `struct filedesc` is a parameter.
-/

namespace Sysprog.Userfs.Memory

open CheckedRuns

set_option autoImplicit false

abbrev Byte := UInt8

/-- How a call ends when it does not return. `badPointer` is a NULL, dangling
or uninitialised pointer that is followed, `outOfRange` an access outside an
array, `endlessWalk` a list that never reaches NULL. -/
inductive Halt where
  | badPointer
  | outOfRange
  | assertionFailed
  | endlessWalk
  deriving DecidableEq

def blockSize : Nat := 8
def maxFileSize : Nat := 1024 * 1024 * 1024
def fileDescriptorCapacity : Nat := 100

/-! The values of `enum open_flags`. -/

def ufsCreate : BitVec 32 := 1
def ufsReadOnly : BitVec 32 := 2
def ufsWriteOnly : BitVec 32 := 4
def ufsReadWrite : BitVec 32 := 8

inductive UfsErrorCode where
  | noErr
  | noFile
  | noFd
  | noMem
  | notImplemented
  | noPermission
  deriving DecidableEq

def printErrMsg : UfsErrorCode → String
  | .noFile => "Error: No file\n"
  | .noMem => "Error: No memory\n"
  | .noPermission => "Error: No permission\n"
  | _ => "Error: Incorrect error number\n"

/-- Blocks are allocated as arrays, so a block is an array and a place in it. -/
structure BlockPointer where
  array : Nat
  index : Nat
  deriving DecidableEq

structure MemoryPointer where
  buffer : Nat
  offset : Nat
  deriving DecidableEq

structure Block where
  memory : Option MemoryPointer
  occupied : Nat
  next : Option BlockPointer
  prev : Option BlockPointer
  deriving DecidableEq

/-- A block as `memset(blocks, 0, ..)` leaves it. -/
def zeroBlock : Block := ⟨none, 0, none, none⟩

structure File where
  blockList : Option BlockPointer
  lastBlock : Option BlockPointer
  refs : Int
  name : Option String
  next : Option Nat
  prev : Option Nat
  deriving DecidableEq

structure Filedesc where
  file : Option Nat
  offset : Int
  mode : BitVec 32
  deriving DecidableEq

/-- What `malloc` leaves in the struct it puts at an address. -/
structure Garbage where
  file : Nat → File
  filedesc : Nat → Filedesc

/-- An entry of `file_descriptors`; `malloc` does not set the entries. -/
inductive Slot where
  | unset
  | null
  | filedesc (address : Nat)
  deriving DecidableEq

structure FsState where
  ufsErrCode : UfsErrorCode
  stderr : List String
  fileList : Option Nat
  fileDescriptors : List Slot
  fileDescriptorCount : Int
  files : Heap File
  filedescs : Heap Filedesc
  blockArrays : Heap (List Block)
  buffers : Heap (List Byte)
  deriving DecidableEq

/-- The state once `file_descriptors` points to an array of
`file_descriptor_capacity` entries. -/
def initial : FsState where
  ufsErrCode := .noErr
  stderr := []
  fileList := none
  fileDescriptors := List.replicate fileDescriptorCapacity .unset
  fileDescriptorCount := 0
  files := .empty
  filedescs := .empty
  blockArrays := .empty
  buffers := .empty

def deref {Value : Type} (heap : Heap Value) (pointer : Option Nat) : Except Halt Value :=
  match pointer with
  | none => .error .badPointer
  | some address =>
      match heap.read address with
      | none => .error .badPointer
      | some value => .ok value

theorem deref_eq_ok {Value : Type} {heap : Heap Value} {pointer : Option Nat} {value : Value} :
    deref heap pointer = .ok value ↔
      ∃ address, pointer = some address ∧ heap.read address = some value := by
  cases pointer with
  | none => simp [deref]
  | some address =>
      cases present : heap.read address <;> simp [deref, present]

theorem deref_error {Value : Type} {heap : Heap Value} {pointer : Option Nat} {halt : Halt}
    (failed : deref heap pointer = .error halt) : halt = .badPointer := by
  cases pointer with
  | none =>
      cases failed
      rfl
  | some address =>
      cases present : heap.read address with
      | none =>
          simp only [deref, present] at failed
          cases failed
          rfl
      | some value => simp [deref, present] at failed

def assign {Value : Type} (heap : Heap Value) (pointer : Option Nat) (change : Value → Value) :
    Except Halt (Heap Value) :=
  match pointer with
  | none => .error .badPointer
  | some address =>
      match heap.read address with
      | none => .error .badPointer
      | some value => .ok (heap.write address (change value))

theorem assign_eq_ok {Value : Type} {heap changed : Heap Value} {pointer : Option Nat}
    {change : Value → Value} :
    assign heap pointer change = .ok changed ↔
      ∃ address value, pointer = some address ∧ heap.read address = some value ∧
        changed = heap.write address (change value) := by
  cases pointer with
  | none => simp [assign]
  | some address =>
      cases present : heap.read address <;> simp [assign, present, eq_comm]

theorem assign_error {Value : Type} {heap : Heap Value} {pointer : Option Nat}
    {change : Value → Value} {halt : Halt} (failed : assign heap pointer change = .error halt) :
    halt = .badPointer := by
  cases pointer with
  | none =>
      cases failed
      rfl
  | some address =>
      cases present : heap.read address with
      | none =>
          simp only [assign, present] at failed
          cases failed
          rfl
      | some value => simp [assign, present] at failed

/-- `file_descriptors[fdno]`: a pointer that may be NULL. -/
def fileDescriptorAt (fs : FsState) (fdno : Int) : Except Halt (Option Nat) :=
  if 0 ≤ fdno then
    match fs.fileDescriptors[fdno.toNat]? with
    | none => .error .outOfRange
    | some .unset => .error .badPointer
    | some .null => .ok none
    | some (.filedesc address) => .ok (some address)
  else .error .outOfRange

theorem fileDescriptorAt_eq_some {fs : FsState} {fdno : Int} {address : Nat} :
    fileDescriptorAt fs fdno = .ok (some address) ↔
      0 ≤ fdno ∧ fs.fileDescriptors[fdno.toNat]? = some (.filedesc address) := by
  unfold fileDescriptorAt
  split_ifs with sign
  · rcases present : fs.fileDescriptors[fdno.toNat]? with _ | ⟨_ | _ | other⟩ <;> simp [sign]
  · simp [sign]

def fail (code : UfsErrorCode) (fs : FsState) : Int × FsState :=
  (-1, { fs with ufsErrCode := code, stderr := fs.stderr ++ [printErrMsg code] })

/-- `memcpy(destination + at, source + start, count)`. -/
def memcpy (destination : List Byte) (position : Nat) (source : List Byte) (start count : Nat) :
    Except Halt (List Byte) :=
  if start + count ≤ source.length ∧ position + count ≤ destination.length then
    .ok (destination.take position ++ (source.drop start).take count ++
      destination.drop (position + count))
  else .error .outOfRange

end Sysprog.Userfs.Memory
