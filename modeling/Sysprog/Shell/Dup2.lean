import Sysprog.Library.DescriptorTable

/-!
# dup2 by hand

`dup2_impl` of `mydup2.c` over the descriptors of a process, and the stack it
keeps its intermediate duplicates on. The header of the stack and its elements
share one block, counted in ints, and `data` is a place in that block, so an
access through `data` can miss the elements. `malloc` does not fail here.
-/

namespace Sysprog.Shell.Dup2

open DescriptorTable

set_option autoImplicit false

/-- How a run ends that does not return: the block is used after `realloc`
moved it, an element is looked for in the header or past the block, or a loop
is not done yet. -/
inductive Halt where
  | movedBlock
  | insideHeader
  | outOfRange
  | outOfFuel
  deriving DecidableEq

/-! ## The stack -/

/-- What `malloc` and `realloc` decide: the ints a new block holds behind its
header, and whether a block moves when it is asked for again with its stack at
this capacity. -/
structure Allocator where
  garbage : Nat → Int
  moves : Nat → Bool

/-- `sizeof(Stack)` in ints: a pointer and two `size_t`. -/
def headerInts : Nat := 6

/-- `elements` are the ints of the block behind the header. -/
structure Stack where
  data : Nat
  size : Nat
  capacity : Nat
  elements : List Int
  deriving DecidableEq

def stackNew (allocator : Allocator) : Stack where
  data := headerInts
  size := 0
  capacity := 64
  elements := (List.range 64).map allocator.garbage

/-- Where `data[index]` is among the elements. -/
def elementAt (s : Stack) (index : Nat) : Except Halt Nat :=
  if s.data + index < headerInts then .error .insideHeader
  else if s.data + index - headerInts < s.elements.length then .ok (s.data + index - headerInts)
  else .error .outOfRange

/-- The growth of the block asks for room for `capacity` ints, from before it
is doubled, and points `data` at the block's start. `s` itself is not changed,
so what follows uses the old block. -/
def stackGrow (allocator : Allocator) (s : Stack) : Except Halt Stack :=
  if allocator.moves s.capacity then .error .movedBlock
  else .ok {
    data := 0
    size := s.size
    capacity := s.capacity * 2
    elements := (List.range s.capacity).map fun index =>
      s.elements.getD index (allocator.garbage index) }

def stackPush (allocator : Allocator) (s : Stack) (item : Int) : Except Halt Stack := do
  let s ← if s.size = s.capacity then stackGrow allocator s else .ok s
  let place ← elementAt s s.size
  .ok { s with size := s.size + 1, elements := s.elements.set place item }

def stackPop (s : Stack) : Except Halt (Int × Stack) := do
  let place ← elementAt s s.size
  .ok (s.elements.getD place 0, { s with size := s.size - 1 })

/-! ## The descriptors -/

def ebadf : Nat := 9
def emfile : Nat := 24

structure Descriptors (Item : Type) where
  table : Table Item
  errno : Nat
  deriving DecidableEq

variable {Item : Type}

def entry (table : Table Item) (fd : Int) : Option Item :=
  if 0 ≤ fd then lookup table fd.toNat else none

/-- The lowest free number below the limit. -/
def dup (limit : Nat) (oldfd : Int) (process : Descriptors Item) : Int × Descriptors Item :=
  match entry process.table oldfd with
  | none => (-1, { process with errno := ebadf })
  | some item =>
      if lowestFree process.table < limit then
        ((openLowest process.table item).1,
          { process with table := (openLowest process.table item).2 })
      else (-1, { process with errno := emfile })

def closeFd (fd : Int) (process : Descriptors Item) : Int × Descriptors Item :=
  match entry process.table fd with
  | none => (-1, { process with errno := ebadf })
  | some _ => (0, { process with table := close process.table fd.toNat })

/-! ## dup2_impl -/

/-- The loop that ends when `dup` gives `newfd`. -/
def searchLoop (limit : Nat) (allocator : Allocator) (oldfd newfd : Int) :
    Nat → Stack → Descriptors Item → Except Halt (Stack × Descriptors Item)
  | 0, _, _ => .error .outOfFuel
  | fuel + 1, s, process =>
      let (fd, process) := dup limit oldfd process
      if fd = newfd then .ok (s, process)
      else do
        let s ← stackPush allocator s fd
        searchLoop limit allocator oldfd newfd fuel s process

def closeLoop : Nat → Stack → Descriptors Item → Except Halt (Descriptors Item)
  | 0, _, process => .ok process
  | count + 1, s, process => do
      let (fd, s) ← stackPop s
      let (_, process) := closeFd fd process
      closeLoop count s process

def dup2Impl (limit : Nat) (allocator : Allocator) (fuel : Nat) (oldfd newfd : Int)
    (process : Descriptors Item) : Except Halt (Int × Descriptors Item) :=
  if newfd < 0 ∨ oldfd < 0 then .ok (-1, { process with errno := ebadf })
  else if oldfd = newfd then .ok (newfd, process)
  else
    let (fd, process) := dup limit oldfd process
    if fd < 0 then .ok (-1, { process with errno := ebadf })
    else
      let (_, process) := closeFd fd process
      let (closed, process) := closeFd newfd process
      if closed < 0 ∧ process.errno ≠ ebadf then .ok (-1, process)
      else do
        let (s, process) ← searchLoop limit allocator oldfd newfd fuel (stackNew allocator) process
        let process ← closeLoop s.size s process
        .ok (newfd, process)

end Sysprog.Shell.Dup2
