import Mathlib.Data.List.Basic

/-!
# An allocation heap

Cells are numbered in the order of their allocation and a number is never
used again, so a released cell stays recognisable for ever: it is below
`next` and reads as nothing.
-/

namespace Sysprog

set_option autoImplicit false

structure Heap (Value : Type*) where
  cells : List (Option Value)
  deriving DecidableEq

namespace Heap

variable {Value : Type*}

def empty : Heap Value := ⟨[]⟩

/-- The address the next allocation gets. -/
def next (heap : Heap Value) : Nat := heap.cells.length

def alloc (heap : Heap Value) (value : Value) : Heap Value := ⟨heap.cells ++ [some value]⟩

def read (heap : Heap Value) (address : Nat) : Option Value := heap.cells[address]?.join

def write (heap : Heap Value) (address : Nat) (value : Value) : Heap Value :=
  ⟨heap.cells.set address (some value)⟩

def release (heap : Heap Value) (address : Nat) : Heap Value := ⟨heap.cells.set address none⟩

@[simp] theorem next_empty : (empty : Heap Value).next = 0 := rfl

@[simp] theorem next_alloc (heap : Heap Value) (value : Value) :
    (heap.alloc value).next = heap.next + 1 := by
  simp [alloc, next]

@[simp] theorem next_write (heap : Heap Value) (address : Nat) (value : Value) :
    (heap.write address value).next = heap.next := by
  simp [write, next]

@[simp] theorem next_release (heap : Heap Value) (address : Nat) :
    (heap.release address).next = heap.next := by
  simp [release, next]

@[simp] theorem read_empty (address : Nat) : (empty : Heap Value).read address = none := by
  simp [empty, read]

theorem lt_next_of_read {heap : Heap Value} {address : Nat} {value : Value}
    (present : heap.read address = some value) : address < heap.next := by
  by_contra outside
  have absent : heap.cells[address]? = none := List.getElem?_eq_none (Nat.not_lt.mp outside)
  simp [read, absent] at present

theorem read_of_next_le {heap : Heap Value} {address : Nat} (outside : heap.next ≤ address) :
    heap.read address = none := by
  simp [read, List.getElem?_eq_none (show heap.cells.length ≤ address from outside)]

@[simp] theorem read_alloc_next (heap : Heap Value) (value : Value) :
    (heap.alloc value).read heap.next = some value := by
  simp [alloc, read, next]

theorem read_alloc_of_ne {heap : Heap Value} {address : Nat} (value : Value)
    (old : address ≠ heap.next) : (heap.alloc value).read address = heap.read address := by
  rcases Nat.lt_or_gt_of_ne old with below | above
  · simp only [read, alloc, List.getElem?_append_left below]
  · rw [read_of_next_le (Nat.le_of_lt above),
      read_of_next_le (by rw [next_alloc]; exact above)]

theorem read_alloc_of_read {heap : Heap Value} {address : Nat} {stored : Value} (value : Value)
    (present : heap.read address = some stored) :
    (heap.alloc value).read address = some stored := by
  rw [read_alloc_of_ne value (Nat.ne_of_lt (lt_next_of_read present)), present]

theorem read_write_self {heap : Heap Value} {address : Nat} (value : Value)
    (inside : address < heap.next) : (heap.write address value).read address = some value := by
  have bound : address < heap.cells.length := inside
  simp [read, write, bound]

theorem read_write_of_ne {heap : Heap Value} {address other : Nat} (value : Value)
    (different : other ≠ address) : (heap.write address value).read other = heap.read other := by
  simp [read, write, List.getElem?_set_ne (Ne.symm different)]

/-- What is read after a write over a live cell is the value written or was
there before. -/
theorem read_write_cases {heap : Heap Value} {address other : Nat} {old value now : Value}
    (present : heap.read address = some old)
    (found : (heap.write address value).read other = some now) :
    (other = address ∧ now = value) ∨ (other ≠ address ∧ heap.read other = some now) := by
  by_cases here : other = address
  · rw [here, read_write_self _ (lt_next_of_read present)] at found
    exact .inl ⟨here, (Option.some.inj found).symm⟩
  · rw [read_write_of_ne _ here] at found
    exact .inr ⟨here, found⟩

/-- A write takes no cell away. -/
theorem exists_read_write {heap : Heap Value} {address other : Nat} {old : Value} (value : Value)
    (present : heap.read other = some old) :
    ∃ now, (heap.write address value).read other = some now := by
  by_cases here : other = address
  · subst here
    exact ⟨value, read_write_self _ (lt_next_of_read present)⟩
  · exact ⟨old, by rw [read_write_of_ne _ here]; exact present⟩

@[simp] theorem read_release_self (heap : Heap Value) (address : Nat) :
    (heap.release address).read address = none := by
  by_cases bound : address < heap.cells.length
  · simp [read, release, bound]
  · exact read_of_next_le (by rw [next_release]; exact Nat.not_lt.mp bound)

theorem read_release_of_ne {heap : Heap Value} {address other : Nat}
    (different : other ≠ address) : (heap.release address).read other = heap.read other := by
  simp [read, release, List.getElem?_set_ne (Ne.symm different)]

theorem read_of_read_release {heap : Heap Value} {address other : Nat} {value : Value}
    (present : (heap.release address).read other = some value) :
    other ≠ address ∧ heap.read other = some value := by
  have different : other ≠ address := by
    intro same
    rw [same, read_release_self] at present
    cases present
  exact ⟨different, by rwa [read_release_of_ne different] at present⟩

/-! ## How many cells are in use -/

def inUse (heap : Heap Value) : Nat := heap.cells.countP Option.isSome

@[simp] theorem inUse_empty : (empty : Heap Value).inUse = 0 := rfl

@[simp] theorem inUse_alloc (heap : Heap Value) (value : Value) :
    (heap.alloc value).inUse = heap.inUse + 1 := by
  simp [alloc, inUse, List.countP_append]

theorem cell_of_read {heap : Heap Value} {address : Nat} {value : Value}
    (present : heap.read address = some value) :
    ∃ inside : address < heap.cells.length, heap.cells[address] = some value := by
  have inside := lt_next_of_read present
  refine ⟨inside, ?_⟩
  have cell : heap.cells[address]? = some heap.cells[address] := List.getElem?_eq_getElem inside
  rw [read, cell] at present
  exact present

theorem inUse_pos {heap : Heap Value} {address : Nat} {value : Value}
    (present : heap.read address = some value) : 0 < heap.inUse := by
  obtain ⟨inside, cell⟩ := cell_of_read present
  exact List.countP_pos_iff.mpr ⟨_, List.getElem_mem inside, by rw [cell]; rfl⟩

theorem inUse_write {heap : Heap Value} {address : Nat} {old : Value} (value : Value)
    (present : heap.read address = some old) : (heap.write address value).inUse = heap.inUse := by
  obtain ⟨inside, cell⟩ := cell_of_read present
  have positive := inUse_pos present
  unfold inUse at positive ⊢
  rw [write, List.countP_set inside, cell]
  simp only [Option.isSome_some, if_true]
  omega

theorem inUse_release {heap : Heap Value} {address : Nat} {old : Value}
    (present : heap.read address = some old) : (heap.release address).inUse + 1 = heap.inUse := by
  obtain ⟨inside, cell⟩ := cell_of_read present
  have positive := inUse_pos present
  unfold inUse at positive ⊢
  rw [release, List.countP_set inside, cell]
  simp only [Option.isSome_some, if_true, Option.isSome_none, Bool.false_eq_true, if_false]
  omega

theorem read_write_eq_none {heap : Heap Value} {address other : Nat} {old : Value} (value : Value)
    (present : heap.read address = some old) :
    (heap.write address value).read other = none ↔ heap.read other = none := by
  by_cases here : other = address
  · subst here
    rw [read_write_self _ (lt_next_of_read present), present]
    simp
  · rw [read_write_of_ne _ here]

end Heap

end Sysprog
