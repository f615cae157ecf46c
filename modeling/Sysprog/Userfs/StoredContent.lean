import Sysprog.Userfs.CallEffects
import Mathlib.Algebra.Order.BigOperators.Group.List
import Mathlib.Tactic.Ring

/-!
# What a write stores

`allocate_block` cuts the data into pieces of `BLOCK_SIZE`, the last one of
`size % BLOCK_SIZE` bytes. The loop is followed round by round up to a closed
form of the chain and of the buffer under it, and the chain is read back.
-/

namespace Sysprog.Userfs.StoredContent

open CheckedRuns Memory Blocks CallEffects

set_option autoImplicit false

/-- How many bytes a write of `size` bytes stores: all blocks but the last
are full. -/
def storedLength (size : Nat) : Nat :=
  blockSize * (totalBlocks size - 1) + size % blockSize

def prevIndex (array : Nat) : Nat → Option BlockPointer
  | 0 => none
  | index + 1 => some ⟨array, index⟩

def builtBlock (array buffer size index : Nat) : Block where
  memory := some ⟨buffer, blockSize * index⟩
  occupied := if index + 1 < totalBlocks size then blockSize else size % blockSize
  next := if index + 1 < totalBlocks size then some ⟨array, index + 1⟩ else none
  prev := prevIndex array index

def builtBlocks (array buffer size : Nat) : List Block :=
  (List.range (totalBlocks size)).map (builtBlock array buffer size)

section Built

variable {array buffer size index : Nat}

theorem built_next (notLast : index + 1 < totalBlocks size) :
    (builtBlock array buffer size index).next = some ⟨array, index + 1⟩ := if_pos notLast

theorem built_next_last (last : ¬ index + 1 < totalBlocks size) :
    (builtBlock array buffer size index).next = none := if_neg last

theorem built_occupied (notLast : index + 1 < totalBlocks size) :
    (builtBlock array buffer size index).occupied = blockSize := if_pos notLast

theorem built_occupied_last (last : ¬ index + 1 < totalBlocks size) :
    (builtBlock array buffer size index).occupied = size % blockSize := if_neg last

theorem built_blocks_length (array buffer size : Nat) :
    (builtBlocks array buffer size).length = totalBlocks size := by
  simp [builtBlocks]

end Built

def copiedBuffer (data : List Byte) (size length : Nat) : List Byte :=
  data.take length ++ List.replicate (totalBlocks size * blockSize - length) 0

/-- The blocks after `steps` rounds: full ones, then one whose `prev` is
already set, then zeroed ones. -/
def partialBlock (array buffer size steps index : Nat) : Block :=
  if index < steps then builtBlock array buffer size index
  else if index = steps then { zeroBlock with prev := prevIndex array steps }
  else zeroBlock

structure InProgress (data : List Byte) (size array buffer steps : Nat) (loop : AllocateLoop) :
    Prop where
  ptr : loop.ptr = blockSize * steps
  memory : loop.memory = blockSize * steps
  blocks : loop.blocks = steps
  totalWritten : loop.totalWritten = blockSize * steps
  blockArray : loop.blockArray =
    (List.range (totalBlocks size)).map (partialBlock array buffer size steps)
  buffer : loop.buffer = copiedBuffer data size (blockSize * steps)
  long : blockSize * steps ≤ data.length

theorem total_blocks_pos (size : Nat) : 0 < totalBlocks size := by
  unfold totalBlocks blockSize
  split_ifs <;> omega

theorem stored_length_le_total (size : Nat) :
    storedLength size ≤ totalBlocks size * blockSize := by
  have positive := total_blocks_pos size
  have remainder : size % 8 < 8 := Nat.mod_lt _ (by decide)
  unfold storedLength blockSize
  omega

theorem allocate_rounds_succ (data : List Byte) (size array buffer steps : Nat) :
    allocateRounds data size array buffer (steps + 1) =
      (allocateRounds data size array buffer steps >>= fun loop =>
        allocateStep data array buffer (totalBlocks size) (size % blockSize) loop steps) := by
  simp only [allocateRounds, List.range_succ, List.foldlM_append]
  congr 1
  funext loop
  simp [List.foldlM]

theorem modifyBlock_ok {blockArray changed : List Block} {index : Nat} {change : Block → Block}
    (done : modifyBlock blockArray index change = .ok changed) :
    changed = blockArray.modify index change := by
  unfold modifyBlock at done
  split_ifs at done
  cases done
  rfl

theorem memcpy_ok {destination source copied : List Byte} {position start count : Nat}
    (done : memcpy destination position source start count = .ok copied) :
    start + count ≤ source.length ∧
      copied = destination.take position ++ (source.drop start).take count ++
        destination.drop (position + count) := by
  unfold memcpy at done
  split_ifs at done with inside
  cases done
  exact ⟨inside.1, rfl⟩

theorem modify_map_range {Value : Type} (count index : Nat) (entry : Nat → Value)
    (change : Value → Value) :
    ((List.range count).map entry).modify index change =
      (List.range count).map (Function.update entry index (change (entry index))) := by
  apply List.ext_getElem
  · simp
  · intro other leftBound rightBound
    simp only [List.getElem_modify, List.getElem_map, List.getElem_range]
    by_cases same : index = other
    · subst same
      simp
    · rw [if_neg same, Function.update_of_ne (Ne.symm same)]

theorem partial_block_succ (array buffer size steps : Nat) (notLast : steps + 1 < totalBlocks size) :
    Function.update
      (Function.update
        (Function.update (partialBlock array buffer size steps) steps
          { partialBlock array buffer size steps steps with
            memory := some ⟨buffer, blockSize * steps⟩ })
        steps { builtBlock array buffer size steps with prev := prevIndex array steps })
      (steps + 1)
      { partialBlock array buffer size steps (steps + 1) with prev := some ⟨array, steps⟩ } =
    partialBlock array buffer size (steps + 1) := by
  funext index
  by_cases next : index = steps + 1
  · subst next
    rw [Function.update_self]
    simp [partialBlock, prevIndex]
  · rw [Function.update_of_ne next]
    by_cases here : index = steps
    · subst here
      rw [Function.update_self]
      simp [partialBlock, builtBlock]
    · rw [Function.update_of_ne here, Function.update_of_ne here]
      by_cases below : index < steps
      · simp [partialBlock, below, Nat.lt_succ_of_lt below]
      · have above : ¬ index < steps + 1 := by omega
        simp [partialBlock, below, here, next, above]

theorem copied_buffer_extend (data : List Byte) (size length count : Nat)
    (long : length + count ≤ data.length) (room : length + count ≤ totalBlocks size * blockSize) :
    (copiedBuffer data size length).take length ++ (data.drop length).take count ++
      (copiedBuffer data size length).drop (length + count) =
      copiedBuffer data size (length + count) := by
  have front : (copiedBuffer data size length).take length = data.take length := by
    rw [copiedBuffer, List.take_append_of_le_length (by simp; omega), List.take_take]
    simp
  have back : (copiedBuffer data size length).drop (length + count) =
      List.replicate (totalBlocks size * blockSize - (length + count)) 0 := by
    have copied : (data.take length).length = length := List.length_take_of_le (by omega)
    rw [copiedBuffer, List.drop_append, List.drop_eq_nil_of_le (by omega), copied,
      List.nil_append, List.drop_replicate]
    congr 1
    omega
  rw [front, back, copiedBuffer, List.take_add]

theorem rounds_in_progress {data : List Byte} {size array buffer steps : Nat}
    {loop : AllocateLoop} (done : allocateRounds data size array buffer steps = .ok loop)
    (early : steps < totalBlocks size) : InProgress data size array buffer steps loop := by
  induction steps generalizing loop with
  | zero =>
      cases done
      constructor
      · rfl
      · rfl
      · rfl
      · rfl
      · apply List.ext_getElem
        · simp
        · intro index leftBound rightBound
          simp only [List.getElem_replicate, List.getElem_map, List.getElem_range, partialBlock]
          split_ifs <;> first | omega | rfl
      · simp [copiedBuffer]
      · simp
  | succ steps ih =>
      rw [allocate_rounds_succ] at done
      obtain ⟨before, reached, step⟩ := bind_eq_ok.mp done
      have held := ih reached (by omega)
      have notLast : steps ≠ totalBlocks size - 1 := by omega
      obtain ⟨first, firstDone, step⟩ := bind_eq_ok.mp step
      rw [if_pos notLast] at step
      obtain ⟨bytes, copied, step⟩ := bind_eq_ok.mp step
      obtain ⟨second, secondDone, step⟩ := bind_eq_ok.mp step
      obtain ⟨third, thirdDone, step⟩ := bind_eq_ok.mp step
      cases step
      have firstIs := modifyBlock_ok firstDone
      have secondIs := modifyBlock_ok secondDone
      have thirdIs := modifyBlock_ok thirdDone
      obtain ⟨long, bytesAre⟩ := memcpy_ok copied
      rw [held.ptr] at long bytesAre
      rw [held.memory, held.buffer] at bytesAre
      constructor
      · simp only [held.ptr]
        ring
      · simp only [held.memory]
        ring
      · simp only [held.blocks]
      · simp only [held.totalWritten]
        ring
      · simp only
        rw [thirdIs, secondIs, firstIs, held.blockArray, held.blocks, held.memory]
        rw [modify_map_range, modify_map_range, modify_map_range]
        congr 1
        rw [← partial_block_succ array buffer size steps early]
        simp [builtBlock, early, partialBlock, zeroBlock]
      · simp only [bytesAre]
        rw [copied_buffer_extend data size _ _ long (by unfold blockSize at *; omega)]
        congr 1
      · unfold blockSize at *
        omega

theorem last_block_built (array buffer size steps : Nat) (last : steps + 1 = totalBlocks size)
    (index : Nat) (inside : index < totalBlocks size) :
    Function.update
      (Function.update (partialBlock array buffer size steps) steps
        { partialBlock array buffer size steps steps with
          memory := some ⟨buffer, blockSize * steps⟩ })
      steps
      { partialBlock array buffer size steps steps with
        memory := some ⟨buffer, blockSize * steps⟩
        occupied := size % blockSize } index =
    builtBlock array buffer size index := by
  by_cases here : index = steps
  · subst here
    rw [Function.update_self]
    simp [partialBlock, builtBlock, zeroBlock, last]
  · rw [Function.update_of_ne here, Function.update_of_ne here]
    have below : index < steps := by omega
    simp [partialBlock, below]

/-- What `allocate_block` leaves when its loop is done. -/
structure Built (data : List Byte) (size array buffer : Nat) (loop : AllocateLoop) : Prop where
  totalWritten : loop.totalWritten = storedLength size
  lastBlock : loop.lastBlock = totalBlocks size - 1
  blockArray : loop.blockArray = builtBlocks array buffer size
  buffer : loop.buffer = copiedBuffer data size (storedLength size)
  long : storedLength size ≤ data.length

theorem rounds_built {data : List Byte} {size array buffer : Nat} {loop : AllocateLoop}
    (done : allocateRounds data size array buffer (totalBlocks size) = .ok loop) :
    Built data size array buffer loop := by
  obtain ⟨steps, last⟩ : ∃ steps, steps + 1 = totalBlocks size :=
    ⟨totalBlocks size - 1, by have positive := total_blocks_pos size; omega⟩
  have stepsLast : steps = totalBlocks size - 1 := by omega
  rw [← last, allocate_rounds_succ] at done
  obtain ⟨before, reached, step⟩ := bind_eq_ok.mp done
  have held := rounds_in_progress reached (by omega)
  obtain ⟨first, firstDone, step⟩ := bind_eq_ok.mp step
  rw [if_neg (not_not.mpr stepsLast)] at step
  obtain ⟨bytes, copied, step⟩ := bind_eq_ok.mp step
  obtain ⟨second, secondDone, step⟩ := bind_eq_ok.mp step
  cases step
  have firstIs := modifyBlock_ok firstDone
  have secondIs := modifyBlock_ok secondDone
  obtain ⟨long, bytesAre⟩ := memcpy_ok copied
  rw [held.ptr] at long bytesAre
  rw [held.memory, held.buffer] at bytesAre
  have stored : blockSize * steps + size % blockSize = storedLength size := by
    rw [storedLength, ← stepsLast]
  have room := stored_length_le_total size
  rw [stored] at long
  constructor
  · simp only [held.totalWritten, stored]
  · simp only [held.blocks, stepsLast]
  · simp only
    rw [secondIs, firstIs, held.blockArray, held.blocks, held.memory]
    rw [modify_map_range, modify_map_range, Function.update_self, builtBlocks]
    apply List.map_congr_left
    intro index member
    exact last_block_built array buffer size steps last index (List.mem_range.mp member)
  · simp only [bytesAre]
    rw [copied_buffer_extend data size _ _ (by omega) (by omega), stored]
  · exact long

def chainContent (fs : FsState) : Nat → Option BlockPointer → Except Halt (List Byte)
  | _, none => .ok []
  | 0, some _ => .error .endlessWalk
  | fuel + 1, some block => do
      let bl ← derefBlock fs (some block)
      let (source, start) ← memoryOf fs bl
      let rest ← chainContent fs fuel bl.next
      .ok ((source.drop start).take bl.occupied ++ rest)

def contentOf (fs : FsState) (file : Nat) : Except Halt (List Byte) := do
  let struct ← deref fs.files (some file)
  chainContent fs (blockCount fs) struct.blockList

structure Stores (fs : FsState) (array buffer size : Nat) (data : List Byte) : Prop where
  blockArray : fs.blockArrays.read array = some (builtBlocks array buffer size)
  buffer : fs.buffers.read buffer = some (copiedBuffer data size (storedLength size))
  long : storedLength size ≤ data.length

theorem deref_built_block {fs : FsState} {array buffer size index : Nat} {data : List Byte}
    (stores : Stores fs array buffer size data) (inside : index < totalBlocks size) :
    derefBlock fs (some ⟨array, index⟩) = .ok (builtBlock array buffer size index) := by
  have found : deref fs.blockArrays (some array) = .ok (builtBlocks array buffer size) :=
    deref_eq_ok.mpr ⟨array, rfl, stores.blockArray⟩
  have entry : (builtBlocks array buffer size)[index]? =
      some (builtBlock array buffer size index) := by
    simp [builtBlocks, inside]
  simp only [derefBlock, Option.map_some, Option.bind_some]
  rw [found]
  simp only [bind, Except.bind, entry]

theorem memory_of_built_block {fs : FsState} {array buffer size index : Nat} {data : List Byte}
    (stores : Stores fs array buffer size data) :
    memoryOf fs (builtBlock array buffer size index) =
      .ok (copiedBuffer data size (storedLength size), blockSize * index) := by
  have found : deref fs.buffers (some buffer) =
      .ok (copiedBuffer data size (storedLength size)) :=
    deref_eq_ok.mpr ⟨buffer, rfl, stores.buffer⟩
  simp only [memoryOf, builtBlock]
  rw [found]
  rfl

theorem copied_buffer_part (data : List Byte) (size length start count : Nat)
    (inside : start + count ≤ length) (long : length ≤ data.length) :
    ((copiedBuffer data size length).drop start).take count =
      ((data.take length).drop start).take count := by
  rw [copiedBuffer, List.drop_append_of_le_length (by simp; omega),
    List.take_append_of_le_length (by simp; omega)]

/-- From any of its blocks on, a stored chain holds the rest of the data. -/
theorem chain_content_from {fs : FsState} {array buffer size index fuel : Nat} {data : List Byte}
    (stores : Stores fs array buffer size data) (inside : index < totalBlocks size)
    (enough : totalBlocks size ≤ index + fuel) :
    chainContent fs fuel (some ⟨array, index⟩) =
      .ok ((data.take (storedLength size)).drop (blockSize * index)) := by
  induction fuel generalizing index with
  | zero => omega
  | succ fuel ih =>
      have step : chainContent fs (fuel + 1) (some ⟨array, index⟩) =
          (chainContent fs fuel (builtBlock array buffer size index).next >>= fun rest =>
            .ok (((copiedBuffer data size (storedLength size)).drop (blockSize * index)).take
              (builtBlock array buffer size index).occupied ++ rest)) := by
        rw [chainContent, deref_built_block stores inside]
        simp only [bind, Except.bind, memory_of_built_block stores]
      rw [step]
      by_cases notLast : index + 1 < totalBlocks size
      · have full : blockSize * index + blockSize ≤ storedLength size := by
          unfold storedLength blockSize
          omega
        rw [built_next notLast, ih notLast (by omega), built_occupied notLast,
          copied_buffer_part _ _ _ _ _ full stores.long]
        simp only [bind, Except.bind, Except.ok.injEq]
        rw [show blockSize * (index + 1) = blockSize * index + blockSize by ring,
          ← List.drop_drop, List.take_append_drop]
      · have rest : blockSize * index + size % blockSize = storedLength size := by
          have place : index = totalBlocks size - 1 := by omega
          rw [storedLength, ← place]
        rw [built_next_last notLast, built_occupied_last notLast,
          copied_buffer_part _ _ _ _ _ (by omega) stores.long]
        simp only [chainContent, bind, Except.bind, Except.ok.injEq, List.append_nil]
        apply List.take_of_length_le
        simp only [List.length_drop, List.length_take]
        omega

/-- An array that is in the heap has no more blocks than were ever
allocated, so a walk along it has enough steps. -/
theorem length_le_block_count {fs : FsState} {array : Nat} {blocks : List Block}
    (present : fs.blockArrays.read array = some blocks) : blocks.length ≤ blockCount fs := by
  have cell : fs.blockArrays.cells[array]? = some (some blocks) := by
    simpa [Heap.read, Option.join_eq_some_iff] using present
  have counted : blocks.length ∈
      fs.blockArrays.cells.map fun cell => (cell.getD []).length :=
    List.mem_map.mpr ⟨some blocks, List.mem_of_getElem? cell, rfl⟩
  exact List.le_sum_of_mem counted

theorem total_blocks_le_block_count {fs : FsState} {array buffer size : Nat} {data : List Byte}
    (stores : Stores fs array buffer size data) : totalBlocks size ≤ blockCount fs := by
  have enough := length_le_block_count stores.blockArray
  rw [built_blocks_length] at enough
  exact enough

theorem content_of_stored {fs : FsState} {file array buffer size : Nat} {data : List Byte}
    {struct : File} (present : fs.files.read file = some struct)
    (chain : struct.blockList = some ⟨array, 0⟩) (stores : Stores fs array buffer size data) :
    contentOf fs file = .ok (data.take (storedLength size)) := by
  have positive := total_blocks_pos size
  have enough := total_blocks_le_block_count stores
  have found : deref fs.files (some file) = .ok struct := deref_eq_ok.mpr ⟨file, rfl, present⟩
  rw [contentOf, found]
  simp only [bind, Except.bind, chain]
  rw [chain_content_from stores positive (by omega)]
  simp

end Sysprog.Userfs.StoredContent
