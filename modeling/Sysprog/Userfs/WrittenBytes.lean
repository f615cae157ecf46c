import Sysprog.Userfs.FileLifetime

/-!
# How much a write stores

A write on an open descriptor with bytes enough in its buffer always returns,
and stores the first `storedLength` bytes of it. The last block gets the
remainder of the size by `BLOCK_SIZE` and never a whole block, so a size that
is a multiple of it loses its last block of data.
-/

namespace Sysprog.Userfs.WrittenBytes

open CheckedRuns Memory Blocks Calls DescriptorNumbers StoredContent FileLifetime

set_option autoImplicit false

theorem stored_all {size : Nat} (uneven : size % blockSize ≠ 0) : storedLength size = size := by
  unfold storedLength totalBlocks blockSize at *
  split_ifs <;> omega

theorem stored_less {size : Nat} (nonempty : 1 ≤ size) (even : size % blockSize = 0) :
    storedLength size + blockSize = size := by
  unfold storedLength totalBlocks blockSize at *
  split_ifs <;> omega

theorem stored_length_le (size : Nat) : storedLength size ≤ size := by
  unfold storedLength totalBlocks blockSize
  split_ifs <;> omega

theorem modifyBlock_inside {blockArray : List Block} {index : Nat} (change : Block → Block)
    (inside : index < blockArray.length) :
    modifyBlock blockArray index change = .ok (blockArray.modify index change) :=
  if_pos inside

theorem memcpy_inside {destination source : List Byte} {position start count : Nat}
    (readable : start + count ≤ source.length) (room : position + count ≤ destination.length) :
    memcpy destination position source start count =
      .ok (destination.take position ++ (source.drop start).take count ++
        destination.drop (position + count)) :=
  if_pos ⟨readable, room⟩

section Rounds

variable {data : List Byte} {size array buffer steps : Nat} {loop : AllocateLoop}

theorem in_progress_blocks (held : InProgress data size array buffer steps loop) :
    loop.blockArray.length = totalBlocks size := by
  rw [held.blockArray]
  simp

theorem in_progress_buffer (held : InProgress data size array buffer steps loop)
    (early : steps < totalBlocks size) : loop.buffer.length = totalBlocks size * blockSize := by
  have long := held.long
  rw [held.buffer, copiedBuffer, List.length_append, List.length_take_of_le long,
    List.length_replicate]
  unfold blockSize
  omega

theorem full_round (held : InProgress data size array buffer steps loop)
    (early : steps + 1 < totalBlocks size) (long : blockSize * (steps + 1) ≤ data.length) :
    ∃ next, allocateStep data array buffer (totalBlocks size) (size % blockSize) loop steps =
      .ok next := by
  have notLast : steps ≠ totalBlocks size - 1 := by omega
  have blocks := in_progress_blocks held
  have bytes := in_progress_buffer held (by omega)
  have readable : loop.ptr + blockSize ≤ data.length := by
    rw [held.ptr]
    unfold blockSize at *
    omega
  have room : loop.memory + blockSize ≤ loop.buffer.length := by
    rw [held.memory, bytes]
    unfold blockSize at *
    omega
  dsimp only [allocateStep]
  rw [modifyBlock_inside _ (by rw [held.blocks]; omega), ok_bind, if_pos notLast,
    memcpy_inside readable room, ok_bind, modifyBlock_inside _ (by simp [held.blocks]; omega),
    ok_bind, modifyBlock_inside _ (by simp [held.blocks]; omega), ok_bind]
  exact ⟨_, rfl⟩

theorem last_round (held : InProgress data size array buffer steps loop)
    (last : steps + 1 = totalBlocks size) (long : storedLength size ≤ data.length) :
    ∃ next, allocateStep data array buffer (totalBlocks size) (size % blockSize) loop steps =
      .ok next := by
  have isLast : steps = totalBlocks size - 1 := by omega
  have blocks := in_progress_blocks held
  have bytes := in_progress_buffer held (by omega)
  have total := stored_length_le_total size
  have stored : blockSize * steps + size % blockSize = storedLength size := by
    rw [storedLength, ← isLast]
  have readable : loop.ptr + size % blockSize ≤ data.length := by
    rw [held.ptr]
    omega
  have room : loop.memory + size % blockSize ≤ loop.buffer.length := by
    rw [held.memory, bytes]
    omega
  dsimp only [allocateStep]
  rw [modifyBlock_inside _ (by rw [held.blocks]; omega), ok_bind, if_neg (not_not.mpr isLast),
    memcpy_inside readable room, ok_bind, modifyBlock_inside _ (by simp [held.blocks]; omega),
    ok_bind]
  exact ⟨_, rfl⟩

theorem rounds_reach (early : steps < totalBlocks size) (long : storedLength size ≤ data.length) :
    ∃ loop, allocateRounds data size array buffer steps = .ok loop := by
  induction steps with
  | zero => exact ⟨_, rfl⟩
  | succ steps ih =>
      obtain ⟨before, reached⟩ := ih (by omega)
      have held := rounds_in_progress reached (by omega)
      have enough : blockSize * (steps + 1) ≤ data.length := by
        unfold storedLength blockSize at *
        omega
      rw [allocate_rounds_succ, reached, ok_bind]
      exact full_round held early enough

/-- The loop of `allocate_block` finishes when the bytes to be stored are there. -/
theorem rounds_complete (data : List Byte) (size array buffer : Nat)
    (long : storedLength size ≤ data.length) :
    ∃ loop, allocateRounds data size array buffer (totalBlocks size) = .ok loop := by
  obtain ⟨steps, last⟩ : ∃ steps, steps + 1 = totalBlocks size :=
    ⟨totalBlocks size - 1, by have positive := total_blocks_pos size; omega⟩
  obtain ⟨before, reached⟩ := @rounds_reach data size array buffer steps (by omega) long
  have held := rounds_in_progress reached (by omega)
  rw [← last, allocate_rounds_succ, reached, ok_bind]
  exact last_round held last long

end Rounds

theorem file_size_from {fs : FsState} {array buffer size index fuel counted : Nat}
    {data : List Byte} (stores : Stores fs array buffer size data)
    (inside : index < totalBlocks size) (enough : totalBlocks size ≤ index + fuel) :
    fileSizeLoop fs fuel (some ⟨array, index⟩) counted =
      .ok (counted + (storedLength size - blockSize * index)) := by
  induction fuel generalizing index counted with
  | zero => omega
  | succ fuel ih =>
      rw [fileSizeLoop, deref_built_block stores inside, ok_bind]
      by_cases notLast : index + 1 < totalBlocks size
      · rw [built_next notLast, built_occupied notLast, ih notLast (by omega)]
        congr 1
        unfold storedLength blockSize
        omega
      · have place : totalBlocks size - 1 = index := by omega
        rw [built_next_last notLast, built_occupied_last notLast, fileSizeLoop, storedLength, place]
        congr 1
        omega

def OpenForWriting (fs : FsState) (fdno : Int) (file : Nat) : Prop :=
  ∃ fd desc struct, fileDescriptorAt fs fdno = .ok (some fd) ∧
    fs.filedescs.read fd = some desc ∧
    (desc.mode &&& ufsWriteOnly ≠ 0 ∨ desc.mode &&& ufsReadWrite ≠ 0) ∧
    desc.file = some file ∧ fs.files.read file = some struct

theorem file_size_of_stored {fs : FsState} {fdno : Int} {fd file array buffer size : Nat}
    {desc : Filedesc} {struct : File} {data : List Byte}
    (entry : fileDescriptorAt fs fdno = .ok (some fd))
    (descriptor : fs.filedescs.read fd = some desc) (target : desc.file = some file)
    (present : fs.files.read file = some struct) (chain : struct.blockList = some ⟨array, 0⟩)
    (stores : Stores fs array buffer size data) :
    fileSize fdno fs = .ok ((storedLength size : Int), fs) := by
  have positive := total_blocks_pos size
  have enough := total_blocks_le_block_count stores
  have found : deref fs.filedescs (some fd) = .ok desc := deref_eq_ok.mpr ⟨fd, rfl, descriptor⟩
  have opened : deref fs.files desc.file = .ok struct :=
    deref_eq_ok.mpr ⟨file, target, present⟩
  have walked : fileSizeLoop fs (blockCount fs) struct.blockList 0 = .ok (storedLength size) := by
    rw [chain, file_size_from stores positive (by omega)]
    congr 1
    omega
  simp only [fileSize, entry, ok_bind]
  rw [found, ok_bind, opened, ok_bind, walked, ok_bind]

theorem write_returns {fs : FsState} {fdno : Int} {file : Nat} {buf : List Byte} {size : Nat}
    (writable : OpenForWriting fs fdno file) (nonempty : 1 ≤ size) (bounded : size ≤ maxFileSize)
    (readable : size ≤ buf.length) :
    ∃ after, ufsWrite fdno buf size fs = .ok ((storedLength size : Int), after) ∧
      contentOf after file = .ok (buf.take (storedLength size)) ∧
      fileSize fdno after = .ok ((storedLength size : Int), after) := by
  obtain ⟨fd, desc, struct, entry, descriptor, mode, target, present⟩ := writable
  obtain ⟨loop, rounds⟩ := rounds_complete buf size fs.blockArrays.next fs.buffers.next
    (Nat.le_trans (stored_length_le size) readable)
  have built := rounds_built rounds
  have whole : ¬ maxFileSize < size := Nat.not_lt.mpr bounded
  have some_bytes : size ≠ 0 := by omega
  let after : FsState := { fs with
    files := fs.files.write file { struct with
      blockList := some ⟨fs.blockArrays.next, 0⟩
      lastBlock := some ⟨fs.blockArrays.next, loop.lastBlock⟩ }
    filedescs := fs.filedescs.write fd { desc with offset := storedLength size }
    blockArrays := fs.blockArrays.alloc loop.blockArray
    buffers := fs.buffers.alloc loop.buffer }
  have written : ufsWrite fdno buf size fs = .ok ((storedLength size : Int), after) := by
    have found : deref fs.filedescs (some fd) = .ok desc := deref_eq_ok.mpr ⟨fd, rfl, descriptor⟩
    simp only [ufsWrite, entry, ok_bind, found, if_pos mode, writeData, if_neg whole,
      allocateBlock, if_neg some_bytes, rounds, target, assign, present, built.totalWritten, after]
  have stores : Stores after fs.blockArrays.next fs.buffers.next size buf :=
    stores_of_built built rfl rfl
  have struct' : after.files.read file = some { struct with
      blockList := some ⟨fs.blockArrays.next, 0⟩
      lastBlock := some ⟨fs.blockArrays.next, loop.lastBlock⟩ } :=
    Heap.read_write_self _ (Heap.lt_next_of_read present)
  refine ⟨after, written, ?_, ?_⟩
  · exact content_of_stored struct' rfl stores
  · have moved : after.filedescs.read fd = some { desc with offset := storedLength size } :=
      Heap.read_write_self _ (Heap.lt_next_of_read descriptor)
    exact @file_size_of_stored after fdno fd file _ _ _ _ _ _ entry moved target struct' rfl stores

/-- The call returns `size`, the chain then holds the `size` bytes of the
buffer and `file_size` says so. -/
def WritesAll (fs : FsState) (fdno : Int) (file : Nat) (buf : List Byte) (size : Nat) : Prop :=
  ∃ after, ufsWrite fdno buf size fs = .ok ((size : Int), after) ∧
    contentOf after file = .ok (buf.take size) ∧
    fileSize fdno after = .ok ((size : Int), after)

/-- A write stores all its bytes exactly when its size is not a multiple of
`BLOCK_SIZE`. -/
theorem writes_all_iff_uneven {fs : FsState} {fdno : Int} {file : Nat} {buf : List Byte}
    {size : Nat} (writable : OpenForWriting fs fdno file) (nonempty : 1 ≤ size)
    (bounded : size ≤ maxFileSize) (readable : size ≤ buf.length) :
    WritesAll fs fdno file buf size ↔ size % blockSize ≠ 0 := by
  obtain ⟨after, written, content, counted⟩ :=
    write_returns writable nonempty bounded readable
  constructor
  · intro all even
    obtain ⟨other, same, _, _⟩ := all
    rw [written] at same
    have value : (storedLength size : Int) = size := (Prod.mk.inj (Except.ok.inj same)).1
    have less := stored_less nonempty even
    unfold blockSize at less
    omega
  · intro uneven
    rw [stored_all uneven] at written content counted
    exact ⟨after, written, content, counted⟩

def createdA : FsState :=
  ((ufsOpen zeroGarbage "a" (ufsCreate ||| ufsReadWrite) initial).toOption.map Prod.snd).getD
    initial

example : ufsOpen zeroGarbage "a" (ufsCreate ||| ufsReadWrite) initial = .ok (0, createdA) := rfl

theorem created_a_writable : OpenForWriting createdA 0 0 :=
  ⟨0, ⟨some 0, 0, ufsReadWrite⟩, ⟨none, none, 1, some "a", none, none⟩, by decide⟩

theorem three_bytes_written : WritesAll createdA 0 0 [1, 2, 3] 3 :=
  (writes_all_iff_uneven created_a_writable (by decide) (by decide) (by decide)).mpr (by decide)

/-- A write of eight bytes to a new file stores none of them. -/
theorem eight_bytes_lost :
    OpenForWriting createdA 0 0 ∧ ¬ WritesAll createdA 0 0 [1, 2, 3, 4, 5, 6, 7, 8] 8 ∧
      (ufsWrite 0 [1, 2, 3, 4, 5, 6, 7, 8] 8 createdA).toOption.map Prod.fst = some 0 := by
  have returned : (ufsWrite 0 [1, 2, 3, 4, 5, 6, 7, 8] 8 createdA).toOption.map Prod.fst =
      some 0 := by decide
  refine ⟨created_a_writable, ?_, returned⟩
  intro all
  obtain ⟨after, written, _⟩ := all
  rw [written] at returned
  cases returned

end Sysprog.Userfs.WrittenBytes
