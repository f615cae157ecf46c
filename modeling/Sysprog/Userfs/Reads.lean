import Sysprog.Userfs.WrittenBytes

/-!
# What a read returns

The loop of `read_data` is followed block by block over a stored chain. After
each block `buf` and the offset advance by what the next block holds, which is
the same as long as both blocks are full.
-/

namespace Sysprog.Userfs.Reads

open CheckedRuns Memory Blocks Calls DescriptorNumbers StoredContent WrittenBytes

set_option autoImplicit false

def occupiedAt (stored index : Nat) : Nat :=
  if index + 1 < totalBlocks stored then blockSize else stored % blockSize

/-- How far `buf` and the offset have advanced when `bl` is at a block. -/
def advanced (stored : Nat) : Nat → Nat
  | 0 => 0
  | index + 1 => blockSize * index + occupiedAt stored (index + 1)

theorem advanced_full {stored index : Nat} (notLast : index + 1 < totalBlocks stored) :
    advanced stored index = blockSize * index := by
  cases index with
  | zero => rfl
  | succ index =>
      rw [advanced, occupiedAt, if_pos notLast]
      ring

theorem advanced_last {stored index : Nat} (last : index + 1 = totalBlocks stored)
    (later : 1 ≤ index) :
    advanced stored index + blockSize = blockSize * index + stored % blockSize := by
  cases index with
  | zero => omega
  | succ index =>
      have isLast : ¬ index + 1 + 1 < totalBlocks stored := by omega
      rw [advanced, occupiedAt, if_neg isLast]
      ring

theorem advanced_le (stored index : Nat) : advanced stored index ≤ blockSize * index := by
  cases index with
  | zero => exact Nat.le_refl 0
  | succ index =>
      have occupied : occupiedAt stored (index + 1) ≤ blockSize := by
        unfold occupiedAt
        split_ifs
        · exact Nat.le_refl _
        · exact Nat.le_of_lt (Nat.mod_lt _ (by decide))
      rw [advanced]
      unfold blockSize at *
      omega

theorem copied_over (data buf : List Byte) (length start count : Nat)
    (inside : start + count ≤ length) (long : length ≤ data.length) :
    (data.take start ++ buf.drop start).take start ++ ((data.take length).drop start).take count ++
        (data.take start ++ buf.drop start).drop (start + count) =
      data.take (start + count) ++ buf.drop (start + count) := by
  have copied : (data.take start).length = start := List.length_take_of_le (by omega)
  have front : (data.take start ++ buf.drop start).take start = data.take start := by
    rw [List.take_append_of_le_length (by omega), List.take_of_length_le (by omega)]
  have back : (data.take start ++ buf.drop start).drop (start + count) =
      buf.drop (start + count) := by
    rw [List.drop_append, List.drop_eq_nil_of_le (by omega), copied, List.nil_append,
      List.drop_drop]
    congr 1
    omega
  have middle : ((data.take length).drop start).take count = (data.drop start).take count := by
    rw [List.drop_take, List.take_take, Nat.min_eq_left (by omega)]
  rw [front, back, middle, List.take_add]

section Loop

variable {fs : FsState} {array buffer stored : Nat} {data buf : List Byte} {start : Int}

/-- The locals of `read_data` when `bl` is at a block and all before it have
been copied; `start` is the offset the call began with. -/
def loopAt (array stored : Nat) (data buf : List Byte) (start : Int) (index : Nat) : ReadLoop where
  totalRead := blockSize * index
  bl := some ⟨array, index⟩
  buf := data.take (blockSize * index) ++ buf.drop (blockSize * index)
  position := advanced stored index
  offset := start + advanced stored index

theorem copied_buffer_length (stores : Stores fs array buffer stored data) :
    (copiedBuffer data stored (storedLength stored)).length = totalBlocks stored * blockSize := by
  have total := stored_length_le_total stored
  rw [copiedBuffer, List.length_append, List.length_take_of_le stores.long, List.length_replicate]
  omega

theorem loop_buffer_length {index : Nat} (long : blockSize * index ≤ data.length)
    (room : blockSize * index ≤ buf.length) :
    (loopAt array stored data buf start index).buf.length = buf.length := by
  rw [loopAt, List.length_append, List.length_take_of_le long, List.length_drop]
  omega

theorem built_occupied_at (index : Nat) :
    (builtBlock array buffer stored index).occupied = occupiedAt stored index := rfl

theorem read_round (stores : Stores fs array buffer stored data) {index more : Nat}
    (notLast : index + 1 < totalBlocks stored) (room : blockSize * (index + 1) ≤ buf.length) :
    readDataLoop fs (more + 1) (loopAt array stored data buf start index) =
      readDataLoop fs more (loopAt array stored data buf start (index + 1)) := by
  have full : occupiedAt stored index = blockSize := if_pos notLast
  have next := @built_next array buffer stored index notLast
  have place := advanced_full notLast
  have long := stores.long
  have inside : blockSize * index + blockSize ≤ storedLength stored := by
    unfold storedLength blockSize
    omega
  have total := copied_buffer_length stores
  have bytes := @loop_buffer_length array stored data buf start index (by omega)
    (by unfold blockSize at *; omega)
  have copied : memcpy (loopAt array stored data buf start index).buf (advanced stored index)
      (copiedBuffer data stored (storedLength stored)) (blockSize * index) blockSize =
        .ok (data.take (blockSize * (index + 1)) ++ buf.drop (blockSize * (index + 1))) := by
    have under := stored_length_le_total stored
    rw [memcpy_inside (by omega) (by unfold blockSize at *; omega), place,
      copied_buffer_part _ _ _ _ _ inside stores.long, loopAt,
      copied_over data buf _ _ _ inside stores.long]
    congr 1
  rw [readDataLoop]
  simp only [show (loopAt array stored data buf start index).bl = some ⟨array, index⟩ from rfl]
  rw [deref_built_block stores (by omega), ok_bind, memory_of_built_block stores, ok_bind,
    built_occupied_at, full]
  change (memcpy (loopAt array stored data buf start index).buf (advanced stored index)
      (copiedBuffer data stored (storedLength stored)) (blockSize * index) blockSize >>= _) = _
  rw [copied, ok_bind, next]
  simp only
  rw [deref_built_block stores notLast, ok_bind, built_occupied_at]
  have following : advanced stored (index + 1) =
      advanced stored index + occupiedAt stored (index + 1) := by
    rw [place]
    rfl
  congr 1
  simp only [loopAt, following, ReadLoop.mk.injEq, true_and]
  constructor
  · ring
  · push_cast
    ring

theorem read_rounds (stores : Stores fs array buffer stored data) {index : Nat} (steps more : Nat)
    (inside : index + steps < totalBlocks stored)
    (room : blockSize * (index + steps) ≤ buf.length) :
    readDataLoop fs (steps + more) (loopAt array stored data buf start index) =
      readDataLoop fs more (loopAt array stored data buf start (index + steps)) := by
  induction steps generalizing index with
  | zero => rw [Nat.zero_add, Nat.add_zero]
  | succ steps ih =>
      have earlier : blockSize * (index + 1) ≤ buf.length := by
        unfold blockSize at *
        omega
      have shifted : index + 1 + steps = index + (steps + 1) := by omega
      rw [show steps + 1 + more = (steps + more) + 1 by omega,
        read_round stores (by omega) earlier,
        ih (by omega) (by rw [shifted]; exact room), shifted]

theorem loop_at_zero : loopAt array stored data buf start 0 =
    ⟨0, some ⟨array, 0⟩, buf, 0, start⟩ := by
  simp [loopAt, advanced]

/-- The loop of a read that asks for no more whole blocks than there are
before the last one. -/
theorem loop_stops_at (stores : Stores fs array buffer stored data) {index : Nat}
    (inside : index < totalBlocks stored) (room : blockSize * index ≤ buf.length) :
    readDataLoop fs index ⟨0, some ⟨array, 0⟩, buf, 0, start⟩ =
      .ok (loopAt array stored data buf start index) := by
  have reached := @read_rounds fs array buffer stored data buf start stores 0 index 0
    (by omega) (by rw [Nat.zero_add]; exact room)
  rw [Nat.zero_add, Nat.add_zero, loop_at_zero] at reached
  rw [reached, readDataLoop]

theorem remained_copied (stores : Stores fs array buffer stored data) {index remained : Nat}
    (inside : index < totalBlocks stored) (short : remained < blockSize)
    (room : blockSize * index + remained ≤ buf.length) :
    ∃ copied, readRemained fs remained (loopAt array stored data buf start index) =
        .ok { loopAt array stored data buf start index with
          totalRead := blockSize * index + remained
          buf := copied
          offset := start + advanced stored index + remained } ∧
      (advanced stored index = blockSize * index →
        blockSize * index + remained ≤ storedLength stored →
        copied = data.take (blockSize * index + remained) ++
          buf.drop (blockSize * index + remained)) := by
  have long := stores.long
  have total := copied_buffer_length stores
  have held : blockSize * index ≤ storedLength stored := by
    unfold storedLength blockSize
    omega
  have bytes := @loop_buffer_length array stored data buf start index (by omega) (by omega)
  have behind := advanced_le stored index
  have readable : blockSize * index + remained ≤
      (copiedBuffer data stored (storedLength stored)).length := by
    rw [total]
    unfold blockSize at *
    omega
  have copies : ∃ copied, memcpy (loopAt array stored data buf start index).buf
      (advanced stored index) (copiedBuffer data stored (storedLength stored))
      (blockSize * index) remained = .ok copied ∧
      (advanced stored index = blockSize * index →
        blockSize * index + remained ≤ storedLength stored →
        copied = data.take (blockSize * index + remained) ++
          buf.drop (blockSize * index + remained)) := by
    refine ⟨_, memcpy_inside readable (by omega), ?_⟩
    intro place whole
    rw [place, copied_buffer_part _ _ _ _ _ whole stores.long, loopAt,
      copied_over data buf _ _ _ whole stores.long]
  obtain ⟨copied, copyDone, same⟩ := copies
  refine ⟨copied, ?_, same⟩
  rw [readRemained, if_pos (.inr (by simp [loopAt]))]
  simp only [show (loopAt array stored data buf start index).bl = some ⟨array, index⟩ from rfl]
  rw [deref_built_block stores inside, ok_bind, memory_of_built_block stores, ok_bind]
  change (memcpy (loopAt array stored data buf start index).buf (advanced stored index)
    (copiedBuffer data stored (storedLength stored)) (blockSize * index) remained >>= _) = _
  rw [copyDone, ok_bind]
  rfl

/-- The round over the last block leaves `bl` at NULL and the offset where it
was. -/
theorem last_block_read (stores : Stores fs array buffer stored data) {index more : Nat}
    {loop : ReadLoop} (last : index + 1 = totalBlocks stored)
    (done : readDataLoop fs (more + 1) (loopAt array stored data buf start index) = .ok loop) :
    loop.bl = none ∧ loop.totalRead = storedLength stored ∧
      loop.offset = start + advanced stored index := by
  have isLast : ¬ index + 1 < totalBlocks stored := by omega
  have place : totalBlocks stored - 1 = index := by omega
  rw [readDataLoop] at done
  simp only [show (loopAt array stored data buf start index).bl = some ⟨array, index⟩ from rfl]
    at done
  rw [deref_built_block stores (by omega), ok_bind, memory_of_built_block stores, ok_bind] at done
  obtain ⟨copied, _, rest⟩ := bind_eq_ok.mp done
  rw [built_next_last isLast, built_occupied_last isLast] at rest
  cases rest
  refine ⟨rfl, ?_, rfl⟩
  rw [storedLength, place]
  rfl

end Loop

structure OpenForReading (fs : FsState) (fdno : Int) (fd file : Nat) (desc : Filedesc) : Prop where
  entry : fileDescriptorAt fs fdno = .ok (some fd)
  descriptor : fs.filedescs.read fd = some desc
  mode : desc.mode &&& ufsReadOnly ≠ 0 ∨ desc.mode &&& ufsReadWrite ≠ 0
  target : desc.file = some file

section Calls

variable {fs : FsState} {fdno : Int} {fd file array buffer stored size : Nat} {desc : Filedesc}
  {struct : File} {data buf : List Byte}

theorem read_by_loops (readable : OpenForReading fs fdno fd file desc)
    (present : fs.files.read file = some struct) :
    ufsRead fdno buf size fs =
      (readDataLoop fs (size / blockSize) ⟨0, struct.blockList, buf, 0, desc.offset⟩ >>=
        fun loop => readRemained fs (size % blockSize) loop >>= fun loop =>
          if loop.offset = loop.totalRead then
            .ok ((loop.totalRead : Int), loop.buf, { fs with
              filedescs := fs.filedescs.write fd { desc with offset := loop.totalRead } })
          else .error .assertionFailed) := by
  have found : deref fs.filedescs (some fd) = .ok desc :=
    deref_eq_ok.mpr ⟨fd, rfl, readable.descriptor⟩
  have opened : deref fs.files desc.file = .ok struct :=
    deref_eq_ok.mpr ⟨file, readable.target, present⟩
  have inside := Heap.lt_next_of_read readable.descriptor
  simp only [ufsRead, readable.entry, ok_bind]
  rw [found, ok_bind, if_pos readable.mode]
  simp only [readData]
  rw [found, ok_bind, opened, ok_bind]
  cases looped : readDataLoop fs (size / blockSize)
      ⟨0, struct.blockList, buf, 0, desc.offset⟩ with
  | error halt => rfl
  | ok loop =>
      rw [ok_bind, ok_bind]
      cases copied : readRemained fs (size % blockSize) loop with
      | error halt => rfl
      | ok loop =>
          rw [ok_bind, ok_bind]
          split_ifs with agreed
          · simp only [ok_bind, assign, Heap.read_write_self _ inside, CallEffects.write_write]
          · rfl

/-- A read that ends before or in the last block gets to the assertion. -/
theorem read_inside (readable : OpenForReading fs fdno fd file desc)
    (present : fs.files.read file = some struct) (first : struct.blockList = some ⟨array, 0⟩)
    (stores : Stores fs array buffer stored data)
    (inside : size / blockSize < totalBlocks stored) (room : size ≤ buf.length) :
    ∃ copied after,
      ufsRead fdno buf size fs =
        (if desc.offset + advanced stored (size / blockSize) = blockSize * (size / blockSize) then
          .ok ((size : Int), copied, after) else .error .assertionFailed) ∧
      (advanced stored (size / blockSize) = blockSize * (size / blockSize) →
        size ≤ storedLength stored → copied = data.take size ++ buf.drop size) := by
  have split := Nat.div_add_mod size blockSize
  have short : size % blockSize < blockSize := Nat.mod_lt _ (by decide)
  obtain ⟨copied, remained, same⟩ := @remained_copied fs array buffer stored data buf desc.offset
    stores _ _ inside short (by rw [split]; exact room)
  rw [split] at same
  refine ⟨copied, { fs with
    filedescs := fs.filedescs.write fd { desc with offset := size } }, ?_, same⟩
  rw [read_by_loops readable present, first, loop_stops_at stores inside (by omega), ok_bind,
    remained, ok_bind]
  simp only [split]
  congr 1
  rw [eq_iff_iff]
  unfold blockSize at *
  omega

/-- A read past the last block fails: it follows NULL or the assertion. -/
theorem read_beyond (readable : OpenForReading fs fdno fd file desc)
    (present : fs.files.read file = some struct) (first : struct.blockList = some ⟨array, 0⟩)
    (stores : Stores fs array buffer stored data) (offset : desc.offset = 0)
    (nonempty : 1 ≤ storedLength stored) (beyond : totalBlocks stored ≤ size / blockSize)
    (room : size ≤ buf.length) (result : Int × List Byte × FsState) :
    ufsRead fdno buf size fs ≠ .ok result := by
  intro returned
  have positive := total_blocks_pos stored
  obtain ⟨last, isLast⟩ : ∃ last, last + 1 = totalBlocks stored :=
    ⟨totalBlocks stored - 1, by omega⟩
  obtain ⟨more, rounds⟩ : ∃ more, size / blockSize = last + (more + 1) :=
    ⟨size / blockSize - totalBlocks stored, by omega⟩
  have split := Nat.div_add_mod size blockSize
  have reached := @read_rounds fs array buffer stored data buf desc.offset stores 0 last (more + 1)
    (by omega) (by unfold blockSize at *; omega)
  rw [loop_at_zero, ← rounds, Nat.zero_add] at reached
  rw [read_by_loops readable present, first, reached] at returned
  obtain ⟨loop, looped, returned⟩ := bind_eq_ok.mp returned
  obtain ⟨null, total, stopped⟩ := last_block_read stores isLast looped
  obtain ⟨final, remained, returned⟩ := bind_eq_ok.mp returned
  unfold readRemained at remained
  split_ifs at remained with more
  · rw [null] at remained
    cases remained
  · cases remained
    split_ifs at returned with agreed
    have whole : storedLength stored = blockSize * last + stored % blockSize := by
      rw [storedLength, ← isLast, Nat.add_sub_cancel]
    rw [stopped, total, offset] at agreed
    by_cases later : 1 ≤ last
    · have behind := advanced_last isLast later
      unfold blockSize at *
      omega
    · have single : last = 0 := by omega
      subst single
      simp only [advanced] at agreed
      omega

end Calls

def BuiltFile (fs : FsState) (file : Nat) (content : List Byte) : Prop :=
  ∃ struct array buffer size data loop, fs.files.read file = some struct ∧
    struct.blockList = some ⟨array, 0⟩ ∧
    allocateRounds data size array buffer (totalBlocks size) = .ok loop ∧
    fs.blockArrays.read array = some loop.blockArray ∧
    fs.buffers.read buffer = some loop.buffer ∧ contentOf fs file = .ok content

/-- The copy after the loop takes no more than its block holds; the copies of
the loop take exactly that. -/
def CopiesWithin (fs : FsState) (file : Nat) (buf : List Byte) (size : Nat) : Prop :=
  ∀ struct loop block, fs.files.read file = some struct →
    readDataLoop fs (size / blockSize) ⟨0, struct.blockList, buf, 0, 0⟩ = .ok loop →
    derefBlock fs loop.bl = .ok block → size % blockSize ≤ block.occupied

/-- The call returns the smaller of the size and what the file holds, and puts
that much of the content at the start of the buffer. -/
def ReadsContent (fs : FsState) (fdno : Int) (file : Nat) (content buf : List Byte) (size : Nat) :
    Prop :=
  (∃ after, ufsRead fdno buf size fs = .ok (((min size content.length : Nat) : Int),
    content.take size ++ buf.drop (min size content.length), after)) ∧
  CopiesWithin fs file buf size

section Content

variable {fs : FsState} {fdno : Int} {fd file : Nat} {desc : Filedesc} {content buf : List Byte}
  {size : Nat}

theorem stored_of_built_file (built : BuiltFile fs file content) :
    ∃ struct array buffer stored data, fs.files.read file = some struct ∧
      struct.blockList = some ⟨array, 0⟩ ∧ Stores fs array buffer stored data ∧
      content = data.take (storedLength stored) := by
  obtain ⟨struct, array, buffer, stored, data, loop, present, first, rounds, blocks, bytes, holds⟩ :=
    built
  have shape := rounds_built rounds
  have stores : Stores fs array buffer stored data := by
    constructor
    · rw [blocks, shape.blockArray]
    · rw [bytes, shape.buffer]
    · exact shape.long
  have same := content_of_stored present first stores
  rw [holds] at same
  exact ⟨struct, array, buffer, stored, data, present, first, stores, Except.ok.inj same⟩

theorem built_file_of_stored {struct : File} {array buffer stored : Nat} {data : List Byte}
    (present : fs.files.read file = some struct) (first : struct.blockList = some ⟨array, 0⟩)
    (stores : Stores fs array buffer stored data) :
    BuiltFile fs file (data.take (storedLength stored)) := by
  obtain ⟨loop, rounds⟩ := rounds_complete data stored array buffer stores.long
  have shape := rounds_built rounds
  refine ⟨struct, array, buffer, stored, data, loop, present, first, rounds, ?_, ?_, ?_⟩
  · rw [shape.blockArray]
    exact stores.blockArray
  · rw [shape.buffer]
    exact stores.buffer
  · exact content_of_stored present first stores

theorem stored_length_parts (stored : Nat) :
    storedLength stored / blockSize + 1 = totalBlocks stored ∧
      storedLength stored % blockSize = stored % blockSize := by
  have positive := total_blocks_pos stored
  unfold storedLength blockSize
  omega

theorem advanced_agrees {stored index : Nat} (inside : index < totalBlocks stored) :
    advanced stored index = blockSize * index ↔ index + 1 < totalBlocks stored ∨ index = 0 := by
  constructor
  · intro agreed
    by_contra neither
    rw [not_or] at neither
    have behind := @advanced_last stored index (by omega) (by omega)
    have short : stored % blockSize < blockSize := Nat.mod_lt _ (by decide)
    omega
  · intro either
    cases either with
    | inl notLast => exact advanced_full notLast
    | inr first =>
        subst first
        rfl

theorem rest_in_block {array buffer stored : Nat} {data : List Byte} {start : Int}
    {loop : ReadLoop} {block : Block} (stores : Stores fs array buffer stored data)
    (inside : size / blockSize < totalBlocks stored)
    (whole : size ≤ storedLength stored) (room : size ≤ buf.length)
    (looped : readDataLoop fs (size / blockSize) ⟨0, some ⟨array, 0⟩, buf, 0, start⟩ = .ok loop)
    (found : derefBlock fs loop.bl = .ok block) :
    size % blockSize ≤ block.occupied := by
  obtain ⟨blocks, remainder⟩ := stored_length_parts stored
  have stops := @loop_stops_at fs array buffer stored data buf start stores _ inside
    (by unfold blockSize at *; omega)
  rw [stops] at looped
  cases looped
  simp only [loopAt] at found
  rw [deref_built_block stores inside] at found
  cases found
  rw [built_occupied_at, occupiedAt]
  split_ifs with notLast
  · exact Nat.le_of_lt (Nat.mod_lt _ (by decide))
  · unfold blockSize at *
    omega

/-- A read from offset 0 returns what the file holds exactly when it ends
before the last block, or when the file has a single block and no more is
asked for than it holds. -/
theorem reads_content_iff (readable : OpenForReading fs fdno fd file desc)
    (offset : desc.offset = 0) (built : BuiltFile fs file content)
    (nonempty : 1 ≤ content.length) (room : size ≤ buf.length) :
    ReadsContent fs fdno file content buf size ↔
      size < blockSize * (content.length / blockSize) ∨
        (content.length < blockSize ∧ size ≤ content.length) := by
  obtain ⟨struct, array, buffer, stored, data, present, first, stores, holds⟩ :=
    stored_of_built_file built
  have length : content.length = storedLength stored := by
    rw [holds, List.length_take_of_le stores.long]
  obtain ⟨blocks, remainder⟩ := stored_length_parts stored
  rw [length] at nonempty ⊢
  by_cases inside : size / blockSize < totalBlocks stored
  · obtain ⟨copied, after, result, same⟩ := @read_inside fs fdno fd file array buffer stored size
      desc struct data buf readable present first stores inside room
    have agrees := advanced_agrees inside
    have passes : desc.offset + (advanced stored (size / blockSize) : Int) =
        blockSize * (size / blockSize) ↔
          size / blockSize + 1 < totalBlocks stored ∨ size / blockSize = 0 := by
      rw [← agrees, offset]
      unfold blockSize
      omega
    constructor
    · intro reads
      obtain ⟨⟨after', returned⟩, _⟩ := reads
      rw [result] at returned
      split_ifs at returned with passed
      have value : (size : Int) = (min size content.length : Nat) :=
        (Prod.mk.inj (Except.ok.inj returned)).1
      rw [length] at value
      have place := passes.mp passed
      unfold blockSize at *
      omega
    · intro condition
      have place : size / blockSize + 1 < totalBlocks stored ∨ size / blockSize = 0 := by
        unfold blockSize at *
        omega
      have whole : size ≤ storedLength stored := by
        unfold blockSize at *
        omega
      constructor
      · refine ⟨after, ?_⟩
        rw [result, if_pos (passes.mpr place), same (agrees.mpr place) whole, length,
          Nat.min_eq_left whole, holds, List.take_take, Nat.min_eq_left whole]
      · intro struct' loop block present' looped found
        rw [present] at present'
        cases present'
        rw [first] at looped
        exact rest_in_block stores inside whole room looped found
  · have fails := fun result => @read_beyond fs fdno fd file array buffer stored size desc struct
      data buf readable present first stores offset nonempty (Nat.not_lt.mp inside) room result
    apply iff_of_false
    · intro reads
      obtain ⟨⟨after, returned⟩, _⟩ := reads
      exact fails _ returned
    · unfold blockSize at *
      omega

end Content

def twentyBytes : List Byte :=
  [0, 1, 2, 3, 4, 5, 6, 7, 8, 9, 10, 11, 12, 13, 14, 15, 16, 17, 18, 19]

def twentyWritten : FsState :=
  ((replay (perform zeroGarbage) ClientCalls
    [.open "a" (ufsCreate ||| ufsReadWrite), .open "a" ufsReadOnly, .write 0 twentyBytes 20]
    [] initial).map Prod.snd).getD initial

theorem twenty_readable : OpenForReading twentyWritten 1 1 0 ⟨some 0, 0, ufsReadOnly⟩ := by
  constructor <;> decide

theorem twenty_built : BuiltFile twentyWritten 0 twentyBytes := by
  have stores : Stores twentyWritten 0 0 20 twentyBytes := by
    constructor <;> decide
  have built := @built_file_of_stored twentyWritten 0
    ⟨some ⟨0, 0⟩, some ⟨0, 2⟩, 2, some "a", none, none⟩ 0 0 20 twentyBytes (by decide) rfl stores
  have whole : twentyBytes.take (storedLength 20) = twentyBytes := by decide
  rw [whole] at built
  exact built

theorem twelve_of_twenty_read :
    ReadsContent twentyWritten 1 0 twentyBytes (List.replicate 12 0) 12 :=
  (reads_content_iff twenty_readable rfl twenty_built (by decide) (by decide)).mpr (by decide)

/-- Reading all twenty bytes fails the assertion, and asking for thirty
follows NULL. -/
theorem twenty_of_twenty_fails :
    OpenForReading twentyWritten 1 1 0 ⟨some 0, 0, ufsReadOnly⟩ ∧
      BuiltFile twentyWritten 0 twentyBytes ∧
      ¬ ReadsContent twentyWritten 1 0 twentyBytes (List.replicate 20 0) 20 ∧
      (ufsRead 1 (List.replicate 30 0) 30 twentyWritten).toOption = none := by
  have failed : (ufsRead 1 (List.replicate 20 0) 20 twentyWritten).toOption = none := by decide
  refine ⟨twenty_readable, twenty_built, ?_, by decide⟩
  intro reads
  obtain ⟨⟨after, returned⟩, _⟩ := reads
  rw [returned] at failed
  cases failed

end Sysprog.Userfs.Reads
