import Sysprog.Userfs.Reads
import Sysprog.Userfs.Store

/-!
# What a read answers

`ufs_read` over a stored chain, for every size and every buffer, is the
reading of the store: full blocks, a last piece, and the comparison of the
offset with the bytes read.
-/

namespace Sysprog.Userfs.ReadAnswers

open CheckedRuns Memory Blocks Calls StoredContent WrittenBytes Reads Store
open FileStore (padded putAt put fullBlocks lastPiece moved readBytes)

set_option autoImplicit false

/-! ## The chain in terms of its bytes -/

section Chain

variable {fs : FsState} {array buffer stored : Nat} {data : List Byte}

theorem advanced_eq_put_at (stored index : Nat) :
    advanced stored index = putAt (storedLength stored) index := by
  cases index with
  | zero => rfl
  | succ index =>
      obtain ⟨blocks, remainder⟩ := stored_length_parts stored
      rw [advanced, putAt, occupiedAt, remainder, ← blocks]
      congr 1
      by_cases earlier : index + 1 < storedLength stored / blockSize
      · rw [if_pos earlier, if_pos (by omega)]
      · rw [if_neg earlier, if_neg (by omega)]

theorem content_length (stores : Stores fs array buffer stored data) :
    (data.take (storedLength stored)).length = storedLength stored :=
  List.length_take_of_le stores.long

theorem copied_buffer_padded (stores : Stores fs array buffer stored data) :
    copiedBuffer data stored (storedLength stored) = padded (data.take (storedLength stored)) := by
  obtain ⟨blocks, remainder⟩ := stored_length_parts stored
  have split := Nat.div_add_mod (storedLength stored) blockSize
  rw [copiedBuffer, padded, content_length stores, ← blocks]
  congr 2
  unfold blockSize at *
  omega

end Chain

/-! ## The loop -/

section Loop

variable {fs : FsState} {array buffer stored : Nat} {data buf : List Byte} {start : Int}

theorem memcpy_outside {destination source : List Byte} {position start count : Nat}
    (short : destination.length < position + count) :
    memcpy destination position source start count = .error .outOfRange :=
  if_neg fun inside => absurd inside.2 (Nat.not_le_of_lt short)

theorem memcpy_piece (stores : Stores fs array buffer stored data) {target : List Byte}
    {position index count : Nat} (inside : index < totalBlocks stored) (short : count ≤ blockSize)
    (room : position + count ≤ target.length) :
    memcpy target position (copiedBuffer data stored (storedLength stored)) (blockSize * index)
        count =
      .ok (put target position
        (((padded (data.take (storedLength stored))).drop (blockSize * index)).take count)) := by
  have total := copied_buffer_length stores
  have readable : blockSize * index + count ≤
      (copiedBuffer data stored (storedLength stored)).length := by
    rw [total]
    unfold blockSize at *
    omega
  rw [memcpy_inside readable room, put, copied_buffer_padded stores]
  rw [copied_buffer_padded stores] at readable
  rw [List.length_take_of_le (by rw [List.length_drop]; omega)]

theorem read_round_outside (stores : Stores fs array buffer stored data) {index more : Nat}
    (notLast : index + 1 < totalBlocks stored) (before : blockSize * index ≤ buf.length)
    (short : buf.length < blockSize * (index + 1)) :
    readDataLoop fs (more + 1) (loopAt array stored data buf start index) =
      .error .outOfRange := by
  have full : occupiedAt stored index = blockSize := if_pos notLast
  have inside : blockSize * index + blockSize ≤ storedLength stored := by
    unfold storedLength blockSize
    omega
  have long := stores.long
  have bytes := @loop_buffer_length array stored data buf start index (by omega) before
  have copied : memcpy (loopAt array stored data buf start index).buf (advanced stored index)
      (copiedBuffer data stored (storedLength stored)) (blockSize * index) blockSize =
        .error .outOfRange := by
    apply memcpy_outside
    rw [bytes, advanced_full notLast]
    unfold blockSize at *
    omega
  rw [readDataLoop]
  simp only [show (loopAt array stored data buf start index).bl = some ⟨array, index⟩ from rfl]
  rw [deref_built_block stores (by omega), ok_bind, memory_of_built_block stores, ok_bind,
    built_occupied_at, full]
  change (memcpy (loopAt array stored data buf start index).buf (advanced stored index)
      (copiedBuffer data stored (storedLength stored)) (blockSize * index) blockSize >>= _) = _
  rw [copied, error_bind]

/-- The loop over full blocks alone, when the buffer is too short for them. -/
theorem read_rounds_outside (stores : Stores fs array buffer stored data) {steps more : Nat}
    (inside : steps < totalBlocks stored) (short : buf.length < blockSize * steps) :
    readDataLoop fs (steps + more) ⟨0, some ⟨array, 0⟩, buf, 0, start⟩ = .error .outOfRange := by
  obtain ⟨rest, split⟩ : ∃ rest, steps = buf.length / blockSize + (rest + 1) :=
    ⟨steps - buf.length / blockSize - 1, by unfold blockSize at *; omega⟩
  have reached := @read_rounds fs array buffer stored data buf start stores 0
    (buf.length / blockSize) (rest + 1 + more) (by omega) (by unfold blockSize; omega)
  rw [loop_at_zero, Nat.zero_add] at reached
  rw [split, show buf.length / blockSize + (rest + 1) + more =
    buf.length / blockSize + (rest + 1 + more) by omega, reached,
    show rest + 1 + more = (rest + more) + 1 by omega]
  exact read_round_outside stores (by omega) (by unfold blockSize; omega)
    (by unfold blockSize; omega)

theorem last_round_read (stores : Stores fs array buffer stored data) {index more : Nat}
    (last : index + 1 = totalBlocks stored) (before : blockSize * index ≤ buf.length) :
    readDataLoop fs (more + 1) (loopAt array stored data buf start index) =
      if buf.length < advanced stored index + stored % blockSize then .error .outOfRange
      else .ok { loopAt array stored data buf start index with
        totalRead := blockSize * index + stored % blockSize
        bl := none
        buf := put (loopAt array stored data buf start index).buf (advanced stored index)
          (((padded (data.take (storedLength stored))).drop (blockSize * index)).take
            (stored % blockSize)) } := by
  have isLast : ¬ index + 1 < totalBlocks stored := by omega
  have long := stores.long
  have held : blockSize * index ≤ storedLength stored := by
    unfold storedLength blockSize
    omega
  have bytes := @loop_buffer_length array stored data buf start index (by omega) before
  rw [readDataLoop]
  simp only [show (loopAt array stored data buf start index).bl = some ⟨array, index⟩ from rfl]
  rw [deref_built_block stores (by omega), ok_bind, memory_of_built_block stores, ok_bind,
    built_occupied_last isLast, built_next_last isLast]
  change (memcpy (loopAt array stored data buf start index).buf (advanced stored index)
    (copiedBuffer data stored (storedLength stored)) (blockSize * index) (stored % blockSize)
      >>= _) = _
  split_ifs with short
  · rw [memcpy_outside (by rw [bytes]; exact short), error_bind]
  · rw [memcpy_piece stores (by omega) (Nat.le_of_lt (Nat.mod_lt _ (by decide)))
      (by rw [bytes]; omega), ok_bind]
    rfl

theorem remained_read (stores : Stores fs array buffer stored data) {index remained : Nat}
    (inside : index < totalBlocks stored) (before : blockSize * index ≤ buf.length)
    (small : remained < blockSize) :
    readRemained fs remained (loopAt array stored data buf start index) =
      if buf.length < advanced stored index + remained then .error .outOfRange
      else .ok { loopAt array stored data buf start index with
        totalRead := blockSize * index + remained
        buf := put (loopAt array stored data buf start index).buf (advanced stored index)
          (((padded (data.take (storedLength stored))).drop (blockSize * index)).take remained)
        offset := start + advanced stored index + remained } := by
  have long := stores.long
  have held : blockSize * index ≤ storedLength stored := by
    unfold storedLength blockSize
    omega
  have bytes := @loop_buffer_length array stored data buf start index (by omega) before
  rw [readRemained, if_pos (.inr (by simp [loopAt]))]
  simp only [show (loopAt array stored data buf start index).bl = some ⟨array, index⟩ from rfl]
  rw [deref_built_block stores inside, ok_bind, memory_of_built_block stores, ok_bind]
  change (memcpy (loopAt array stored data buf start index).buf (advanced stored index)
    (copiedBuffer data stored (storedLength stored)) (blockSize * index) remained >>= _) = _
  split_ifs with short
  · rw [memcpy_outside (by rw [bytes]; exact short), error_bind]
  · rw [memcpy_piece stores inside (Nat.le_of_lt small) (by rw [bytes]; omega), ok_bind]
    rfl

end Loop

/-! ## The call -/

section Calls

variable {fs : FsState} {array buffer stored : Nat} {data : List Byte}

/-- The two parts of `read_data` up to its assertion. -/
def copyOut (fs : FsState) (buf : List Byte) (start : Int) (list : Option BlockPointer)
    (size : Nat) : Except Halt ReadLoop :=
  readDataLoop fs (size / blockSize) ⟨0, list, buf, 0, start⟩ >>= readRemained fs (size % blockSize)

theorem copy_out_inside (stores : Stores fs array buffer stored data) {buf : List Byte}
    {start : Int} {size : Nat} (inside : size / blockSize < totalBlocks stored) :
    copyOut fs buf start (some ⟨array, 0⟩) size =
      if buf.length < blockSize * (size / blockSize) ∨
          buf.length < advanced stored (size / blockSize) + size % blockSize then
        .error .outOfRange
      else .ok { loopAt array stored data buf start (size / blockSize) with
        totalRead := blockSize * (size / blockSize) + size % blockSize
        buf := put (loopAt array stored data buf start (size / blockSize)).buf
          (advanced stored (size / blockSize))
          (((padded (data.take (storedLength stored))).drop (blockSize * (size / blockSize))).take
            (size % blockSize))
        offset := start + advanced stored (size / blockSize) + (size % blockSize : Nat) } := by
  unfold copyOut
  by_cases short : buf.length < blockSize * (size / blockSize)
  · have stops := @read_rounds_outside fs array buffer stored data buf start stores
      (size / blockSize) 0 inside short
    rw [Nat.add_zero] at stops
    rw [stops, error_bind, if_pos (.inl short)]
  · have room := Nat.le_of_not_lt short
    rw [loop_stops_at stores inside room, ok_bind,
      remained_read stores inside room (Nat.mod_lt _ (by decide))]
    simp only [short, false_or]

theorem copy_out_beyond (stores : Stores fs array buffer stored data) {buf : List Byte}
    {start : Int} {size last : Nat} (isLast : last + 1 = totalBlocks stored)
    (beyond : last < size / blockSize) :
    copyOut fs buf start (some ⟨array, 0⟩) size =
      if buf.length < blockSize * last ∨
          buf.length < advanced stored last + stored % blockSize then .error .outOfRange
      else if size % blockSize ≠ 0 then .error .badPointer
      else .ok { loopAt array stored data buf start last with
        totalRead := blockSize * last + stored % blockSize
        bl := none
        buf := put (loopAt array stored data buf start last).buf (advanced stored last)
          (((padded (data.take (storedLength stored))).drop (blockSize * last)).take
            (stored % blockSize)) } := by
  obtain ⟨more, rounds⟩ : ∃ more, size / blockSize = last + (more + 1) :=
    ⟨size / blockSize - last - 1, by omega⟩
  unfold copyOut
  rw [rounds]
  by_cases short : buf.length < blockSize * last
  · rw [read_rounds_outside stores (by omega) short, error_bind, if_pos (.inl short)]
  · have room := Nat.le_of_not_lt short
    have reached := @read_rounds fs array buffer stored data buf start stores 0 last (more + 1)
      (by omega) (by rw [Nat.zero_add]; exact room)
    rw [loop_at_zero, Nat.zero_add] at reached
    rw [reached, last_round_read stores isLast room]
    simp only [short, false_or]
    split_ifs with past rest
    · rw [error_bind]
    · rw [ok_bind, readRemained, if_pos (.inl rest)]
      rfl
    · rw [ok_bind, readRemained, if_neg (by simp [rest])]

end Calls

/-- `ufs_read` through a descriptor of a stored file is the reading of the
store, with the offset set to the bytes read. -/
theorem read_answers {fs : FsState} {fdno : Int} {fd file array buffer stored size : Nat}
    {desc : Filedesc} {struct : File} {data buf : List Byte}
    (readable : OpenForReading fs fdno fd file desc)
    (present : fs.files.read file = some struct) (first : struct.blockList = some ⟨array, 0⟩)
    (stores : Stores fs array buffer stored data) :
    ufsRead fdno buf size fs =
      (readBytes (data.take (storedLength stored)) desc.offset buf size >>= fun result =>
        .ok ((result.1 : Int), result.2, { fs with
          filedescs := fs.filedescs.write fd { desc with offset := result.1 } })) := by
  obtain ⟨blocks, remainder⟩ := stored_length_parts stored
  have length := content_length stores
  have byParts : ufsRead fdno buf size fs =
      (copyOut fs buf desc.offset struct.blockList size >>= fun loop =>
        if loop.offset = loop.totalRead then
          .ok ((loop.totalRead : Int), loop.buf, { fs with
            filedescs := fs.filedescs.write fd { desc with offset := loop.totalRead } })
        else .error .assertionFailed) := by
    rw [read_by_loops readable present, copyOut]
    cases readDataLoop fs (size / blockSize) ⟨0, struct.blockList, buf, 0, desc.offset⟩ <;> rfl
  have copied : ∀ index, index ≤ storedLength stored / blockSize →
      (loopAt array stored data buf desc.offset index).buf =
        (data.take (storedLength stored)).take (blockSize * index) ++
          buf.drop (blockSize * index) := by
    intro index inside
    rw [loopAt, List.take_take, Nat.min_eq_left (by unfold blockSize at *; omega)]
  rw [byParts, first]
  simp only [readBytes]
  by_cases inside : size / blockSize < totalBlocks stored
  · have whole : size / blockSize ≤ storedLength stored / blockSize := by omega
    have notBeyond : ¬ storedLength stored / blockSize < size / blockSize := by omega
    have full : fullBlocks (data.take (storedLength stored)) size = size / blockSize := by
      rw [fullBlocks, length, Nat.min_eq_left whole]
    have piece : lastPiece (data.take (storedLength stored)) size = size % blockSize := by
      rw [lastPiece, length, if_pos whole]
    have offset : moved (data.take (storedLength stored)) size =
        advanced stored (size / blockSize) + size % blockSize := by
      rw [moved, full, length, if_pos whole, advanced_eq_put_at]
    rw [copy_out_inside stores inside, full, piece, offset, length, ← advanced_eq_put_at,
      copied _ whole]
    simp only [notBeyond, false_and, if_false]
    split_ifs with short agreed
    · rfl
    · rw [ok_bind, ok_bind, if_pos (by push_cast at agreed ⊢; omega)]
    · rw [ok_bind, if_neg (by push_cast at agreed ⊢; omega), error_bind]
  · have beyond : storedLength stored / blockSize < size / blockSize := by omega
    have notWhole : ¬ size / blockSize ≤ storedLength stored / blockSize := by omega
    have full : fullBlocks (data.take (storedLength stored)) size =
        storedLength stored / blockSize := by
      rw [fullBlocks, length, Nat.min_eq_right (Nat.le_of_lt beyond)]
    have piece : lastPiece (data.take (storedLength stored)) size = stored % blockSize := by
      rw [lastPiece, length, if_neg notWhole, remainder]
    have offset : moved (data.take (storedLength stored)) size =
        advanced stored (storedLength stored / blockSize) := by
      rw [moved, full, length, if_neg notWhole, advanced_eq_put_at, Nat.add_zero]
    rw [copy_out_beyond stores blocks beyond, full, piece, offset, length, ← advanced_eq_put_at,
      copied _ (Nat.le_refl _)]
    simp only [beyond, true_and]
    split_ifs with short rest agreed
    · rfl
    · rfl
    · rw [ok_bind, ok_bind, if_pos (by simp only [loopAt]; push_cast at agreed ⊢; omega)]
    · rw [ok_bind, if_neg (by simp only [loopAt]; push_cast at agreed ⊢; omega), error_bind]

end Sysprog.Userfs.ReadAnswers
