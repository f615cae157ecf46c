import Sysprog.Userfs.Memory
import Mathlib.Algebra.Ring.Nat

/-!
# Block chains

`allocate_block`, `deallocate_block`, `write_data`, `read_data` and the size
loop of `file_size`. The two areas `allocate_block` mallocs are known only to
its own locals until it returns, so the loop carries them as values and the
heap takes them over at the end.
-/

namespace Sysprog.Userfs.Blocks

open Memory

set_option autoImplicit false

/-- The locals of `allocate_block` that its loop changes: `blocks` is the
place of the block now written, `memory` and `ptr` are offsets. -/
structure AllocateLoop where
  ptr : Nat
  memory : Nat
  blocks : Nat
  totalWritten : Nat
  lastBlock : Nat
  blockArray : List Block
  buffer : List Byte

def modifyBlock (blockArray : List Block) (index : Nat) (change : Block → Block) :
    Except Halt (List Block) :=
  if index < blockArray.length then .ok (blockArray.modify index change) else .error .outOfRange

/-- The body of the loop for one `b`. -/
def allocateStep (data : List Byte) (array buffer totalBlocks memBlockRemained : Nat)
    (loop : AllocateLoop) (b : Nat) : Except Halt AllocateLoop := do
  let bl := loop.blocks
  let blockArray ← modifyBlock loop.blockArray bl
    fun block => { block with memory := some ⟨buffer, loop.memory⟩ }
  if b ≠ totalBlocks - 1 then
    let bytes ← memcpy loop.buffer loop.memory data loop.ptr blockSize
    let blockArray ← modifyBlock blockArray bl
      fun block => { block with occupied := blockSize, next := some ⟨array, bl + 1⟩ }
    let blockArray ← modifyBlock blockArray (bl + 1)
      fun block => { block with prev := some ⟨array, bl⟩ }
    .ok {
      ptr := loop.ptr + blockSize
      memory := loop.memory + blockSize
      blocks := bl + 1
      totalWritten := loop.totalWritten + blockSize
      lastBlock := bl
      blockArray := blockArray
      buffer := bytes }
  else
    let bytes ← memcpy loop.buffer loop.memory data loop.ptr memBlockRemained
    let blockArray ← modifyBlock blockArray bl
      fun block => { block with occupied := memBlockRemained }
    .ok {
      ptr := loop.ptr + memBlockRemained
      memory := loop.memory
      blocks := bl
      totalWritten := loop.totalWritten + memBlockRemained
      lastBlock := bl
      blockArray := blockArray
      buffer := bytes }

def totalBlocks (size : Nat) : Nat :=
  if blockSize < size then
    if 0 < size % blockSize then size / blockSize + 1 else size / blockSize
  else 1

def allocateRounds (data : List Byte) (size array buffer steps : Nat) :
    Except Halt AllocateLoop :=
  (List.range steps).foldlM
    (allocateStep data array buffer (totalBlocks size) (size % blockSize))
    { ptr := 0
      memory := 0
      blocks := 0
      totalWritten := 0
      lastBlock := 0
      blockArray := List.replicate (totalBlocks size) zeroBlock
      buffer := List.replicate (totalBlocks size * blockSize) 0 }

structure Allocated where
  totalWritten : Nat
  firstBlock : BlockPointer
  lastBlock : BlockPointer

def allocateBlock (data : List Byte) (size : Nat) (fs : FsState) :
    Except Halt (Allocated × FsState) := do
  if size = 0 then .error .assertionFailed
  else
    let array := fs.blockArrays.next
    let buffer := fs.buffers.next
    let loop ← allocateRounds data size array buffer (totalBlocks size)
    .ok (⟨loop.totalWritten, ⟨array, 0⟩, ⟨array, loop.lastBlock⟩⟩,
      { fs with
        blockArrays := fs.blockArrays.alloc loop.blockArray
        buffers := fs.buffers.alloc loop.buffer })

def writeData (file : Option Nat) (data : List Byte) (size : Nat) (fs : FsState) :
    Except Halt (Nat × FsState) := do
  let sz := if maxFileSize < size then maxFileSize else size
  let (allocated, fs) ← allocateBlock data sz fs
  let files ← assign fs.files file fun struct => { struct with
    blockList := some allocated.firstBlock
    lastBlock := some allocated.lastBlock }
  .ok (allocated.totalWritten, { fs with files := files })

def derefBlock (fs : FsState) (pointer : Option BlockPointer) : Except Halt Block := do
  let blockArray ← deref fs.blockArrays (pointer.map BlockPointer.array)
  match pointer.bind fun block => blockArray[block.index]? with
  | none => .error .badPointer
  | some block => .ok block

def freeBuffer (pointer : Option MemoryPointer) (fs : FsState) : Except Halt FsState :=
  match pointer with
  | none => .ok fs
  | some memory => do
      let _ ← deref fs.buffers (some memory.buffer)
      if memory.offset = 0 then .ok { fs with buffers := fs.buffers.release memory.buffer }
      else .error .badPointer

def deallocateBlock (firstBlock : BlockPointer) (fs : FsState) : Except Halt FsState := do
  let block ← derefBlock fs (some firstBlock)
  let fs ← freeBuffer block.memory fs
  if firstBlock.index = 0 then
    .ok { fs with blockArrays := fs.blockArrays.release firstBlock.array }
  else .error .badPointer

/-- As many blocks as the heap has ever held: a walk that visits more of them
visits one twice and never ends. -/
def blockCount (fs : FsState) : Nat :=
  (fs.blockArrays.cells.map fun cell => (cell.getD []).length).sum

def fileSizeLoop (fs : FsState) : Nat → Option BlockPointer → Nat → Except Halt Nat
  | _, none, size => .ok size
  | 0, some _, _ => .error .endlessWalk
  | fuel + 1, some block, size => do
      let bl ← derefBlock fs (some block)
      fileSizeLoop fs fuel bl.next (size + bl.occupied)

/-- The locals of `read_data`; `position` is how far `buf` was advanced. -/
structure ReadLoop where
  totalRead : Nat
  bl : Option BlockPointer
  buf : List Byte
  position : Nat
  offset : Int

def memoryOf (fs : FsState) (block : Block) : Except Halt (List Byte × Nat) := do
  match block.memory with
  | none => .error .badPointer
  | some memory =>
      let bytes ← deref fs.buffers (some memory.buffer)
      .ok (bytes, memory.offset)

/-- The loop of `read_data`. After a block, `buf` and `fd->offset` advance by
what the next block holds, since `bl` has moved on by then. -/
def readDataLoop (fs : FsState) : Nat → ReadLoop → Except Halt ReadLoop
  | 0, loop => .ok loop
  | blockCount + 1, loop => do
      let bl ← derefBlock fs loop.bl
      let (source, start) ← memoryOf fs bl
      let buf ← memcpy loop.buf loop.position source start bl.occupied
      let loop := { loop with
        totalRead := loop.totalRead + bl.occupied
        bl := bl.next
        buf := buf }
      match bl.next with
      | none => .ok loop
      | some next =>
          let following ← derefBlock fs (some next)
          readDataLoop fs blockCount { loop with
            position := loop.position + following.occupied
            offset := loop.offset + following.occupied }

/-- The copy after the loop of `read_data`. -/
def readRemained (fs : FsState) (remained : Nat) (loop : ReadLoop) : Except Halt ReadLoop :=
  if remained ≠ 0 ∨ loop.bl ≠ none then do
    let bl ← derefBlock fs loop.bl
    let (source, start) ← memoryOf fs bl
    let buf ← memcpy loop.buf loop.position source start remained
    .ok { loop with
      totalRead := loop.totalRead + remained
      buf := buf
      offset := loop.offset + remained }
  else .ok loop

def readData (fd : Nat) (buf : List Byte) (blockCount remained : Nat) (fs : FsState) :
    Except Halt (Nat × List Byte × FsState) := do
  let desc ← deref fs.filedescs (some fd)
  let file ← deref fs.files desc.file
  let loop ← readDataLoop fs blockCount ⟨0, file.blockList, buf, 0, desc.offset⟩
  let loop ← readRemained fs remained loop
  if loop.offset = loop.totalRead then
    .ok (loop.totalRead, loop.buf,
      { fs with filedescs := fs.filedescs.write fd { desc with offset := loop.offset } })
  else .error .assertionFailed

end Sysprog.Userfs.Blocks
