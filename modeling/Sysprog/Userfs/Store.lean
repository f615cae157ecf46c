import Sysprog.Userfs.SetFields

/-!
# A store of files

What `userfs.c` keeps for its clients, without pointers: files in the order of
their creation, each with its bytes, and descriptors numbered by their place.
The store says what every call gives and how it stops; a client that keeps to
`Permitted` needs to know nothing else of the file system.
-/

namespace Sysprog.Userfs.Store

open Memory Blocks Calls
open SetFields (HasMode)

set_option autoImplicit false

/-- A file without a name was deleted, one without content never written. -/
structure StoredFile where
  name : Option String
  content : Option (List Byte)
  deriving DecidableEq

structure OpenFile where
  file : Nat
  offset : Int
  mode : BitVec 32
  deriving DecidableEq

structure FileStore where
  error : UfsErrorCode
  messages : List String
  files : List StoredFile
  descriptors : List OpenFile
  deriving DecidableEq

def empty : FileStore := ⟨.noErr, [], [], []⟩

namespace FileStore

def named (store : FileStore) (filename : String) : Option Nat :=
  store.files.findIdx? fun file => file.name = some filename

def references (store : FileStore) (file : Nat) : Nat :=
  store.descriptors.countP fun descriptor => descriptor.file = file

/-- The descriptor of a number. Other numbers below the capacity lead to
nothing, the rest outside the table. -/
def opened (store : FileStore) (number : Int) : Except Halt OpenFile :=
  if 0 ≤ number ∧ number < fileDescriptorCapacity then
    match store.descriptors[number.toNat]? with
    | none => .error .badPointer
    | some descriptor => .ok descriptor
  else .error .outOfRange

def contentAt (store : FileStore) (file : Nat) : Option (List Byte) :=
  store.files[file]?.bind StoredFile.content

def refuse (code : UfsErrorCode) (store : FileStore) : Int × FileStore :=
  (-1, { store with error := code, messages := store.messages ++ [printErrMsg code] })

def install (file : Nat) (offset : Int) (flags : BitVec 32) (store : FileStore) :
    Except Halt (Int × FileStore) :=
  if store.descriptors.length < fileDescriptorCapacity then
    .ok (store.descriptors.length,
      { store with descriptors := store.descriptors ++ [⟨file, offset, openMode flags 0⟩] })
  else .error .outOfRange

/-- A second descriptor starts where the oldest one on its file is. -/
def openFile (filename : String) (flags : BitVec 32) (store : FileStore) :
    Except Halt (Int × FileStore) :=
  match store.named filename with
  | none =>
      if flags &&& ufsCreate ≠ 0 then
        install store.files.length 0 flags
          { store with files := store.files ++ [⟨some filename, none⟩] }
      else .ok (store.refuse .noFile)
  | some file =>
      if flags &&& ufsCreate ≠ 0 then .ok (store.refuse .noPermission)
      else
        match store.descriptors.find? fun descriptor => descriptor.file = file with
        | none => .error .assertionFailed
        | some oldest => store.install file oldest.offset flags

/-- A write of a multiple of the block size loses its last block. -/
def bytesKept (size : Nat) : Nat := if size % blockSize = 0 then size - blockSize else size

def write (number : Int) (buf : List Byte) (size : Nat) (store : FileStore) :
    Except Halt (Int × FileStore) := do
  let descriptor ← store.opened number
  if descriptor.mode &&& ufsWriteOnly ≠ 0 ∨ descriptor.mode &&& ufsReadWrite ≠ 0 then
    let kept := bytesKept (min size maxFileSize)
    if size = 0 then .error .assertionFailed
    else if buf.length < kept then .error .outOfRange
    else .ok (kept, { store with
      files := store.files.modify descriptor.file
        fun file => { file with content := some (buf.take kept) }
      descriptors := store.descriptors.set number.toNat { descriptor with offset := kept } })
  else .ok (store.refuse .noPermission)

def padded (content : List Byte) : List Byte :=
  content ++ List.replicate (blockSize - content.length % blockSize) 0

/-- Where a read puts a block: it moves on by what the block to come holds. -/
def putAt (length : Nat) : Nat → Nat
  | 0 => 0
  | index + 1 => blockSize * index +
      if index + 1 < length / blockSize then blockSize else length % blockSize

def put (buf : List Byte) (place : Nat) (bytes : List Byte) : List Byte :=
  buf.take place ++ bytes ++ buf.drop (place + bytes.length)

def fullBlocks (content : List Byte) (size : Nat) : Nat :=
  min (size / blockSize) (content.length / blockSize)

/-- The length of the last piece: what is asked for, or the last block. -/
def lastPiece (content : List Byte) (size : Nat) : Nat :=
  if size / blockSize ≤ content.length / blockSize then size % blockSize
  else content.length % blockSize

def moved (content : List Byte) (size : Nat) : Nat :=
  putAt content.length (fullBlocks content size) +
    if size / blockSize ≤ content.length / blockSize then size % blockSize else 0

/-- A read begins with the first byte whatever the offset is. -/
def readBytes (content : List Byte) (offset : Int) (buf : List Byte) (size : Nat) :
    Except Halt (Nat × List Byte) :=
  let full := fullBlocks content size
  let piece := lastPiece content size
  let place := putAt content.length full
  if buf.length < blockSize * full ∨ buf.length < place + piece then .error .outOfRange
  else if content.length / blockSize < size / blockSize ∧ size % blockSize ≠ 0 then
    .error .badPointer
  else if offset + moved content size = blockSize * full + piece then
    .ok (blockSize * full + piece,
      put (content.take (blockSize * full) ++ buf.drop (blockSize * full)) place
        (((padded content).drop (blockSize * full)).take piece))
  else .error .assertionFailed

def read (number : Int) (buf : List Byte) (size : Nat) (store : FileStore) :
    Except Halt (Int × List Byte × FileStore) := do
  let descriptor ← store.opened number
  if descriptor.mode &&& ufsReadOnly ≠ 0 ∨ descriptor.mode &&& ufsReadWrite ≠ 0 then
    match store.contentAt descriptor.file with
    | none => .error .badPointer
    | some content => do
        let (count, filled) ← readBytes content descriptor.offset buf size
        .ok (count, filled, { store with
          descriptors := store.descriptors.set number.toNat { descriptor with offset := count } })
  else .ok (-1, buf, (store.refuse .noPermission).2)

def close (number : Int) (store : FileStore) : Except Halt (Int × FileStore) := do
  let _ ← store.opened number
  .ok (0, { store with descriptors := store.descriptors.dropLast })

def delete (filename : String) (store : FileStore) : Except Halt (Int × FileStore) :=
  match store.named filename with
  | none => .ok (-1, store)
  | some file => .ok (0, { store with
      files := store.files.modify file fun stored => { stored with name := none } })

def size (number : Int) (store : FileStore) : Except Halt (Int × FileStore) := do
  let descriptor ← store.opened number
  match store.contentAt descriptor.file with
  | none => .error .badPointer
  | some content => .ok (content.length, store)

def perform (store : FileStore) : Call → Except Halt (Reply × FileStore)
  | .open filename flags => (fun result => (⟨result.1, []⟩, result.2)) <$>
      openFile filename flags store
  | .write fd buf size => (fun result => (⟨result.1, []⟩, result.2)) <$> write fd buf size store
  | .read fd buf size =>
      (fun result => (⟨result.1, result.2.1⟩, result.2.2)) <$> read fd buf size store
  | .close fd => (fun result => (⟨result.1, []⟩, result.2)) <$> close fd store
  | .delete filename => (fun result => (⟨result.1, []⟩, result.2)) <$> delete filename store
  | .size fd => (fun result => (⟨result.1, []⟩, result.2)) <$> size fd store

/-- The number is not open, or its file was written. -/
def Written (store : FileStore) (number : Int) : Prop :=
  match store.opened number with
  | .error _ => True
  | .ok descriptor => store.contentAt descriptor.file ≠ none

/-- The number is not open, or it is the one opened last and another one is
open on its file. -/
def Closable (store : FileStore) (number : Int) : Prop :=
  match store.opened number with
  | .error _ => True
  | .ok descriptor => number + 1 = store.descriptors.length ∧ 2 ≤ store.references descriptor.file

/-- The discipline of a client: flags say what a descriptor is for, a file is
written before it is read, and descriptors are closed in reverse order, but
not the last one on a file. -/
def Permitted (store : FileStore) : Call → Prop
  | .open _ flags => HasMode flags
  | .write _ _ _ => True
  | .read fd _ _ => store.Written fd
  | .close fd => store.Closable fd
  | .delete _ => True
  | .size fd => store.Written fd

instance (store : FileStore) (number : Int) : Decidable (store.Written number) :=
  match found : store.opened number with
  | .error _ => .isTrue (by simp only [Written, found])
  | .ok descriptor =>
      decidable_of_iff (store.contentAt descriptor.file ≠ none) (by simp only [Written, found])

instance (store : FileStore) (number : Int) : Decidable (store.Closable number) :=
  match found : store.opened number with
  | .error _ => .isTrue (by simp only [Closable, found])
  | .ok descriptor =>
      decidable_of_iff
        (number + 1 = store.descriptors.length ∧ 2 ≤ store.references descriptor.file)
        (by simp only [Closable, found])

instance (store : FileStore) : (call : Call) → Decidable (store.Permitted call)
  | .open _ flags => inferInstanceAs (Decidable (HasMode flags))
  | .write _ _ _ => .isTrue trivial
  | .read fd _ _ => inferInstanceAs (Decidable (store.Written fd))
  | .close fd => inferInstanceAs (Decidable (store.Closable fd))
  | .delete _ => .isTrue trivial
  | .size fd => inferInstanceAs (Decidable (store.Written fd))

end FileStore

end Sysprog.Userfs.Store
