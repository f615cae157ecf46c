import Sysprog.Userfs.Blocks

/-!
# The calls of userfs

`ufs_open`, `ufs_write`, `ufs_read`, `ufs_close`, `ufs_delete` and `file_size`
over the memory of `userfs.c`. A call returns a value and the next state, or
stops the program; the assertions of the source are enabled.
-/

namespace Sysprog.Userfs.Calls

open CheckedRuns Memory Blocks

set_option autoImplicit false

variable (garbage : Garbage)

/-- The walk of `find_file_struct`; a list longer than the heap is a cycle. -/
def findFileFrom (files : Heap File) (filename : String) :
    Nat → Option Nat → Except Halt (Option Nat)
  | _, none => .ok none
  | 0, some _ => .error .endlessWalk
  | fuel + 1, some address => do
      let file ← deref files (some address)
      if file.name = some filename then .ok (some address)
      else findFileFrom files filename fuel file.prev

def findFileStruct (filename : String) (fs : FsState) : Except Halt (Option Nat) :=
  findFileFrom fs.files filename fs.files.next fs.fileList

def findFiledescIn (filedescs : Heap Filedesc) (file : Nat) :
    Nat → List Slot → Except Halt (Option Nat)
  | 0, _ => .ok none
  | _ + 1, [] => .error .outOfRange
  | count + 1, slot :: slots =>
      match slot with
      | .unset => .error .badPointer
      | .null => .error .badPointer
      | .filedesc address => do
          let fd ← deref filedescs (some address)
          if fd.file = some file then .ok (some address)
          else findFiledescIn filedescs file count slots

/-- The loop bound is compared as a `size_t`. -/
def findFiledesc (file : Nat) (fs : FsState) : Except Halt (Option Nat) :=
  findFiledescIn fs.filedescs file (fs.fileDescriptorCount % 2 ^ 64).toNat fs.fileDescriptors

/-- `file->prev->next = file`, when there is an older file. -/
def linkOlder (files : Heap File) (older : Option Nat) (file : Nat) :
    Except Halt (Heap File) :=
  match older with
  | none => .ok files
  | some prev => assign files (some prev) fun struct => { struct with next := some file }

def allocFileStruct (filename : String) (fs : FsState) : Except Halt (Nat × FsState) := do
  let file := fs.files.next
  let struct := { garbage.file file with
    refs := 0
    name := some filename
    prev := fs.fileList
    next := none }
  let files ← linkOlder (fs.files.alloc struct) fs.fileList file
  .ok (file, { fs with files := files, fileList := some file })

/-- `file_descriptors[fdno] = fd`. -/
def storeFileDescriptor (fdno : Int) (fd : Nat) (fs : FsState) : Except Halt FsState :=
  if 0 ≤ fdno ∧ fdno.toNat < fs.fileDescriptors.length then
    .ok { fs with fileDescriptors := fs.fileDescriptors.set fdno.toNat (.filedesc fd) }
  else .error .outOfRange

def openMode (flags unassigned : BitVec 32) : BitVec 32 :=
  if flags &&& ufsReadWrite ≠ 0 then ufsReadWrite
  else if flags &&& ufsReadOnly ≠ 0 then ufsReadOnly
  else if flags &&& ufsWriteOnly ≠ 0 then ufsWriteOnly
  else unassigned

/-- The end of `ufs_open`, common to its two branches. -/
def installFiledesc (fd file : Nat) (offset : Int) (flags : BitVec 32) (fs : FsState) :
    Except Halt (Int × FsState) := do
  let files ← assign fs.files (some file) fun struct => { struct with refs := struct.refs + 1 }
  let fdno := fs.fileDescriptorCount
  let fs ← storeFileDescriptor fdno fd { fs with
    files := files
    fileDescriptorCount := fs.fileDescriptorCount + 1 }
  let filedescs ← assign fs.filedescs (some fd) fun desc => {
    file := some file
    offset := offset
    mode := openMode flags desc.mode }
  .ok (fdno, { fs with filedescs := filedescs })

def ufsOpen (filename : String) (flags : BitVec 32) (fs : FsState) :
    Except Halt (Int × FsState) := do
  let fd := fs.filedescs.next
  let fs := { fs with filedescs := fs.filedescs.alloc (garbage.filedesc fd) }
  let freed := { fs with filedescs := fs.filedescs.release fd }
  let file ← findFileStruct filename fs
  if flags &&& ufsCreate ≠ 0 then
    match file with
    | some _ => .ok (fail .noPermission freed)
    | none => do
        let (file, fs) ← allocFileStruct garbage filename fs
        installFiledesc fd file 0 (flags &&& ~~~ufsCreate) fs
  else
    match file with
    | none => .ok (fail .noFile freed)
    | some file => do
        -- `assert(ffd != NULL)` comes before the test of `ffd`
        match ← findFiledesc file fs with
        | none => .error .assertionFailed
        | some ffd =>
            let other ← deref fs.filedescs (some ffd)
            installFiledesc fd file other.offset flags fs

def ufsWrite (fdno : Int) (buf : List Byte) (size : Nat) (fs : FsState) :
    Except Halt (Int × FsState) := do
  match ← fileDescriptorAt fs fdno with
  | none => .ok (fail .noFile fs)
  | some fd =>
      let desc ← deref fs.filedescs (some fd)
      if desc.mode &&& ufsWriteOnly ≠ 0 ∨ desc.mode &&& ufsReadWrite ≠ 0 then
        let (bytesWritten, fs) ← writeData desc.file buf size fs
        .ok (bytesWritten,
          { fs with filedescs := fs.filedescs.write fd { desc with offset := bytesWritten } })
      else .ok (fail .noPermission fs)

def ufsRead (fdno : Int) (buf : List Byte) (size : Nat) (fs : FsState) :
    Except Halt (Int × List Byte × FsState) := do
  match ← fileDescriptorAt fs fdno with
  | none =>
      let (value, fs) := fail .noFile fs
      .ok (value, buf, fs)
  | some fd =>
      let desc ← deref fs.filedescs (some fd)
      if desc.mode &&& ufsReadOnly ≠ 0 ∨ desc.mode &&& ufsReadWrite ≠ 0 then
        let (bytesRead, buf, fs) ← readData fd buf (size / blockSize) (size % blockSize) fs
        let filedescs ← assign fs.filedescs (some fd)
          fun desc => { desc with offset := bytesRead }
        .ok (bytesRead, buf, { fs with filedescs := filedescs })
      else
        let (value, fs) := fail .noPermission fs
        .ok (value, buf, fs)

def deallocateFile (file : Nat) (fs : FsState) : Except Halt FsState := do
  let struct ← deref fs.files (some file)
  let fs ←
    match struct.blockList with
    | none => .ok fs
    | some first => deallocateBlock first fs
  .ok { fs with files := fs.files.release file }

/-- The entry of the closed descriptor stays in `file_descriptors`: only the
local pointer `fd` is set to NULL. -/
def ufsClose (fdno : Int) (fs : FsState) : Except Halt (Int × FsState) := do
  match ← fileDescriptorAt fs fdno with
  | none => .ok (fail .noFile fs)
  | some fd =>
      let desc ← deref fs.filedescs (some fd)
      match desc.file with
      | none => .error .badPointer
      | some file => do
          let struct ← deref fs.files (some file)
          let fs := { fs with
            files := fs.files.write file { struct with refs := struct.refs - 1 } }
          let fs ← if struct.refs - 1 = 0 then deallocateFile file fs else .ok fs
          .ok (0, { fs with
            filedescs := fs.filedescs.release fd
            fileDescriptorCount := fs.fileDescriptorCount - 1 })

def ufsDelete (filename : String) (fs : FsState) : Except Halt (Int × FsState) := do
  match ← findFileStruct filename fs with
  | none => .ok (-1, fs)
  | some file =>
      let files ← assign fs.files (some file) fun struct => { struct with name := none }
      .ok (0, { fs with files := files })

/-- The error value of `file_size` is -1 as a `size_t`. -/
def fileSize (fdno : Int) (fs : FsState) : Except Halt (Int × FsState) := do
  match ← fileDescriptorAt fs fdno with
  | none => .ok (2 ^ 64 - 1, (fail .noFile fs).2)
  | some fd =>
      let desc ← deref fs.filedescs (some fd)
      let file ← deref fs.files desc.file
      let size ← fileSizeLoop fs (blockCount fs) file.blockList 0
      .ok (size, fs)

def ufsErrno (fs : FsState) : UfsErrorCode := fs.ufsErrCode

inductive Call where
  | open (filename : String) (flags : BitVec 32)
  | write (fd : Int) (buf : List Byte) (size : Nat)
  | read (fd : Int) (buf : List Byte) (size : Nat)
  | close (fd : Int)
  | delete (filename : String)
  | size (fd : Int)
  deriving DecidableEq

/-- What a call gives back: its value and, for `ufs_read`, the buffer. -/
structure Reply where
  value : Int
  buffer : List Byte
  deriving DecidableEq

def valueOnly (result : Int × FsState) : Reply × FsState := (⟨result.1, []⟩, result.2)

def perform (fs : FsState) : Call → Except Halt (Reply × FsState)
  | .open filename flags => valueOnly <$> ufsOpen garbage filename flags fs
  | .write fd buf size => valueOnly <$> ufsWrite fd buf size fs
  | .read fd buf size =>
      (fun result => (⟨result.1, result.2.1⟩, result.2.2)) <$> ufsRead fd buf size fs
  | .close fd => valueOnly <$> ufsClose fd fs
  | .delete filename => valueOnly <$> ufsDelete filename fs
  | .size fd => valueOnly <$> fileSize fd fs

end Sysprog.Userfs.Calls
