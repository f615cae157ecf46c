import Sysprog.Userfs.Calls

/-!
# What each call can do

One inversion lemma for each function of the interface: everything a call
that returns can have done to the state. The proofs about runs start from
these and do not unfold the calls again.
-/

namespace Sysprog.Userfs.CallEffects

open CheckedRuns Memory Blocks Calls

set_option autoImplicit false

variable {garbage : Garbage}

/-- The struct `alloc_file_struct` fills in over what `malloc` left. -/
def newFile (garbage : Garbage) (filename : String) (fs : FsState) : File :=
  { garbage.file fs.files.next with
    refs := 0
    name := some filename
    prev := fs.fileList
    next := none }

theorem linkOlder_ok {files linked : Heap File} {older : Option Nat} {file : Nat}
    (done : linkOlder files older file = .ok linked) :
    linked.next = files.next ∧
      ∀ address, linked.read address =
        if older = some address then
          (files.read address).map fun struct => { struct with next := some file }
        else files.read address := by
  cases older with
  | none =>
      cases done
      simp
  | some prev =>
      have assigned : assign files (some prev) (fun struct =>
        { struct with next := some file }) = .ok linked := done
      obtain ⟨address, struct, same, present, rfl⟩ := assign_eq_ok.mp assigned
      cases same
      refine ⟨Heap.next_write _ _ _, ?_⟩
      intro other
      by_cases isPrev : prev = other
      · subst isPrev
        rw [Heap.read_write_self _ (Heap.lt_next_of_read present), present]
        simp
      · rw [Heap.read_write_of_ne _ (Ne.symm isPrev)]
        simp [isPrev]

/-- `alloc_file_struct` returns the next address, makes it the head of the
list and changes nothing else but the `next` field of the old head. -/
theorem allocFileStruct_ok {filename : String} {fs after : FsState} {file : Nat}
    (done : allocFileStruct garbage filename fs = .ok (file, after)) :
    file = fs.files.next ∧
      ∃ files, linkOlder (fs.files.alloc (newFile garbage filename fs)) fs.fileList file =
          .ok files ∧
        after = { fs with files := files, fileList := some file } := by
  obtain ⟨files, linked, rest⟩ := bind_eq_ok.mp done
  cases rest
  exact ⟨rfl, files, linked, rfl⟩

theorem linkOlder_completes {files : Heap File} {older : Option Nat}
    (allocated : ∀ prev, older = some prev → ∃ struct, files.read prev = some struct)
    (fresh : File) :
    ∃ linked struct, linkOlder (files.alloc fresh) older files.next = .ok linked ∧
      linked.read files.next = some struct := by
  cases older with
  | none => exact ⟨files.alloc fresh, fresh, rfl, Heap.read_alloc_next _ _⟩
  | some prev =>
      obtain ⟨struct, present⟩ := allocated prev rfl
      have there := Heap.read_alloc_of_read fresh present
      have old : files.next ≠ prev := Nat.ne_of_gt (Heap.lt_next_of_read present)
      refine ⟨(files.alloc fresh).write prev { struct with next := some files.next }, fresh, ?_, ?_⟩
      · exact assign_eq_ok.mpr ⟨prev, struct, rfl, there, rfl⟩
      · rw [Heap.read_write_of_ne _ old]
        exact Heap.read_alloc_next _ _

theorem allocFileStruct_completes {fs : FsState}
    (allocated : ∀ prev, fs.fileList = some prev → ∃ struct, fs.files.read prev = some struct)
    (filename : String) :
    ∃ after struct, allocFileStruct garbage filename fs = .ok (fs.files.next, after) ∧
      after.files.read fs.files.next = some struct ∧
      after.fileDescriptors = fs.fileDescriptors ∧
      after.fileDescriptorCount = fs.fileDescriptorCount ∧ after.filedescs = fs.filedescs := by
  obtain ⟨files, struct, done, present⟩ :=
    linkOlder_completes allocated (newFile garbage filename fs)
  exact ⟨{ fs with files := files, fileList := some fs.files.next }, struct,
    bind_eq_ok.mpr ⟨files, done, rfl⟩, present, rfl, rfl, rfl⟩

structure Opened (garbage : Garbage) (fs after : FsState) (files : Heap File) (file : Nat)
    (offset : Int) (flags : BitVec 32) (value : Int) : Prop where
  value_eq : value = fs.fileDescriptorCount
  nonneg : 0 ≤ fs.fileDescriptorCount
  inside : fs.fileDescriptorCount.toNat < fs.fileDescriptors.length
  table : after.fileDescriptors =
    fs.fileDescriptors.set fs.fileDescriptorCount.toNat (.filedesc fs.filedescs.next)
  count : after.fileDescriptorCount = fs.fileDescriptorCount + 1
  filedescs : after.filedescs =
    (fs.filedescs.alloc (garbage.filedesc fs.filedescs.next)).write fs.filedescs.next
      ⟨some file, offset, openMode flags (garbage.filedesc fs.filedescs.next).mode⟩
  refs : ∃ struct, files.read file = some struct ∧
    after.files = files.write file { struct with refs := struct.refs + 1 }
  blockArrays : after.blockArrays = fs.blockArrays
  buffers : after.buffers = fs.buffers

theorem installFiledesc_ok {fs base after : FsState} {file : Nat} {offset value : Int}
    {flags : BitVec 32}
    (done : installFiledesc fs.filedescs.next file offset flags base = .ok (value, after))
    (fresh : base.filedescs = fs.filedescs.alloc (garbage.filedesc fs.filedescs.next))
    (table : base.fileDescriptors = fs.fileDescriptors)
    (count : base.fileDescriptorCount = fs.fileDescriptorCount)
    (blockArrays : base.blockArrays = fs.blockArrays) (buffers : base.buffers = fs.buffers) :
    Opened garbage fs after base.files file offset flags value ∧
      after.fileList = base.fileList := by
  obtain ⟨files, counted, rest⟩ := bind_eq_ok.mp done
  obtain ⟨address, struct, same, present, rfl⟩ := assign_eq_ok.mp counted
  cases same
  obtain ⟨stored, tableDone, rest⟩ := bind_eq_ok.mp rest
  unfold storeFileDescriptor at tableDone
  split_ifs at tableDone with inside
  cases tableDone
  obtain ⟨filedescs, assigned, rest⟩ := bind_eq_ok.mp rest
  obtain ⟨address, desc, same, descPresent, rfl⟩ := assign_eq_ok.mp assigned
  cases same
  cases rest
  dsimp only at inside descPresent
  rw [fresh, Heap.read_alloc_next] at descPresent
  cases descPresent
  rw [count, table] at inside
  constructor
  · constructor
    · exact count
    · exact inside.1
    · exact inside.2
    · simp only [table, count]
    · simp only [count]
    · simp only [fresh]
    · exact ⟨struct, present, rfl⟩
    · exact blockArrays
    · exact buffers
  · rfl

/-- The end of `ufs_open` stops only at the end of the table. -/
theorem installFiledesc_cases {fs : FsState} {fd file : Nat} {offset : Int} {flags : BitVec 32}
    {desc : Filedesc} {struct : File} (nonneg : 0 ≤ fs.fileDescriptorCount)
    (present : fs.files.read file = some struct) (allocated : fs.filedescs.read fd = some desc) :
    (∃ result, installFiledesc fd file offset flags fs = .ok result) ∨
      (fs.fileDescriptors.length ≤ fs.fileDescriptorCount.toNat ∧
        installFiledesc fd file offset flags fs = .error .outOfRange) := by
  simp only [installFiledesc, assign, present, ok_bind, storeFileDescriptor]
  by_cases inside : fs.fileDescriptorCount.toNat < fs.fileDescriptors.length
  · rw [if_pos ⟨nonneg, inside⟩]
    simp only [ok_bind, allocated]
    exact .inl ⟨_, rfl⟩
  · rw [if_neg fun both => inside both.2]
    exact .inr ⟨Nat.le_of_not_lt inside, rfl⟩

/-- The state a failing `ufs_open` leaves: its `struct filedesc` was
allocated and freed again, and an error code was set. -/
def openFailure (garbage : Garbage) (code : UfsErrorCode) (fs : FsState) : FsState :=
  (fail code { fs with
    filedescs := (fs.filedescs.alloc (garbage.filedesc fs.filedescs.next)).release
      fs.filedescs.next }).2

inductive OpenEffect (garbage : Garbage) (filename : String) (flags : BitVec 32)
    (fs : FsState) : Int → FsState → Prop where
  | failed (code : UfsErrorCode) :
      OpenEffect garbage filename flags fs (-1) (openFailure garbage code fs)
  | created {value : Int} {after : FsState} {files : Heap File}
      (creating : flags &&& ufsCreate ≠ 0)
      (absent : findFileStruct filename fs = .ok none)
      (linked : linkOlder (fs.files.alloc (newFile garbage filename fs)) fs.fileList
        fs.files.next = .ok files)
      (opened : Opened garbage fs after files fs.files.next 0 (flags &&& ~~~ufsCreate) value)
      (listed : after.fileList = some fs.files.next) :
      OpenEffect garbage filename flags fs value after
  | existing {value offset : Int} {after : FsState} {file : Nat}
      (opening : flags &&& ufsCreate = 0)
      (found : findFileStruct filename fs = .ok (some file))
      (opened : Opened garbage fs after fs.files file offset flags value)
      (listed : after.fileList = fs.fileList) :
      OpenEffect garbage filename flags fs value after

theorem ufsOpen_effect {filename : String} {flags : BitVec 32} {fs after : FsState} {value : Int}
    (done : ufsOpen garbage filename flags fs = .ok (value, after)) :
    OpenEffect garbage filename flags fs value after := by
  obtain ⟨file, found, rest⟩ := bind_eq_ok.mp done
  have sameWalk : findFileStruct filename fs = .ok file := found
  split_ifs at rest with creating
  · cases file with
    | some file =>
        cases rest
        exact .failed _
    | none =>
        obtain ⟨⟨file, base⟩, allocated, installed⟩ := bind_eq_ok.mp rest
        obtain ⟨rfl, files, linked, rfl⟩ := allocFileStruct_ok allocated
        obtain ⟨opened, listed⟩ :=
          @installFiledesc_ok garbage fs _ _ _ _ _ _ installed rfl rfl rfl rfl rfl
        exact .created creating sameWalk linked opened listed
  · cases file with
    | none =>
        cases rest
        exact .failed _
    | some file =>
        obtain ⟨ffd, _, rest⟩ := bind_eq_ok.mp rest
        cases ffd with
        | none => cases rest
        | some ffd =>
            obtain ⟨other, _, installed⟩ := bind_eq_ok.mp rest
            obtain ⟨opened, listed⟩ :=
              @installFiledesc_ok garbage fs _ _ _ _ _ _ installed rfl rfl rfl rfl rfl
            exact .existing (not_not.mp creating) sameWalk opened listed

theorem allocateBlock_ok {data : List Byte} {size : Nat} {fs after : FsState}
    {allocated : Allocated} (done : allocateBlock data size fs = .ok (allocated, after)) :
    size ≠ 0 ∧ ∃ loop,
      allocateRounds data size fs.blockArrays.next fs.buffers.next (totalBlocks size) = .ok loop ∧
      allocated = ⟨loop.totalWritten, ⟨fs.blockArrays.next, 0⟩,
        ⟨fs.blockArrays.next, loop.lastBlock⟩⟩ ∧
      after = { fs with
        blockArrays := fs.blockArrays.alloc loop.blockArray
        buffers := fs.buffers.alloc loop.buffer } := by
  unfold allocateBlock at done
  split_ifs at done with empty
  obtain ⟨loop, rounds, rest⟩ := bind_eq_ok.mp done
  cases rest
  exact ⟨empty, loop, rounds, rfl, rfl⟩

/-- What `ufs_write` can have done. A successful call allocates one array of
blocks and one buffer and points the file at them. -/
inductive WriteEffect (fdno : Int) (buf : List Byte) (size : Nat) (fs : FsState) :
    Int → FsState → Prop where
  | failed (code : UfsErrorCode) : WriteEffect fdno buf size fs (-1) (fail code fs).2
  | written {fd file : Nat} {desc : Filedesc} {struct : File} {loop : AllocateLoop} {sz : Nat}
      (capped : sz = if maxFileSize < size then maxFileSize else size)
      (nonempty : sz ≠ 0)
      (entry : fileDescriptorAt fs fdno = .ok (some fd))
      (descriptor : fs.filedescs.read fd = some desc)
      (target : desc.file = some file)
      (present : fs.files.read file = some struct)
      (rounds : allocateRounds buf sz fs.blockArrays.next fs.buffers.next (totalBlocks sz) =
        .ok loop) :
      WriteEffect fdno buf size fs loop.totalWritten { fs with
        files := fs.files.write file { struct with
          blockList := some ⟨fs.blockArrays.next, 0⟩
          lastBlock := some ⟨fs.blockArrays.next, loop.lastBlock⟩ }
        filedescs := fs.filedescs.write fd { desc with offset := loop.totalWritten }
        blockArrays := fs.blockArrays.alloc loop.blockArray
        buffers := fs.buffers.alloc loop.buffer }

theorem ufsWrite_effect {fdno value : Int} {buf : List Byte} {size : Nat} {fs after : FsState}
    (done : ufsWrite fdno buf size fs = .ok (value, after)) :
    WriteEffect fdno buf size fs value after := by
  obtain ⟨entry, looked, rest⟩ := bind_eq_ok.mp done
  cases entry with
  | none =>
      cases rest
      exact .failed _
  | some fd =>
      obtain ⟨desc, dereferenced, rest⟩ := bind_eq_ok.mp rest
      obtain ⟨_, same, descriptor⟩ := deref_eq_ok.mp dereferenced
      cases same
      split_ifs at rest with writable
      · obtain ⟨⟨written, middle⟩, stored, rest⟩ := bind_eq_ok.mp rest
        cases rest
        obtain ⟨⟨allocated, blocks⟩, cut, rest⟩ := bind_eq_ok.mp stored
        obtain ⟨files, assigned, rest⟩ := bind_eq_ok.mp rest
        cases rest
        obtain ⟨nonempty, loop, rounds, rfl, rfl⟩ := allocateBlock_ok cut
        obtain ⟨file, struct, target, present, rfl⟩ := assign_eq_ok.mp assigned
        exact .written rfl nonempty looked descriptor target present rounds
      · cases rest
        exact .failed _

inductive ReadEffect (fs : FsState) : FsState → Prop where
  | failed (code : UfsErrorCode) : ReadEffect fs (fail code fs).2
  | moved {fd : Nat} {desc : Filedesc} (offset : Int)
      (descriptor : fs.filedescs.read fd = some desc) :
      ReadEffect fs { fs with
        filedescs := fs.filedescs.write fd { desc with offset := offset } }

theorem write_write {Value : Type} (heap : Heap Value) (address : Nat) (first second : Value) :
    (heap.write address first).write address second = heap.write address second := by
  simp [Heap.write]

theorem ufsRead_effect {fdno value : Int} {buf filled : List Byte} {size : Nat}
    {fs after : FsState} (done : ufsRead fdno buf size fs = .ok (value, filled, after)) :
    ReadEffect fs after := by
  obtain ⟨entry, looked, rest⟩ := bind_eq_ok.mp done
  cases entry with
  | none =>
      cases rest
      exact .failed _
  | some fd =>
      obtain ⟨desc, dereferenced, rest⟩ := bind_eq_ok.mp rest
      obtain ⟨_, same, descriptor⟩ := deref_eq_ok.mp dereferenced
      cases same
      split_ifs at rest with readable
      · obtain ⟨⟨bytesRead, bytes, middle⟩, copied, rest⟩ := bind_eq_ok.mp rest
        obtain ⟨filedescs, assigned, rest⟩ := bind_eq_ok.mp rest
        cases rest
        obtain ⟨desc', again, rest⟩ := bind_eq_ok.mp copied
        obtain ⟨_, same, descriptor'⟩ := deref_eq_ok.mp again
        cases same
        rw [descriptor] at descriptor'
        cases descriptor'
        obtain ⟨struct, _, rest⟩ := bind_eq_ok.mp rest
        obtain ⟨loop, _, rest⟩ := bind_eq_ok.mp rest
        obtain ⟨last, _, rest⟩ := bind_eq_ok.mp rest
        split_ifs at rest with agreed
        cases rest
        obtain ⟨_, moved, same, present, rfl⟩ := assign_eq_ok.mp assigned
        cases same
        dsimp only at present
        rw [Heap.read_write_self _ (Heap.lt_next_of_read descriptor)] at present
        cases present
        dsimp only
        rw [write_write]
        exact .moved _ descriptor
      · cases rest
        exact .failed _

/-- What `ufs_close` can have done. The entry of the table stays. -/
inductive CloseEffect (fdno : Int) (fs : FsState) : Int → FsState → Prop where
  | failed (entry : fileDescriptorAt fs fdno = .ok none) :
      CloseEffect fdno fs (-1) (fail .noFile fs).2
  | kept {fd file : Nat} {desc : Filedesc} {struct : File}
      (entry : fileDescriptorAt fs fdno = .ok (some fd))
      (descriptor : fs.filedescs.read fd = some desc)
      (target : desc.file = some file)
      (present : fs.files.read file = some struct)
      (remaining : struct.refs ≠ 1) :
      CloseEffect fdno fs 0 { fs with
        files := fs.files.write file { struct with refs := struct.refs - 1 }
        filedescs := fs.filedescs.release fd
        fileDescriptorCount := fs.fileDescriptorCount - 1 }
  | released {fd file : Nat} {desc : Filedesc} {struct : File} {freed : FsState}
      (entry : fileDescriptorAt fs fdno = .ok (some fd))
      (descriptor : fs.filedescs.read fd = some desc)
      (target : desc.file = some file)
      (present : fs.files.read file = some struct)
      (last : struct.refs = 1)
      (deallocated : deallocateFile file { fs with
        files := fs.files.write file { struct with refs := struct.refs - 1 } } = .ok freed) :
      CloseEffect fdno fs 0 { freed with
        filedescs := freed.filedescs.release fd
        fileDescriptorCount := freed.fileDescriptorCount - 1 }

theorem ufsClose_effect {fdno value : Int} {fs after : FsState}
    (done : ufsClose fdno fs = .ok (value, after)) : CloseEffect fdno fs value after := by
  obtain ⟨entry, looked, rest⟩ := bind_eq_ok.mp done
  cases entry with
  | none =>
      cases rest
      exact .failed looked
  | some fd =>
      obtain ⟨desc, dereferenced, rest⟩ := bind_eq_ok.mp rest
      obtain ⟨_, same, descriptor⟩ := deref_eq_ok.mp dereferenced
      cases same
      cases target : desc.file with
      | none =>
          rw [target] at rest
          cases rest
      | some file =>
          rw [target] at rest
          obtain ⟨struct, fileDereferenced, rest⟩ := bind_eq_ok.mp rest
          obtain ⟨_, same, present⟩ := deref_eq_ok.mp fileDereferenced
          cases same
          by_cases last : struct.refs = 1
          · have zero : struct.refs - 1 = 0 := by omega
            simp only [if_pos zero] at rest
            obtain ⟨freed, deallocated, rest⟩ := bind_eq_ok.mp rest
            cases rest
            exact .released looked descriptor target present last deallocated
          · have nonzero : struct.refs - 1 ≠ 0 := by omega
            simp only [if_neg nonzero] at rest
            cases rest
            exact .kept looked descriptor target present last

/-- `deallocate_file` frees the struct, and at most one array of blocks and
one buffer: those its `block_list` leads to. -/
theorem deallocateFile_ok {file : Nat} {fs freed : FsState}
    (done : deallocateFile file fs = .ok freed) :
    ∃ struct, fs.files.read file = some struct ∧
      match struct.blockList with
      | none => freed = { fs with files := fs.files.release file }
      | some first => ∃ block, derefBlock fs (some first) = .ok block ∧
          freed = { fs with
            files := fs.files.release file
            blockArrays := fs.blockArrays.release first.array
            buffers :=
              match block.memory with
              | none => fs.buffers
              | some memory => fs.buffers.release memory.buffer } := by
  obtain ⟨struct, dereferenced, rest⟩ := bind_eq_ok.mp done
  obtain ⟨_, same, present⟩ := deref_eq_ok.mp dereferenced
  cases same
  refine ⟨struct, present, ?_⟩
  cases chain : struct.blockList with
  | none =>
      rw [chain] at rest
      cases rest
      rfl
  | some first =>
      rw [chain] at rest
      obtain ⟨unblocked, blocksFreed, rest⟩ := bind_eq_ok.mp rest
      cases rest
      obtain ⟨block, blockPresent, rest⟩ := bind_eq_ok.mp blocksFreed
      obtain ⟨unbuffered, bufferFreed, rest⟩ := bind_eq_ok.mp rest
      refine ⟨block, blockPresent, ?_⟩
      split_ifs at rest with whole
      cases rest
      cases memory : block.memory with
      | none =>
          rw [memory] at bufferFreed
          cases bufferFreed
          rfl
      | some memory' =>
          rw [memory] at bufferFreed
          obtain ⟨_, _, rest⟩ := bind_eq_ok.mp bufferFreed
          split_ifs at rest with start
          cases rest
          rfl

theorem deallocateFile_frame {file : Nat} {fs freed : FsState}
    (done : deallocateFile file fs = .ok freed) :
    freed.fileDescriptors = fs.fileDescriptors ∧
      freed.fileDescriptorCount = fs.fileDescriptorCount ∧
      freed.filedescs = fs.filedescs ∧ freed.fileList = fs.fileList ∧
      freed.files = fs.files.release file := by
  obtain ⟨struct, _, effect⟩ := deallocateFile_ok done
  cases chain : struct.blockList with
  | none =>
      rw [chain] at effect
      subst effect
      exact ⟨rfl, rfl, rfl, rfl, rfl⟩
  | some first =>
      rw [chain] at effect
      obtain ⟨block, _, rfl⟩ := effect
      exact ⟨rfl, rfl, rfl, rfl, rfl⟩

inductive DeleteEffect (filename : String) (fs : FsState) : Int → FsState → Prop where
  | absent (missing : findFileStruct filename fs = .ok none) :
      DeleteEffect filename fs (-1) fs
  | deleted {file : Nat} {struct : File}
      (found : findFileStruct filename fs = .ok (some file))
      (present : fs.files.read file = some struct) :
      DeleteEffect filename fs 0 { fs with
        files := fs.files.write file { struct with name := none } }

theorem ufsDelete_effect {filename : String} {value : Int} {fs after : FsState}
    (done : ufsDelete filename fs = .ok (value, after)) :
    DeleteEffect filename fs value after := by
  obtain ⟨file, found, rest⟩ := bind_eq_ok.mp done
  cases file with
  | none =>
      cases rest
      exact .absent found
  | some file =>
      obtain ⟨files, assigned, rest⟩ := bind_eq_ok.mp rest
      obtain ⟨_, struct, same, present, rfl⟩ := assign_eq_ok.mp assigned
      cases same
      cases rest
      exact .deleted found present

theorem fileSize_effect {fdno value : Int} {fs after : FsState}
    (done : fileSize fdno fs = .ok (value, after)) :
    after = fs ∨ after = (fail .noFile fs).2 := by
  obtain ⟨entry, looked, rest⟩ := bind_eq_ok.mp done
  cases entry with
  | none =>
      cases rest
      exact .inr rfl
  | some fd =>
      obtain ⟨desc, _, rest⟩ := bind_eq_ok.mp rest
      obtain ⟨file, _, rest⟩ := bind_eq_ok.mp rest
      obtain ⟨size, _, rest⟩ := bind_eq_ok.mp rest
      cases rest
      exact .inl rfl

inductive CallEffect (garbage : Garbage) (fs : FsState) : Call → Reply → FsState → Prop where
  | ofOpen {filename : String} {flags : BitVec 32} {value : Int} {after : FsState}
      (effect : OpenEffect garbage filename flags fs value after) :
      CallEffect garbage fs (.open filename flags) ⟨value, []⟩ after
  | ofWrite {fd value : Int} {buf : List Byte} {size : Nat} {after : FsState}
      (effect : WriteEffect fd buf size fs value after) :
      CallEffect garbage fs (.write fd buf size) ⟨value, []⟩ after
  | ofRead {fd : Int} {buf : List Byte} {size : Nat} {reply : Reply} {after : FsState}
      (effect : ReadEffect fs after) :
      CallEffect garbage fs (.read fd buf size) reply after
  | ofClose {fd value : Int} {after : FsState} (effect : CloseEffect fd fs value after) :
      CallEffect garbage fs (.close fd) ⟨value, []⟩ after
  | ofDelete {filename : String} {value : Int} {after : FsState}
      (effect : DeleteEffect filename fs value after) :
      CallEffect garbage fs (.delete filename) ⟨value, []⟩ after
  | ofSize {fd : Int} {reply : Reply} {after : FsState}
      (effect : after = fs ∨ after = (fail .noFile fs).2) :
      CallEffect garbage fs (.size fd) reply after

theorem perform_effect {fs after : FsState} {call : Call} {reply : Reply}
    (performed : perform garbage fs call = .ok (reply, after)) :
    CallEffect garbage fs call reply after := by
  cases call with
  | «open» filename flags =>
      obtain ⟨⟨value, state⟩, done, rest⟩ := bind_eq_ok.mp performed
      cases rest
      exact .ofOpen (ufsOpen_effect done)
  | write fd buf size =>
      obtain ⟨⟨value, state⟩, done, rest⟩ := bind_eq_ok.mp performed
      cases rest
      exact .ofWrite (ufsWrite_effect done)
  | read fd buf size =>
      obtain ⟨⟨value, filled, state⟩, done, rest⟩ := bind_eq_ok.mp performed
      cases rest
      exact .ofRead (ufsRead_effect done)
  | close fd =>
      obtain ⟨⟨value, state⟩, done, rest⟩ := bind_eq_ok.mp performed
      cases rest
      exact .ofClose (ufsClose_effect done)
  | delete filename =>
      obtain ⟨⟨value, state⟩, done, rest⟩ := bind_eq_ok.mp performed
      cases rest
      exact .ofDelete (ufsDelete_effect done)
  | size fd =>
      obtain ⟨⟨value, state⟩, done, rest⟩ := bind_eq_ok.mp performed
      cases rest
      exact .ofSize (fileSize_effect done)

end Sysprog.Userfs.CallEffects
