import Sysprog.Library.Refinement
import Sysprog.Userfs.ReportedErrors
import Sysprog.Userfs.StoreRepresentation

/-!
# The file system refines the store

In a memory that represents a store, every permitted call answers what the
store answers and leaves a memory of the next store, or stops as the store
stops. A client that keeps to the store's discipline therefore sees nothing
but the store, whatever `malloc` returns.
-/

namespace Sysprog.Userfs.StoreRefinement

open CheckedRuns PairedRuns Refinement Memory Blocks Calls CallEffects StoredContent Store
open StoreRepresentation
open DescriptorNumbers (filedesc_of_opened zeroGarbage)
open FailedCalls (read_alloc_release)
open FileList (Linked previous linked_create linkOlder_next)
open FileLifetime (stores_of_built)
open Reads (OpenForReading)
open ReadAnswers (read_answers)
open ReportedErrors (install_keeps_errors)
open WrittenBytes (rounds_complete stored_all stored_less file_size_of_stored)
open SetFields (HasMode open_mode_of_has_mode open_mode_without_create)
open ListStructure (head_allocated)

set_option autoImplicit false

variable {garbage : Garbage} {fs : FsState} {store : FileStore}

/-! ## Refused calls -/

theorem represents_fail (held : Represents fs store) (code : UfsErrorCode) :
    Represents (fail code fs).2 (store.refuse code).2 := by
  constructor
  · rfl
  · exact congrArg (· ++ [printErrMsg code]) held.messages
  · exact table_as_same held.table rfl rfl (fun _ => rfl) (Nat.le_refl _)
  · exact files_as_same held.files rfl rfl rfl rfl fun _ => rfl
  · exact well_formed_same_files held.formed rfl rfl

theorem fail_alike (held : Represents fs store) (code : UfsErrorCode) :
    SameResult Represents (fail code fs) (store.refuse code) :=
  ⟨rfl, represents_fail held code⟩

theorem open_failure_alike (held : Represents fs store) (code : UfsErrorCode) :
    SameResult Represents (-1, openFailure garbage code fs) (store.refuse code) := by
  refine ⟨rfl, ?_⟩
  constructor
  · rfl
  · exact congrArg (· ++ [printErrMsg code]) held.messages
  · refine table_as_same held.table rfl rfl ?_ ?_
    · exact fun address => read_alloc_release fs.filedescs _ address
    · change fs.filedescs.next ≤ ((fs.filedescs.alloc _).release _).next
      rw [Heap.next_release, Heap.next_alloc]
      exact Nat.le_succ _
  · exact files_as_same held.files rfl rfl rfl rfl fun _ => rfl
  · exact well_formed_same_files held.formed rfl rfl

/-! ## Sizes and reads -/

theorem struct_of_descriptor (held : Represents fs store) {number : Nat} {descriptor : OpenFile}
    (present : store.descriptors[number]? = some descriptor) :
    ∃ stored struct, store.files[descriptor.file]? = some stored ∧
      fs.files.read descriptor.file = some struct ∧ FileAs fs stored struct ∧
      struct.refs = store.references descriptor.file := by
  have inside := held.formed.inside descriptor (List.mem_of_getElem? present)
  obtain ⟨struct, there, as, refs⟩ :=
    held.files.structs _ _ (List.getElem?_eq_getElem inside)
  exact ⟨_, struct, List.getElem?_eq_getElem inside, there, as, refs⟩

theorem size_alike (held : Represents fs store) {number : Int} (written : store.Written number) :
    Alike (SameResult Represents) (fileSize number fs) (store.size number) := by
  unfold FileStore.Written at written
  cases lookup held number with
  | stops shut entry =>
      simp only [fileSize, entry, FileStore.size, shut]
      exact .fault _
  | freed shut entry absent =>
      simp only [fileSize, entry, FileStore.size, shut, deref, absent, ok_bind]
      exact .fault _
  | @here descriptor address nonneg isOpen present entry leads =>
      obtain ⟨stored, struct, file, there, as, _⟩ := struct_of_descriptor held present
      simp only [isOpen, FileStore.contentAt, file, Option.bind_some] at written
      obtain ⟨content, holds⟩ := Option.ne_none_iff_exists'.mp written
      obtain ⟨array, buffer, size, data, first, stores, rfl⟩ := as.chain content holds
      rw [file_size_of_stored entry leads.2 rfl there first stores]
      simp only [FileStore.size, isOpen, ok_bind, FileStore.contentAt, file, Option.bind_some, holds,
        ReadAnswers.content_length stores]
      exact .value ⟨rfl, held⟩

theorem targets_of_moved {descriptors : List OpenFile} {number : Nat} {descriptor : OpenFile}
    (present : descriptors[number]? = some descriptor) (offset : Int) :
    (descriptors.set number { descriptor with offset := offset }).map OpenFile.file =
      descriptors.map OpenFile.file := by
  obtain ⟨bound, same⟩ := List.getElem?_eq_some_iff.mp present
  apply List.ext_getElem
  · simp
  · intro other leftBound rightBound
    by_cases here : number = other
    · subst here
      simp [same]
    · simp [here]

theorem represents_moved (held : Represents fs store) {number address : Nat}
    {descriptor : OpenFile} (present : store.descriptors[number]? = some descriptor)
    (leads : EntryAs fs number address descriptor) (offset : Int) :
    Represents
      { fs with
        filedescs := fs.filedescs.write address ⟨some descriptor.file, offset, descriptor.mode⟩ }
      { store with
        descriptors := store.descriptors.set number { descriptor with offset := offset } } := by
  have targets := targets_of_moved present offset
  constructor
  · exact held.error
  · exact held.messages
  · exact table_as_moved held.table present leads rfl rfl rfl
  · exact files_as_same held.files rfl rfl rfl rfl (references_of_targets targets)
  · exact well_formed_same_files held.formed rfl targets

theorem read_alike (held : Represents fs store) {number : Int} (buf : List Byte) (size : Nat)
    (written : store.Written number) :
    Alike (fun first second => first.1 = second.1 ∧ first.2.1 = second.2.1 ∧
        Represents first.2.2 second.2.2)
      (ufsRead number buf size fs) (store.read number buf size) := by
  unfold FileStore.Written at written
  cases lookup held number with
  | stops shut entry =>
      simp only [ufsRead, entry, FileStore.read, shut]
      exact .fault _
  | freed shut entry absent =>
      simp only [ufsRead, entry, FileStore.read, shut, deref, absent, ok_bind]
      exact .fault _
  | @here descriptor address nonneg isOpen present entry leads =>
      obtain ⟨stored, struct, file, there, as, _⟩ := struct_of_descriptor held present
      simp only [isOpen, FileStore.contentAt, file, Option.bind_some] at written
      obtain ⟨content, holds⟩ := Option.ne_none_iff_exists'.mp written
      obtain ⟨array, buffer, kept, data, first, stores, rfl⟩ := as.chain content holds
      by_cases mode : descriptor.mode &&& ufsReadOnly ≠ 0 ∨ descriptor.mode &&& ufsReadWrite ≠ 0
      · have readable : OpenForReading fs number address descriptor.file
            ⟨some descriptor.file, descriptor.offset, descriptor.mode⟩ :=
          ⟨entry, leads.2, mode, rfl⟩
        rw [read_answers readable there first stores]
        simp only [FileStore.read, isOpen, ok_bind, if_pos mode, FileStore.contentAt, file,
          Option.bind_some, holds]
        apply alike_bind (alike_refl _)
        intro result twin same
        subst same
        exact .value ⟨rfl, rfl, represents_moved held present leads _⟩
      · have found : deref fs.filedescs (some address) = _ := deref_eq_ok.mpr ⟨address, rfl, leads.2⟩
        simp only [ufsRead, entry, ok_bind, found, if_neg mode, FileStore.read, isOpen]
        exact .value ⟨rfl, rfl, represents_fail held .noPermission⟩

/-! ## Writes -/

theorem bytes_kept_eq {size : Nat} (nonempty : size ≠ 0) :
    FileStore.bytesKept size = storedLength size := by
  unfold FileStore.bytesKept
  split_ifs with even
  · have less := stored_less (Nat.one_le_iff_ne_zero.mpr nonempty) even
    omega
  · exact (stored_all even).symm

theorem modify_block_error {blockArray : List Block} {index : Nat} {change : Block → Block}
    {halt : Halt} (failed : modifyBlock blockArray index change = .error halt) :
    halt = .outOfRange := by
  unfold modifyBlock at failed
  split_ifs at failed
  cases failed
  rfl

theorem memcpy_error {destination source : List Byte} {position start count : Nat} {halt : Halt}
    (failed : memcpy destination position source start count = .error halt) :
    halt = .outOfRange := by
  unfold memcpy at failed
  split_ifs at failed
  cases failed
  rfl

theorem allocate_step_error {data : List Byte} {array buffer total remained b : Nat}
    {loop : AllocateLoop} {halt : Halt}
    (failed : allocateStep data array buffer total remained loop b = .error halt) :
    halt = .outOfRange := by
  unfold allocateStep at failed
  rcases bind_eq_error.mp failed with first | ⟨_, _, failed⟩
  · exact modify_block_error first
  split_ifs at failed with notLast
  · rcases bind_eq_error.mp failed with copied | ⟨_, _, failed⟩
    · exact memcpy_error copied
    rcases bind_eq_error.mp failed with second | ⟨_, _, failed⟩
    · exact modify_block_error second
    rcases bind_eq_error.mp failed with third | ⟨_, _, failed⟩
    · exact modify_block_error third
    · cases failed
  · rcases bind_eq_error.mp failed with copied | ⟨_, _, failed⟩
    · exact memcpy_error copied
    rcases bind_eq_error.mp failed with second | ⟨_, _, failed⟩
    · exact modify_block_error second
    · cases failed

theorem allocate_rounds_error {data : List Byte} {size array buffer steps : Nat} {halt : Halt}
    (failed : allocateRounds data size array buffer steps = .error halt) : halt = .outOfRange := by
  induction steps generalizing halt with
  | zero => cases failed
  | succ steps ih =>
      rw [allocate_rounds_succ] at failed
      rcases bind_eq_error.mp failed with earlier | ⟨loop, _, last⟩
      · exact ih earlier
      · exact allocate_step_error last

/-- Without the bytes to be stored the loop runs over the end of the data. -/
theorem rounds_outside {data : List Byte} {size : Nat} (array buffer : Nat)
    (short : data.length < storedLength size) :
    allocateRounds data size array buffer (totalBlocks size) = .error .outOfRange := by
  cases rounds : allocateRounds data size array buffer (totalBlocks size) with
  | ok loop => exact absurd (rounds_built rounds).long (Nat.not_le_of_lt short)
  | error halt => rw [allocate_rounds_error rounds]

theorem represents_written (held : Represents fs store) {number address sz : Nat}
    {descriptor : OpenFile} {struct : File} {buf : List Byte} {loop : AllocateLoop}
    (present : store.descriptors[number]? = some descriptor)
    (leads : EntryAs fs number address descriptor)
    (there : fs.files.read descriptor.file = some struct)
    (built : Built buf sz fs.blockArrays.next fs.buffers.next loop) :
    Represents
      { fs with
        files := fs.files.write descriptor.file { struct with
          blockList := some ⟨fs.blockArrays.next, 0⟩
          lastBlock := some ⟨fs.blockArrays.next, loop.lastBlock⟩ }
        filedescs := fs.filedescs.write address
          ⟨some descriptor.file, (storedLength sz : Int), descriptor.mode⟩
        blockArrays := fs.blockArrays.alloc loop.blockArray
        buffers := fs.buffers.alloc loop.buffer }
      { store with
        files := store.files.modify descriptor.file
          fun file => { file with content := some (buf.take (storedLength sz)) }
        descriptors := store.descriptors.set number
          { descriptor with offset := (storedLength sz : Int) } } := by
  have targets := targets_of_moved present (storedLength sz)
  constructor
  · exact held.error
  · exact held.messages
  · exact table_as_moved held.table present leads rfl rfl rfl
  · refine files_as_changed held.files there rfl rfl rfl ?_ ?_ ?_ ?_ ?_
    · intro stored as
      refine ⟨as.name, ?_⟩
      intro content written
      cases written
      exact ⟨_, _, sz, buf, rfl, stores_of_built built rfl rfl, rfl⟩
    · intro refs
      rw [references_of_targets targets]
      exact refs
    · intro other _
      exact references_of_targets targets other
    · exact fun _ _ read => Heap.read_alloc_of_read _ read
    · exact fun _ _ read => Heap.read_alloc_of_read _ read
  · refine well_formed_files held.formed ?_ (List.length_modify ..) targets
    intro file stored name there hasName
    rw [List.getElem?_modify] at there
    obtain ⟨before, was, rfl⟩ := Option.map_eq_some_iff.mp there
    refine ⟨before, was, ?_⟩
    rw [← hasName]
    split_ifs <;> rfl

theorem write_alike (held : Represents fs store) (number : Int) (buf : List Byte) (size : Nat) :
    Alike (SameResult Represents) (ufsWrite number buf size fs) (store.write number buf size) := by
  cases lookup held number with
  | stops shut entry =>
      simp only [ufsWrite, entry, FileStore.write, shut]
      exact .fault _
  | freed shut entry absent =>
      simp only [ufsWrite, entry, FileStore.write, shut, deref, absent, ok_bind]
      exact .fault _
  | @here descriptor address nonneg isOpen present entry leads =>
      obtain ⟨stored, struct, file, there, as, _⟩ := struct_of_descriptor held present
      have found : deref fs.filedescs (some address) = _ := deref_eq_ok.mpr ⟨address, rfl, leads.2⟩
      by_cases mode : descriptor.mode &&& ufsWriteOnly ≠ 0 ∨ descriptor.mode &&& ufsReadWrite ≠ 0
      · have capped : (if maxFileSize < size then maxFileSize else size) = min size maxFileSize := by
          split_ifs <;> omega
        simp only [ufsWrite, entry, ok_bind, found, if_pos mode, writeData, allocateBlock, capped,
          FileStore.write, isOpen]
        by_cases nothing : size = 0
        · simp only [nothing, Nat.zero_min, if_true, error_bind]
          exact .fault _
        · have nonempty : min size maxFileSize ≠ 0 := by
            unfold maxFileSize
            omega
          rw [if_neg nonempty, if_neg nothing, bytes_kept_eq nonempty]
          by_cases short : buf.length < storedLength (min size maxFileSize)
          · rw [if_pos short, rounds_outside _ _ short]
            exact .fault _
          · obtain ⟨loop, rounds⟩ := rounds_complete buf (min size maxFileSize)
              fs.blockArrays.next fs.buffers.next (Nat.le_of_not_lt short)
            have built := rounds_built rounds
            simp only [if_neg short, rounds, ok_bind, assign, there, built.totalWritten]
            exact .value ⟨rfl, represents_written held present leads there built⟩
      · simp only [ufsWrite, entry, ok_bind, found, if_neg mode, FileStore.write, isOpen]
        exact .value (fail_alike held .noPermission)

/-! ## Deleting and closing -/

theorem delete_alike (held : Represents fs store) (filename : String) :
    Alike (SameResult Represents) (ufsDelete filename fs) (store.delete filename) := by
  simp only [ufsDelete, find_named held, ok_bind, FileStore.delete]
  cases named : store.named filename with
  | none => exact .value ⟨rfl, held⟩
  | some file =>
      obtain ⟨stored, present, hasName⟩ := (named_eq_some held.formed).mp named
      obtain ⟨struct, there, _, _⟩ := held.files.structs file stored present
      simp only [assign, there, ok_bind]
      refine .value ⟨rfl, ?_⟩
      constructor
      · exact held.error
      · exact held.messages
      · exact table_as_same held.table rfl rfl (fun _ => rfl) (Nat.le_refl _)
      · refine files_as_changed held.files there rfl rfl rfl ?_ ?_ ?_ ?_ ?_
        · intro stored as
          refine ⟨rfl, ?_⟩
          intro content written
          obtain ⟨array, buffer, size, data, first, stores, bytes⟩ := as.chain content written
          exact ⟨array, buffer, size, data, first,
            ⟨stores.blockArray, stores.buffer, stores.long⟩, bytes⟩
        · exact fun refs => refs
        · exact fun _ _ => rfl
        · exact fun _ _ read => read
        · exact fun _ _ read => read
      · refine well_formed_files held.formed ?_ (List.length_modify ..) rfl
        intro other found name there hasName
        rw [List.getElem?_modify] at there
        obtain ⟨before, was, rfl⟩ := Option.map_eq_some_iff.mp there
        refine ⟨before, was, ?_⟩
        by_cases here : file = other
        · rw [if_pos here] at hasName
          cases hasName
        · rw [if_neg here] at hasName
          exact hasName

theorem references_dropped {descriptors : List OpenFile} {number : Nat} {descriptor : OpenFile}
    (present : descriptors[number]? = some descriptor) (last : number + 1 = descriptors.length)
    (file : Nat) :
    descriptors.countP (fun other => other.file = file) =
      descriptors.dropLast.countP (fun other => other.file = file) +
        if descriptor.file = file then 1 else 0 := by
  obtain ⟨bound, same⟩ := List.getElem?_eq_some_iff.mp present
  have nonempty : descriptors ≠ [] := by
    intro none
    rw [none] at bound
    exact absurd bound (Nat.not_lt_zero number)
  have isLast : descriptors.getLast nonempty = descriptor := by
    rw [List.getLast_eq_getElem, ← same]
    congr 1
    omega
  conv_lhs => rw [← List.dropLast_append_getLast nonempty, isLast]
  simp [List.countP_append, List.countP_singleton]

theorem table_as_closed {after : FsState} {descriptors : List OpenFile} {number address : Nat}
    {descriptor : OpenFile} (held : TableAs fs descriptors)
    (present : descriptors[number]? = some descriptor) (last : number + 1 = descriptors.length)
    (leads : EntryAs fs number address descriptor)
    (slots : after.fileDescriptors = fs.fileDescriptors)
    (count : after.fileDescriptorCount = fs.fileDescriptorCount - 1)
    (filedescs : after.filedescs = fs.filedescs.release address) :
    TableAs after descriptors.dropLast := by
  have fewer : descriptors.dropLast.length = number := by
    rw [List.length_dropLast]
    omega
  have counted := held.count
  constructor
  · rw [count, fewer]
    omega
  · rw [slots]
    exact held.capacity
  · intro other found there
    have below := (List.getElem?_eq_some_iff.mp there).1
    rw [List.getElem?_dropLast, if_pos (by omega)] at there
    obtain ⟨otherAddress, entry, read⟩ := held.entries other found there
    refine ⟨otherAddress, by rw [slots]; exact entry, ?_⟩
    have different : otherAddress ≠ address := by
      intro same
      subst same
      have one := held.apart number other otherAddress (by omega) (by omega) leads.1 entry
      omega
    rw [filedescs, Heap.read_release_of_ne different]
    exact read
  · intro one other shared oneBelow otherBelow oneEntry otherEntry
    rw [slots] at oneEntry otherEntry
    exact held.apart one other shared (by omega) (by omega) oneEntry otherEntry
  · intro other slot above entry
    rw [slots] at entry
    rw [fewer] at above
    by_cases own : other = number
    · subst own
      rw [leads.1] at entry
      cases entry
      refine .inr ⟨address, rfl, ?_, ?_⟩
      · rw [filedescs, Heap.next_release]
        exact Heap.lt_next_of_read leads.2
      · rw [filedescs]
        exact Heap.read_release_self _ _
    · rcases held.closed other slot (by omega) entry with unset | ⟨stale, same, below, absent⟩
      · exact .inl unset
      · have different : stale ≠ address := by
          intro shared
          rw [shared, leads.2] at absent
          cases absent
        refine .inr ⟨stale, same, by rw [filedescs, Heap.next_release]; exact below, ?_⟩
        rw [filedescs, Heap.read_release_of_ne different]
        exact absent

theorem close_alike (held : Represents fs store) {number : Int} (closable : store.Closable number) :
    Alike (SameResult Represents) (ufsClose number fs) (store.close number) := by
  unfold FileStore.Closable at closable
  cases lookup held number with
  | stops shut entry =>
      simp only [ufsClose, entry, FileStore.close, shut]
      exact .fault _
  | freed shut entry absent =>
      simp only [ufsClose, entry, FileStore.close, shut, deref, absent, ok_bind]
      exact .fault _
  | @here descriptor address nonneg isOpen present entry leads =>
      simp only [isOpen] at closable
      obtain ⟨newest, shared⟩ := closable
      obtain ⟨stored, struct, file, there, as, refs⟩ := struct_of_descriptor held present
      have found : deref fs.filedescs (some address) = _ := deref_eq_ok.mpr ⟨address, rfl, leads.2⟩
      have opened : deref fs.files (some descriptor.file) = .ok struct :=
        deref_eq_ok.mpr ⟨_, rfl, there⟩
      have remaining : ¬ struct.refs - 1 = 0 := by omega
      have last : number.toNat + 1 = store.descriptors.length := by omega
      have dropped := references_dropped present last
      simp only [ufsClose, entry, ok_bind, found, opened, if_neg remaining, FileStore.close, isOpen]
      refine .value ⟨rfl, ?_⟩
      constructor
      · exact held.error
      · exact held.messages
      · exact table_as_closed held.table present last leads rfl rfl rfl
      · refine files_as_counted held.files there rfl rfl ?_ ?_ rfl rfl
        · intro _
          have counted := dropped descriptor.file
          rw [if_pos rfl] at counted
          unfold FileStore.references at refs ⊢
          dsimp only
          omega
        · intro other different
          have counted := dropped other
          rw [if_neg (Ne.symm different)] at counted
          exact counted.symm
      · constructor
        · exact held.formed.distinct
        · intro other member
          exact held.formed.inside other (List.mem_of_mem_dropLast member)
        · intro other below
          have attended := held.formed.attended other below
          have counted := dropped other
          unfold FileStore.references at attended shared ⊢
          dsimp only
          split_ifs at counted with own
          · subst own
            omega
          · omega
        · have room := held.formed.room
          rw [List.length_dropLast]
          omega

/-! ## Opening -/

theorem table_as_opened {after : FsState} {files : Heap File} {descriptors : List OpenFile}
    {file : Nat} {offset value : Int} {flags mode : BitVec 32} (held : TableAs fs descriptors)
    (opened : Opened garbage fs after files file offset flags value)
    (same : openMode flags (garbage.filedesc fs.filedescs.next).mode = mode) :
    TableAs after (descriptors ++ [⟨file, offset, mode⟩]) := by
  have counted := held.count
  have inside := opened.inside
  have place : fs.fileDescriptorCount.toNat = descriptors.length := by omega
  rw [place] at inside
  have table := opened.table
  rw [place] at table
  have read_new : after.filedescs.read fs.filedescs.next = some ⟨some file, offset, mode⟩ := by
    rw [opened.filedescs, Heap.read_write_self _ (by simp), same]
  have entry_old : ∀ number, number ≠ descriptors.length →
      after.fileDescriptors[number]? = fs.fileDescriptors[number]? := by
    intro number different
    rw [table, List.getElem?_set_ne (Ne.symm different)]
  have entry_new : after.fileDescriptors[descriptors.length]? =
      some (.filedesc fs.filedescs.next) := by
    rw [table, List.getElem?_set_self inside]
  constructor
  · rw [opened.count, List.length_append]
    push_cast
    simp only [List.length_singleton]
    omega
  · rw [table, List.length_set]
    exact held.capacity
  · intro number descriptor present
    by_cases newest : number = descriptors.length
    · subst newest
      rw [List.getElem?_concat_length] at present
      cases present
      exact ⟨fs.filedescs.next, entry_new, read_new⟩
    · have below : number < descriptors.length := by
        have bound := (List.getElem?_eq_some_iff.mp present).1
        rw [List.length_append, List.length_singleton] at bound
        omega
      rw [List.getElem?_append_left below] at present
      obtain ⟨address, entry, read⟩ := held.entries number descriptor present
      refine ⟨address, ?_, ?_⟩
      · rw [entry_old number newest]
        exact entry
      · rw [filedesc_of_opened opened (Heap.lt_next_of_read read)]
        exact read
  · intro number other address below otherBelow entry otherEntry
    rw [List.length_append, List.length_singleton] at below otherBelow
    have old : ∀ place, place < descriptors.length →
        after.fileDescriptors[place]? ≠ some (.filedesc fs.filedescs.next) := by
      intro place bound same
      obtain ⟨older, there, read⟩ := held.entries place _ (List.getElem?_eq_getElem bound)
      rw [entry_old place (Nat.ne_of_lt bound), there] at same
      cases same
      exact absurd (Heap.lt_next_of_read read) (Nat.lt_irrefl _)
    by_cases newest : number = descriptors.length
    · by_cases otherNewest : other = descriptors.length
      · omega
      · rw [newest, entry_new] at entry
        cases entry
        exact absurd otherEntry (old other (by omega))
    · by_cases otherNewest : other = descriptors.length
      · rw [otherNewest, entry_new] at otherEntry
        cases otherEntry
        exact absurd entry (old number (by omega))
      · rw [entry_old number newest] at entry
        rw [entry_old other otherNewest] at otherEntry
        exact held.apart number other address (by omega) (by omega) entry otherEntry
  · intro number slot above entry
    rw [List.length_append, List.length_singleton] at above
    rw [entry_old number (by omega)] at entry
    rcases held.closed number slot (by omega) entry with unset | ⟨address, same, below, absent⟩
    · exact .inl unset
    · refine .inr ⟨address, same, ?_, ?_⟩
      · rw [opened.filedescs, Heap.next_write, Heap.next_alloc]
        omega
      · rw [filedesc_of_opened opened below]
        exact absent

theorem find_oldest {filedescs : Heap Filedesc} {file : Nat} {descriptors : List OpenFile}
    {slots : List Slot} {oldest : OpenFile}
    (entries : ∀ (number : Nat) (descriptor : OpenFile), descriptors[number]? = some descriptor →
      ∃ address, slots[number]? = some (.filedesc address) ∧
        filedescs.read address =
          some ⟨some descriptor.file, descriptor.offset, descriptor.mode⟩)
    (found : descriptors.find? (fun descriptor => descriptor.file = file) = some oldest) :
    ∃ address, findFiledescIn filedescs file descriptors.length slots = .ok (some address) ∧
      filedescs.read address = some ⟨some oldest.file, oldest.offset, oldest.mode⟩ := by
  induction descriptors generalizing slots with
  | nil => cases found
  | cons descriptor rest ih =>
      obtain ⟨address, first, present⟩ := entries 0 descriptor rfl
      cases slots with
      | nil => cases first
      | cons slot slots =>
          cases first
          have dereferenced : deref filedescs (some address) = _ :=
            deref_eq_ok.mpr ⟨address, rfl, present⟩
          simp only [List.length_cons, findFiledescIn, dereferenced, ok_bind, Option.some.injEq]
          by_cases own : descriptor.file = file
          · rw [List.find?_cons_of_pos (by simpa using own)] at found
            cases found
            rw [if_pos own]
            exact ⟨address, rfl, present⟩
          · rw [List.find?_cons_of_neg (by simpa using own)] at found
            rw [if_neg own]
            exact ih (fun number other there => entries (number + 1) other there) found

/-- The end of `ufs_open`: `base` is the state it is reached in, with the
structs of the files `ready` has. -/
theorem install_alike (held : Represents fs store) {base : FsState} {ready : FileStore} {file : Nat}
    {offset : Int} {flags given : BitVec 32}
    (fresh : base.filedescs = fs.filedescs.alloc (garbage.filedesc fs.filedescs.next))
    (slots : base.fileDescriptors = fs.fileDescriptors)
    (count : base.fileDescriptorCount = fs.fileDescriptorCount)
    (blockArrays : base.blockArrays = fs.blockArrays) (buffers : base.buffers = fs.buffers)
    (errors : base.ufsErrCode = ready.error ∧ base.stderr = ready.messages)
    (files : FilesAs base ready.files ready.references)
    (descriptors : ready.descriptors = store.descriptors) (inside : file < ready.files.length)
    (mode : ∀ unassigned, openMode flags unassigned = openMode given 0)
    (formed : ready.descriptors.length < fileDescriptorCapacity → WellFormed { ready with
      descriptors := ready.descriptors ++ [⟨file, offset, openMode given 0⟩] }) :
    Alike (SameResult Represents) (installFiledesc fs.filedescs.next file offset flags base)
      (ready.install file offset given) := by
  have counted := held.table.count
  have capacity := held.table.capacity
  obtain ⟨struct, present, _⟩ := files.structs file _ (List.getElem?_eq_getElem inside)
  have allocated : base.filedescs.read fs.filedescs.next =
      some (garbage.filedesc fs.filedescs.next) := by
    rw [fresh]
    exact Heap.read_alloc_next _ _
  unfold FileStore.install
  rcases @installFiledesc_cases base fs.filedescs.next file offset flags _ struct
    (by rw [count]; omega) present allocated with completes | ⟨full, stops⟩
  · obtain ⟨⟨value, after⟩, done⟩ := completes
    obtain ⟨opened, listed⟩ :=
      @installFiledesc_ok garbage fs _ _ _ _ _ _ done fresh slots count blockArrays buffers
    obtain ⟨errorCode, messages⟩ := install_keeps_errors done
    have bound := opened.inside
    have room : ready.descriptors.length < fileDescriptorCapacity := by
      rw [descriptors]
      omega
    rw [done, if_pos room]
    refine .value ⟨?_, ?_⟩
    · change value = (ready.descriptors.length : Int)
      rw [opened.value_eq, descriptors]
      exact counted
    · obtain ⟨own, there, changed⟩ := opened.refs
      constructor
      · exact errorCode.trans errors.1
      · exact messages.trans errors.2
      · dsimp only
        rw [descriptors]
        exact table_as_opened held.table opened (mode _)
      · refine files_as_counted files there changed listed ?_ ?_ ?_ ?_
        · intro refs
          rw [refs]
          simp [FileStore.references, List.countP_append]
        · intro other different
          simp [FileStore.references, List.countP_append, Ne.symm different]
        · exact opened.blockArrays.trans blockArrays.symm
        · exact opened.buffers.trans buffers.symm
      · exact formed room
  · have noRoom : ¬ ready.descriptors.length < fileDescriptorCapacity := by
      rw [slots, count] at full
      rw [descriptors]
      omega
    rw [stops, if_neg noRoom]
    exact .fault _

/-- The structs after `alloc_file_struct`, before the new file is counted. -/
theorem files_as_created {files : List StoredFile} {references : Nat → Nat} {base : FsState}
    {linked : Heap File} {filename : String} (held : FilesAs fs files references)
    (none : references files.length = 0)
    (created : linkOlder (fs.files.alloc (newFile garbage filename fs)) fs.fileList
      fs.files.next = .ok linked)
    (structs : base.files = linked) (list : base.fileList = some fs.files.next)
    (blockArrays : base.blockArrays = fs.blockArrays) (buffers : base.buffers = fs.buffers) :
    FilesAs base (files ++ [⟨some filename, Option.none⟩]) references := by
  constructor
  · rw [structs, list]
    exact linked_create held.linked created
  · rw [structs, linkOlder_next created, Heap.next_alloc, List.length_append, held.created]
    rfl
  · intro file stored present
    have read := (linkOlder_ok created).2 file
    by_cases newest : file = files.length
    · subst newest
      rw [List.getElem?_concat_length] at present
      cases present
      rw [← held.created] at read none ⊢
      have notOlder : fs.fileList ≠ some fs.files.next := by
        rw [held.linked.head]
        intro same
        have before := FileList.previous_eq_some same
        omega
      rw [if_neg notOlder, Heap.read_alloc_next] at read
      refine ⟨newFile garbage filename fs, by rw [structs]; exact read, ⟨rfl, ?_⟩, ?_⟩
      · intro content written
        cases written
      · rw [none]
        rfl
    · have below : file < files.length := by
        have bound := (List.getElem?_eq_some_iff.mp present).1
        rw [List.length_append, List.length_singleton] at bound
        omega
      rw [List.getElem?_append_left below] at present
      obtain ⟨struct, there, as, refs⟩ := held.structs file stored present
      rw [Heap.read_alloc_of_read _ there] at read
      have kept : FileAs base stored struct := by
        apply file_as_mono as
        · rw [blockArrays]
          exact fun _ _ present => present
        · rw [buffers]
          exact fun _ _ present => present
      rw [structs]
      split_ifs at read with older
      · exact ⟨_, read, ⟨kept.name, kept.chain⟩, refs⟩
      · exact ⟨struct, read, kept, refs⟩

theorem references_of_next (formed : WellFormed store) : store.references store.files.length = 0 := by
  apply List.countP_eq_zero.mpr
  intro descriptor member
  have inside := formed.inside descriptor member
  simp only [decide_eq_true_eq]
  omega

theorem well_formed_created {filename : String} {mode : BitVec 32} (formed : WellFormed store)
    (absent : store.named filename = none)
    (room : store.descriptors.length < fileDescriptorCapacity) :
    WellFormed { store with
      files := store.files ++ [⟨some filename, none⟩]
      descriptors := store.descriptors ++ [⟨store.files.length, 0, mode⟩] } := by
  have fresh := named_eq_none.mp absent
  have old : ∀ (file : Nat) (stored : StoredFile) (name : String),
      (store.files ++ [⟨some filename, none⟩])[file]? = some stored → stored.name = some name →
      (file = store.files.length ∧ name = filename) ∨
        (store.files[file]? = some stored ∧ name ≠ filename) := by
    intro file stored name present hasName
    by_cases newest : file = store.files.length
    · subst newest
      rw [List.getElem?_concat_length] at present
      cases present
      cases hasName
      exact .inl ⟨rfl, rfl⟩
    · have below : file < store.files.length := by
        have bound := (List.getElem?_eq_some_iff.mp present).1
        rw [List.length_append, List.length_singleton] at bound
        omega
      rw [List.getElem?_append_left below] at present
      refine .inr ⟨present, ?_⟩
      intro same
      subst same
      exact fresh file stored present hasName
  constructor
  · intro file other stored otherStored name present otherPresent hasName otherName
    rcases old file stored name present hasName with ⟨rfl, rfl⟩ | ⟨there, different⟩
    · rcases old other otherStored name otherPresent otherName with ⟨rfl, _⟩ | ⟨_, different⟩
      · rfl
      · exact absurd rfl different
    · rcases old other otherStored name otherPresent otherName with ⟨_, same⟩ | ⟨otherThere, _⟩
      · exact absurd same different
      · exact formed.distinct file other stored otherStored name there otherThere hasName otherName
  · intro descriptor member
    rw [List.length_append, List.length_singleton]
    rcases List.mem_append.mp member with before | new
    · have inside := formed.inside descriptor before
      omega
    · rw [List.mem_singleton] at new
      subst new
      exact Nat.lt_succ_self _
  · intro file below
    rw [List.length_append, List.length_singleton] at below
    unfold FileStore.references
    rw [List.countP_append]
    by_cases newest : file = store.files.length
    · subst newest
      simp
    · have attended := formed.attended file (by omega)
      unfold FileStore.references at attended
      omega
  · rw [List.length_append]
    exact room

theorem oldest_on_file (formed : WellFormed store) {file : Nat} (inside : file < store.files.length) :
    ∃ oldest, store.descriptors.find? (fun descriptor => descriptor.file = file) = some oldest := by
  have attended := formed.attended file inside
  obtain ⟨descriptor, member, holds⟩ := List.countP_pos_iff.mp attended
  exact Option.isSome_iff_exists.mp (List.find?_isSome.mpr ⟨descriptor, member, holds⟩)

/-- `find_filedesc`, called before the new entry is stored. -/
theorem find_filedesc_oldest (held : Represents fs store) {file : Nat} {oldest : OpenFile}
    (fresh : Filedesc)
    (found : store.descriptors.find? (fun descriptor => descriptor.file = file) = some oldest) :
    ∃ address, findFiledesc file { fs with filedescs := fs.filedescs.alloc fresh } =
        .ok (some address) ∧
      (fs.filedescs.alloc fresh).read address =
        some ⟨some oldest.file, oldest.offset, oldest.mode⟩ := by
  have counted := held.table.count
  have room := held.formed.room
  have bound : (fs.fileDescriptorCount % 2 ^ 64).toNat = store.descriptors.length := by
    unfold fileDescriptorCapacity at room
    omega
  unfold findFiledesc
  dsimp only
  rw [bound]
  apply find_oldest _ found
  intro number descriptor present
  obtain ⟨address, entry, read⟩ := held.table.entries number descriptor present
  exact ⟨address, entry, Heap.read_alloc_of_read fresh read⟩

theorem create_alike (held : Represents fs store) {filename : String} {flags : BitVec 32}
    (given : HasMode flags) (absent : store.named filename = none) :
    Alike (SameResult Represents)
      (allocFileStruct garbage filename
        { fs with filedescs := fs.filedescs.alloc (garbage.filedesc fs.filedescs.next) } >>=
          fun created => installFiledesc fs.filedescs.next created.1 0 (flags &&& ~~~ufsCreate)
            created.2)
      (FileStore.install store.files.length 0 flags
        { store with files := store.files ++ [⟨some filename, none⟩] }) := by
  have allocated := none_freed held.files
  obtain ⟨base, _, done, _⟩ :=
    @allocFileStruct_completes garbage
      { fs with filedescs := fs.filedescs.alloc (garbage.filedesc fs.filedescs.next) }
      (head_allocated held.files.linked allocated) filename
  obtain ⟨_, files, linked, rfl⟩ := allocFileStruct_ok done
  have created := held.files.created
  have mode : ∀ unassigned, openMode (flags &&& ~~~ufsCreate) unassigned = openMode flags 0 := by
    intro unassigned
    rw [open_mode_without_create]
    exact open_mode_of_has_mode given
  rw [done, ok_bind]
  dsimp only
  rw [created]
  refine install_alike held rfl rfl rfl rfl rfl ⟨held.error, held.messages⟩ ?_ rfl ?_ mode ?_
  · exact files_as_created held.files (references_of_next held.formed) linked rfl
      (congrArg some created.symm) rfl rfl
  · simp
  · intro room
    exact well_formed_created held.formed absent room

theorem open_alike (held : Represents fs store) (filename : String) {flags : BitVec 32}
    (given : HasMode flags) :
    Alike (SameResult Represents) (ufsOpen garbage filename flags fs)
      (store.openFile filename flags) := by
  have walked : ∀ fresh, findFileStruct filename { fs with
      filedescs := fs.filedescs.alloc fresh } = .ok (store.named filename) :=
    fun _ => find_named held filename
  unfold ufsOpen FileStore.openFile
  simp only [walked, ok_bind]
  cases named : store.named filename with
  | none =>
      by_cases creating : flags &&& ufsCreate ≠ 0
      · simp only [if_pos creating]
        exact create_alike held given named
      · simp only [if_neg creating]
        exact .value (open_failure_alike held .noFile)
  | some file =>
      by_cases creating : flags &&& ufsCreate ≠ 0
      · simp only [if_pos creating]
        exact .value (open_failure_alike held .noPermission)
      · obtain ⟨stored, present, _⟩ := (named_eq_some held.formed).mp named
        have inside := (List.getElem?_eq_some_iff.mp present).1
        obtain ⟨oldest, found⟩ := oldest_on_file held.formed inside
        obtain ⟨address, search, there⟩ :=
          find_filedesc_oldest held (garbage.filedesc fs.filedescs.next) found
        have dereferenced : deref (fs.filedescs.alloc (garbage.filedesc fs.filedescs.next))
            (some address) = _ := deref_eq_ok.mpr ⟨address, rfl, there⟩
        simp only [if_neg creating, search, ok_bind, dereferenced, found]
        refine install_alike held rfl rfl rfl rfl rfl ⟨held.error, held.messages⟩ ?_ rfl inside
          (fun _ => open_mode_of_has_mode given) ?_
        · exact files_as_same held.files rfl rfl rfl rfl fun _ => rfl
        · exact well_formed_installed held.formed inside

/-! ## Every call, every client -/

theorem value_alike {first : Except Halt (Int × FsState)} {second : Except Halt (Int × FileStore)}
    (alike : Alike (SameResult Represents) first second) :
    Alike (SameResult Represents) (valueOnly <$> first)
      ((fun result => ((⟨result.1, []⟩ : Reply), result.2)) <$> second) := by
  apply alike_map alike
  intro value twin same
  exact ⟨congrArg (fun result => (⟨result, []⟩ : Reply)) same.1, same.2⟩

/-- Every permitted call answers what the store answers. -/
theorem perform_alike (held : Represents fs store) {call : Call} (permitted : store.Permitted call) :
    Alike (SameResult Represents) (perform garbage fs call) (store.perform call) := by
  cases call with
  | «open» filename flags => exact value_alike (open_alike held filename permitted)
  | write number buf size => exact value_alike (write_alike held number buf size)
  | read number buf size =>
      apply alike_map (read_alike held buf size permitted)
      intro value twin same
      obtain ⟨count, bytes, after⟩ := same
      refine ⟨?_, after⟩
      dsimp only
      rw [count, bytes]
  | close number => exact value_alike (close_alike held permitted)
  | delete filename => exact value_alike (delete_alike held filename)
  | size number => exact value_alike (size_alike held permitted)

/-- A client that keeps to the discipline of the store gets from the file
system the answers of the store, to the last call or up to the same fault,
whatever `malloc` leaves in new structs. -/
theorem file_system_refines_store (garbage : Garbage) {calls : List Call}
    (disciplined : Disciplined FileStore.perform FileStore.Permitted empty calls) :
    (runCalls (perform garbage) initial calls).1 = (runCalls FileStore.perform empty calls).1 ∧
      Alike Represents (runCalls (perform garbage) initial calls).2
        (runCalls FileStore.perform empty calls).2 :=
  @same_answers _ _ _ _ _ (perform garbage) FileStore.perform FileStore.Permitted Represents
    (fun _ _ _ held permitted => perform_alike held permitted) _ _ _ represents_initial disciplined

/-- Create `a`, open it again, write twelve bytes, read five of them through
the other descriptor, close that one and delete `a`; at last a read fails. -/
def twoDescriptors : List Call :=
  [.open "a" (ufsCreate ||| ufsReadWrite), .open "a" ufsReadOnly,
    .write 0 [1, 2, 3, 4, 5, 6, 7, 8, 9, 10, 11, 12] 12, .size 1, .read 1 (List.replicate 5 0) 5,
    .open "a" (ufsCreate ||| ufsReadOnly), .close 1, .delete "a", .open "a" ufsReadOnly,
    .read 0 (List.replicate 12 0) 12]

theorem two_descriptors_refined :
    (runCalls (perform zeroGarbage) initial twoDescriptors).1.map Reply.value =
        [0, 1, 12, 12, 5, -1, 0, 0, -1] ∧
      Alike Represents (runCalls (perform zeroGarbage) initial twoDescriptors).2
        (runCalls FileStore.perform empty twoDescriptors).2 := by
  obtain ⟨answers, ending⟩ :=
    file_system_refines_store zeroGarbage (show Disciplined FileStore.perform FileStore.Permitted
      empty twoDescriptors by decide)
  refine ⟨?_, ending⟩
  rw [answers]
  decide

end Sysprog.Userfs.StoreRefinement
