import Sysprog.Userfs.ListStructure
import Sysprog.Userfs.ReadAnswers

/-!
# The memory of a store

A memory represents a store when its table, its list of files and the chains
under them are those of the store's descriptors, files and bytes. What a
change of the one does to the other is said here once for each part.
-/

namespace Sysprog.Userfs.StoreRepresentation

open CheckedRuns Memory Blocks Calls StoredContent Store
open FileList (Linked NoneFreed linked_write find_from_ok)
open RecordedFiles (find_file_some find_file_none)
open FileLifetime (stores_mono)

set_option autoImplicit false

/-! ## Stores that clients can reach -/

structure WellFormed (store : FileStore) : Prop where
  distinct : ∀ (file other : Nat) (stored otherStored : StoredFile) (name : String),
    store.files[file]? = some stored → store.files[other]? = some otherStored →
    stored.name = some name → otherStored.name = some name → file = other
  inside : ∀ descriptor ∈ store.descriptors, descriptor.file < store.files.length
  attended : ∀ file, file < store.files.length → 1 ≤ store.references file
  room : store.descriptors.length ≤ fileDescriptorCapacity

theorem well_formed_empty : WellFormed empty := by
  constructor
  · intro file other stored otherStored name found
    cases found
  · intro descriptor member
    cases member
  · intro file below
    exact absurd below (Nat.not_lt_zero file)
  · exact Nat.zero_le _

section Named

variable {store : FileStore} {filename : String} {file : Nat}

theorem named_eq_some (formed : WellFormed store) :
    store.named filename = some file ↔
      ∃ stored, store.files[file]? = some stored ∧ stored.name = some filename := by
  unfold FileStore.named
  constructor
  · intro found
    obtain ⟨inside, holds, _⟩ := List.findIdx?_eq_some_iff_getElem.mp found
    exact ⟨store.files[file], List.getElem?_eq_getElem inside, by simpa using holds⟩
  · intro there
    obtain ⟨stored, present, hasName⟩ := there
    obtain ⟨inside, same⟩ := List.getElem?_eq_some_iff.mp present
    apply List.findIdx?_eq_some_iff_getElem.mpr
    refine ⟨inside, by simp [same, hasName], ?_⟩
    intro earlier before
    have bound : earlier < store.files.length := Nat.lt_trans before inside
    simp only [decide_eq_true_eq]
    intro also
    have one := formed.distinct earlier file store.files[earlier] stored filename
      (List.getElem?_eq_getElem bound) present also hasName
    exact absurd before (by omega)

theorem named_eq_none :
    store.named filename = none ↔
      ∀ (file : Nat) (stored : StoredFile), store.files[file]? = some stored →
        stored.name ≠ some filename := by
  unfold FileStore.named
  rw [List.findIdx?_eq_none_iff]
  constructor
  · intro absent file stored present hasName
    have no := absent stored (List.mem_of_getElem? present)
    simp [hasName] at no
  · intro absent stored member
    obtain ⟨file, present⟩ := List.mem_iff_getElem?.mp member
    simpa using absent file stored present

end Named

theorem references_of_targets {store after : FileStore}
    (targets : after.descriptors.map OpenFile.file = store.descriptors.map OpenFile.file)
    (file : Nat) : after.references file = store.references file := by
  have counted := congrArg (List.countP fun place => decide (place = file)) targets
  simpa only [FileStore.references, List.countP_map, Function.comp_def] using counted

theorem well_formed_files {store after : FileStore} (formed : WellFormed store)
    (names : ∀ (file : Nat) (stored : StoredFile) (name : String),
      after.files[file]? = some stored → stored.name = some name →
      ∃ before, store.files[file]? = some before ∧ before.name = some name)
    (length : after.files.length = store.files.length)
    (targets : after.descriptors.map OpenFile.file = store.descriptors.map OpenFile.file) :
    WellFormed after := by
  constructor
  · intro file other stored otherStored name present otherPresent hasName otherName
    obtain ⟨before, there, beforeName⟩ := names file stored name present hasName
    obtain ⟨otherBefore, otherThere, otherBeforeName⟩ :=
      names other otherStored name otherPresent otherName
    exact formed.distinct file other before otherBefore name there otherThere beforeName
      otherBeforeName
  · intro descriptor member
    have listed : descriptor.file ∈ store.descriptors.map OpenFile.file := by
      rw [← targets]
      exact List.mem_map_of_mem member
    obtain ⟨old, oldMember, same⟩ := List.mem_map.mp listed
    rw [length, ← same]
    exact formed.inside old oldMember
  · intro file below
    rw [references_of_targets targets]
    exact formed.attended file (by rw [← length]; exact below)
  · have lengths := congrArg List.length targets
    simp only [List.length_map] at lengths
    rw [lengths]
    exact formed.room

theorem well_formed_same_files {store after : FileStore} (formed : WellFormed store)
    (files : after.files = store.files)
    (targets : after.descriptors.map OpenFile.file = store.descriptors.map OpenFile.file) :
    WellFormed after := by
  apply well_formed_files formed _ (congrArg List.length files) targets
  intro file stored name present hasName
  rw [files] at present
  exact ⟨stored, present, hasName⟩

theorem well_formed_installed {store : FileStore} {file : Nat} {offset : Int} {mode : BitVec 32}
    (formed : WellFormed store) (inside : file < store.files.length)
    (room : store.descriptors.length < fileDescriptorCapacity) :
    WellFormed { store with descriptors := store.descriptors ++ [⟨file, offset, mode⟩] } := by
  constructor
  · exact formed.distinct
  · intro descriptor member
    rcases List.mem_append.mp member with old | new
    · exact formed.inside descriptor old
    · rw [List.mem_singleton] at new
      subst new
      exact inside
  · intro other below
    have attended := formed.attended other below
    unfold FileStore.references at attended ⊢
    rw [List.countP_append]
    omega
  · rw [List.length_append]
    exact room

/-! ## Representation -/

/-- A struct has the name of a file and, once written, a chain of its bytes. -/
structure FileAs (fs : FsState) (stored : StoredFile) (struct : File) : Prop where
  name : struct.name = stored.name
  chain : ∀ content, stored.content = some content → ∃ array buffer size data,
    struct.blockList = some ⟨array, 0⟩ ∧ Stores fs array buffer size data ∧
      content = data.take (storedLength size)

def EntryAs (fs : FsState) (number : Nat) (address : Nat) (descriptor : OpenFile) : Prop :=
  fs.fileDescriptors[number]? = some (.filedesc address) ∧
    fs.filedescs.read address =
      some ⟨some descriptor.file, descriptor.offset, descriptor.mode⟩

/-- The entries below the count are the descriptors in their order, each with
a struct of its own; what `ufs_close` left behind them was freed. -/
structure TableAs (fs : FsState) (descriptors : List OpenFile) : Prop where
  count : fs.fileDescriptorCount = descriptors.length
  capacity : fs.fileDescriptors.length = fileDescriptorCapacity
  entries : ∀ number descriptor, descriptors[number]? = some descriptor →
    ∃ address, EntryAs fs number address descriptor
  apart : ∀ number other address, number < descriptors.length → other < descriptors.length →
    fs.fileDescriptors[number]? = some (.filedesc address) →
    fs.fileDescriptors[other]? = some (.filedesc address) → number = other
  closed : ∀ number slot, descriptors.length ≤ number →
    fs.fileDescriptors[number]? = some slot →
    slot = .unset ∨ ∃ address, slot = .filedesc address ∧ address < fs.filedescs.next ∧
      fs.filedescs.read address = none

/-- The structs are numbered and listed as the files, and count the
descriptors on them. -/
structure FilesAs (fs : FsState) (files : List StoredFile) (references : Nat → Nat) : Prop where
  linked : Linked fs.files fs.fileList
  created : fs.files.next = files.length
  structs : ∀ (file : Nat) (stored : StoredFile), files[file]? = some stored → ∃ struct,
    fs.files.read file = some struct ∧ FileAs fs stored struct ∧ struct.refs = references file

structure Represents (fs : FsState) (store : FileStore) : Prop where
  error : fs.ufsErrCode = store.error
  messages : fs.stderr = store.messages
  table : TableAs fs store.descriptors
  files : FilesAs fs store.files store.references
  formed : WellFormed store

theorem represents_initial : Represents initial empty := by
  have table : TableAs initial [] := by
    constructor
    · rfl
    · exact List.length_replicate
    · intro number descriptor present
      cases present
    · intro number other address below
      exact absurd below (Nat.not_lt_zero number)
    · intro number slot _ entry
      exact .inl (List.eq_of_mem_replicate (List.mem_of_getElem? entry))
  have files : FilesAs initial [] empty.references := by
    refine ⟨FileList.linked_initial, rfl, ?_⟩
    intro file stored present
    cases present
  exact ⟨rfl, rfl, table, files, well_formed_empty⟩

section Lookups

variable {fs : FsState} {store : FileStore}

theorem none_freed {files : List StoredFile} {references : Nat → Nat}
    (held : FilesAs fs files references) : NoneFreed fs.files := by
  intro file below
  rw [held.created] at below
  obtain ⟨struct, present, _⟩ := held.structs file _ (List.getElem?_eq_getElem below)
  exact ⟨struct, present⟩

theorem find_named (held : Represents fs store) (filename : String) :
    findFileStruct filename fs = .ok (store.named filename) := by
  have linked := held.files.linked
  have found : ∃ file, findFileStruct filename fs = .ok file := by
    unfold findFileStruct
    rw [linked.head]
    exact find_from_ok linked (none_freed held.files) filename (Nat.le_refl _) (Nat.le_refl _)
  obtain ⟨file, walked⟩ := found
  rw [walked]
  congr 1
  cases file with
  | none =>
      apply Eq.symm
      apply named_eq_none.mpr
      intro file stored present hasName
      obtain ⟨struct, there, as, _⟩ := held.files.structs file stored present
      exact find_file_none linked walked there (by rw [as.name, hasName])
  | some file =>
      obtain ⟨struct, there, hasName⟩ := find_file_some walked
      have below := Heap.lt_next_of_read there
      rw [held.files.created] at below
      obtain ⟨other, read, as, _⟩ := held.files.structs file _ (List.getElem?_eq_getElem below)
      rw [there] at read
      cases read
      apply Eq.symm
      apply (named_eq_some held.formed).mpr
      exact ⟨_, List.getElem?_eq_getElem below, by rw [← as.name, hasName]⟩

/-- What a number leads to: its descriptor, or nothing that a call can use. -/
inductive Lookup (fs : FsState) (store : FileStore) (number : Int) : Prop where
  | here {descriptor : OpenFile} {address : Nat} (nonneg : 0 ≤ number)
      (isOpen : store.opened number = .ok descriptor)
      (present : store.descriptors[number.toNat]? = some descriptor)
      (entry : fileDescriptorAt fs number = .ok (some address))
      (leads : EntryAs fs number.toNat address descriptor)
  | freed {address : Nat} (shut : store.opened number = .error .badPointer)
      (entry : fileDescriptorAt fs number = .ok (some address))
      (absent : fs.filedescs.read address = none)
  | stops {halt : Halt} (shut : store.opened number = .error halt)
      (entry : fileDescriptorAt fs number = .error halt)

theorem lookup (held : Represents fs store) (number : Int) : Lookup fs store number := by
  have capacity := held.table.capacity
  have room := held.formed.room
  by_cases inside : 0 ≤ number ∧ number < fileDescriptorCapacity
  · cases found : store.descriptors[number.toNat]? with
    | some descriptor =>
        obtain ⟨address, leads⟩ := held.table.entries _ _ found
        refine .here inside.1 ?_ found (fileDescriptorAt_eq_some.mpr ⟨inside.1, leads.1⟩) leads
        simp only [FileStore.opened, if_pos inside, found]
    | none =>
        have shut : store.opened number = .error .badPointer := by
          simp only [FileStore.opened, if_pos inside, found]
        have above := List.getElem?_eq_none_iff.mp found
        have bound : number.toNat < fs.fileDescriptors.length := by omega
        have entry := List.getElem?_eq_getElem bound
        rcases held.table.closed _ _ above entry with unset | ⟨address, isEntry, _, absent⟩
        · apply Lookup.stops shut
          simp only [fileDescriptorAt, if_pos inside.1, entry, unset]
        · refine .freed shut (fileDescriptorAt_eq_some.mpr ⟨inside.1, ?_⟩) absent
          rw [entry, isEntry]
  · apply @Lookup.stops fs store number .outOfRange
    · simp only [FileStore.opened, if_neg inside]
    · unfold fileDescriptorAt
      split_ifs with sign
      · have outside : fs.fileDescriptors.length ≤ number.toNat := by
          rw [capacity]
          omega
        simp only [List.getElem?_eq_none outside]
      · rfl

end Lookups

/-! ## What stays -/

section Kept

variable {fs after : FsState}

theorem file_as_mono {stored : StoredFile} {struct : File} (held : FileAs fs stored struct)
    (blockArrays : ∀ array blocks, fs.blockArrays.read array = some blocks →
      after.blockArrays.read array = some blocks)
    (buffers : ∀ buffer bytes, fs.buffers.read buffer = some bytes →
      after.buffers.read buffer = some bytes) : FileAs after stored struct := by
  refine ⟨held.name, ?_⟩
  intro content written
  obtain ⟨array, buffer, size, data, first, stores, bytes⟩ := held.chain content written
  exact ⟨array, buffer, size, data, first,
    stores_mono stores (blockArrays array) (buffers buffer), bytes⟩

theorem table_as_same {descriptors : List OpenFile} (held : TableAs fs descriptors)
    (slots : after.fileDescriptors = fs.fileDescriptors)
    (count : after.fileDescriptorCount = fs.fileDescriptorCount)
    (filedescs : ∀ address, after.filedescs.read address = fs.filedescs.read address)
    (next : fs.filedescs.next ≤ after.filedescs.next) : TableAs after descriptors := by
  constructor
  · rw [count]
    exact held.count
  · rw [slots]
    exact held.capacity
  · intro number descriptor present
    obtain ⟨address, entry, leads⟩ := held.entries number descriptor present
    exact ⟨address, by rw [slots]; exact entry, by rw [filedescs]; exact leads⟩
  · rw [slots]
    exact held.apart
  · intro number slot above entry
    rw [slots] at entry
    rcases held.closed number slot above entry with unset | ⟨address, same, below, absent⟩
    · exact .inl unset
    · exact .inr ⟨address, same, by omega, by rw [filedescs]; exact absent⟩

theorem table_as_moved {descriptors : List OpenFile} {number address : Nat}
    {descriptor changed : OpenFile} (held : TableAs fs descriptors)
    (present : descriptors[number]? = some descriptor) (leads : EntryAs fs number address descriptor)
    (slots : after.fileDescriptors = fs.fileDescriptors)
    (count : after.fileDescriptorCount = fs.fileDescriptorCount)
    (filedescs : after.filedescs = fs.filedescs.write address
      ⟨some changed.file, changed.offset, changed.mode⟩) :
    TableAs after (descriptors.set number changed) := by
  have bound := (List.getElem?_eq_some_iff.mp present).1
  constructor
  · rw [count, List.length_set]
    exact held.count
  · rw [slots]
    exact held.capacity
  · intro other found there
    by_cases here : number = other
    · subst here
      rw [List.getElem?_set_self bound] at there
      cases there
      refine ⟨address, by rw [slots]; exact leads.1, ?_⟩
      rw [filedescs, Heap.read_write_self _ (Heap.lt_next_of_read leads.2)]
    · rw [List.getElem?_set_ne here] at there
      obtain ⟨otherAddress, entry, read⟩ := held.entries other found there
      refine ⟨otherAddress, by rw [slots]; exact entry, ?_⟩
      have different : otherAddress ≠ address := by
        intro same
        subst same
        exact here (held.apart number other otherAddress bound
          (List.getElem?_eq_some_iff.mp there).1 leads.1 entry)
      rw [filedescs, Heap.read_write_of_ne _ different]
      exact read
  · rw [slots, List.length_set]
    exact held.apart
  · intro other slot above entry
    rw [List.length_set] at above
    rw [slots] at entry
    rcases held.closed other slot above entry with unset | ⟨stale, same, below, absent⟩
    · exact .inl unset
    · refine .inr ⟨stale, same, by rw [filedescs, Heap.next_write]; exact below, ?_⟩
      have different : stale ≠ address := by
        intro same
        rw [same, leads.2] at absent
        cases absent
      rw [filedescs, Heap.read_write_of_ne _ different]
      exact absent

theorem files_as_same {files : List StoredFile} {references changed : Nat → Nat}
    (held : FilesAs fs files references) (same : after.files = fs.files)
    (list : after.fileList = fs.fileList) (blockArrays : after.blockArrays = fs.blockArrays)
    (buffers : after.buffers = fs.buffers) (counts : ∀ file, changed file = references file) :
    FilesAs after files changed := by
  constructor
  · rw [same, list]
    exact held.linked
  · rw [same]
    exact held.created
  · intro file stored present
    obtain ⟨struct, there, as, refs⟩ := held.structs file stored present
    refine ⟨struct, by rw [same]; exact there, ?_, by rw [counts]; exact refs⟩
    apply file_as_mono as
    · rw [blockArrays]
      exact fun _ _ read => read
    · rw [buffers]
      exact fun _ _ read => read

theorem files_as_changed {files : List StoredFile} {references counted : Nat → Nat} {file : Nat}
    {struct changed : File} {change : StoredFile → StoredFile} (held : FilesAs fs files references)
    (present : fs.files.read file = some struct) (files' : after.files = fs.files.write file changed)
    (list : after.fileList = fs.fileList) (prev : changed.prev = struct.prev)
    (as : ∀ stored, FileAs fs stored struct → FileAs after (change stored) changed)
    (refs : struct.refs = (references file : Int) → changed.refs = (counted file : Int))
    (counts : ∀ other, other ≠ file → counted other = references other)
    (blockArrays : ∀ array blocks, fs.blockArrays.read array = some blocks →
      after.blockArrays.read array = some blocks)
    (buffers : ∀ buffer bytes, fs.buffers.read buffer = some bytes →
      after.buffers.read buffer = some bytes) :
    FilesAs after (files.modify file change) counted := by
  constructor
  · rw [files', list]
    exact linked_write held.linked present prev
  · rw [files', Heap.next_write, List.length_modify]
    exact held.created
  · intro other stored there
    rw [List.getElem?_modify] at there
    obtain ⟨before, was, rfl⟩ := Option.map_eq_some_iff.mp there
    obtain ⟨old, read, oldAs, oldRefs⟩ := held.structs other before was
    by_cases here : file = other
    · subst here
      rw [present] at read
      cases read
      refine ⟨changed, ?_, ?_, refs oldRefs⟩
      · rw [files', Heap.read_write_self _ (Heap.lt_next_of_read present)]
      · rw [if_pos rfl]
        exact as before oldAs
    · refine ⟨old, ?_, ?_, ?_⟩
      · rw [files', Heap.read_write_of_ne _ (Ne.symm here)]
        exact read
      · rw [if_neg here]
        exact file_as_mono oldAs blockArrays buffers
      · rw [counts other (Ne.symm here)]
        exact oldRefs

theorem files_as_counted {files : List StoredFile} {references counted : Nat → Nat} {file : Nat}
    {struct : File} {refs : Int} (held : FilesAs fs files references)
    (present : fs.files.read file = some struct)
    (files' : after.files = fs.files.write file { struct with refs := refs })
    (list : after.fileList = fs.fileList)
    (own : struct.refs = (references file : Int) → refs = (counted file : Int))
    (counts : ∀ other, other ≠ file → counted other = references other)
    (blockArrays : after.blockArrays = fs.blockArrays) (buffers : after.buffers = fs.buffers) :
    FilesAs after files counted := by
  have arrays : ∀ array blocks, fs.blockArrays.read array = some blocks →
      after.blockArrays.read array = some blocks := by
    rw [blockArrays]
    exact fun _ _ read => read
  have bytes : ∀ buffer bytes, fs.buffers.read buffer = some bytes →
      after.buffers.read buffer = some bytes := by
    rw [buffers]
    exact fun _ _ read => read
  have as : ∀ stored, FileAs fs stored struct →
      FileAs after (id stored) { struct with refs := refs } := by
    intro stored as
    have kept := file_as_mono as arrays bytes
    exact ⟨kept.name, kept.chain⟩
  have changed := files_as_changed held present files' list rfl as own counts arrays bytes
  rwa [List.modify_id] at changed

end Kept

end Sysprog.Userfs.StoreRepresentation
