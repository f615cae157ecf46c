import Sysprog.Userfs.RecordedDescriptors

/-!
# Files on record

A struct that still has its name is the one the client knows under that name.
Together with the descriptors this makes the client's ledger an account of
the memory that every call keeps, whatever the order of the calls.
-/

namespace Sysprog.Userfs.RecordedFiles

open CheckedRuns Memory Blocks Calls CallEffects ClientLedger DescriptorNumbers FileList
open RecordedDescriptors

set_option autoImplicit false

variable {garbage : Garbage}

def NamesRecorded (named : String → Option Nat) (files : Heap File) : Prop :=
  ∀ file struct name, files.read file = some struct → struct.name = some name →
    named name = some file

structure Recorded (ledger : Ledger) (fs : FsState) : Prop where
  linked : Linked fs.files fs.fileList
  created : ledger.created = fs.files.next
  names : NamesRecorded ledger.named fs.files
  descriptors : DescriptorsRecorded ledger fs

theorem recorded_initial : Recorded emptyLedger initial := by
  refine ⟨linked_initial, rfl, ?_, descriptors_recorded_initial⟩
  intro file struct name present
  simp [initial] at present

theorem find_from_some {files : Heap File} {filename : String} {fuel : Nat} {start : Option Nat}
    {file : Nat} (found : findFileFrom files filename fuel start = .ok (some file)) :
    ∃ struct, files.read file = some struct ∧ struct.name = some filename := by
  induction fuel generalizing start with
  | zero => cases start <;> cases found
  | succ fuel ih =>
      cases start with
      | none => cases found
      | some address =>
          obtain ⟨struct, dereferenced, rest⟩ := bind_eq_ok.mp found
          obtain ⟨_, same, present⟩ := deref_eq_ok.mp dereferenced
          cases same
          split_ifs at rest with named
          · cases rest
            exact ⟨struct, present, named⟩
          · exact ih rest

/-- A walk that ends with NULL has passed every struct below its start. -/
theorem find_from_none {files : Heap File} {list : Option Nat} (linked : Linked files list)
    {filename : String} {fuel bound : Nat}
    (absent : findFileFrom files filename fuel (previous bound) = .ok none) {file : Nat}
    {struct : File} (below : file < bound) (present : files.read file = some struct) :
    struct.name ≠ some filename := by
  induction fuel generalizing bound with
  | zero =>
      cases bound with
      | zero => omega
      | succ newest => cases absent
  | succ fuel ih =>
      cases bound with
      | zero => omega
      | succ newest =>
          obtain ⟨found, dereferenced, rest⟩ := bind_eq_ok.mp absent
          obtain ⟨_, same, read⟩ := deref_eq_ok.mp dereferenced
          cases same
          split_ifs at rest with named
          · cases rest
          · rw [linked.prev newest found read] at rest
            by_cases here : file = newest
            · subst here
              rw [read] at present
              cases present
              exact named
            · exact ih rest (by omega)

theorem find_file_some {fs : FsState} {filename : String} {file : Nat}
    (found : findFileStruct filename fs = .ok (some file)) :
    ∃ struct, fs.files.read file = some struct ∧ struct.name = some filename :=
  find_from_some found

theorem find_file_none {fs : FsState} {filename : String} {file : Nat} {struct : File}
    (linked : Linked fs.files fs.fileList) (absent : findFileStruct filename fs = .ok none)
    (present : fs.files.read file = some struct) : struct.name ≠ some filename := by
  unfold findFileStruct at absent
  rw [linked.head] at absent
  exact find_from_none linked absent (Heap.lt_next_of_read present) present

theorem names_write {named : String → Option Nat} {files : Heap File} {file : Nat}
    {struct changed : File} (held : NamesRecorded named files)
    (present : files.read file = some struct) (name : changed.name = struct.name) :
    NamesRecorded named (files.write file changed) := by
  intro other found otherName read hasName
  rcases Heap.read_write_cases present read with ⟨rfl, rfl⟩ | ⟨_, before⟩
  · rw [name] at hasName
    exact held other struct otherName present hasName
  · exact held other found otherName before hasName

theorem names_release {named : String → Option Nat} {files : Heap File} {file : Nat}
    (held : NamesRecorded named files) : NamesRecorded named (files.release file) := by
  intro other found name read hasName
  exact held other found name (Heap.read_of_read_release read).2 hasName

theorem names_create {named : String → Option Nat} {fs : FsState} {files : Heap File}
    {filename : String} (held : NamesRecorded named fs.files)
    (linked : Linked fs.files fs.fileList) (absent : findFileStruct filename fs = .ok none)
    (created : linkOlder (fs.files.alloc (newFile garbage filename fs)) fs.fileList
      fs.files.next = .ok files) :
    NamesRecorded (Function.update named filename (some fs.files.next)) files := by
  intro file struct name read hasName
  obtain ⟨original, next, present, rfl⟩ := linkOlder_read created read
  by_cases isNew : file = fs.files.next
  · subst isNew
    rw [Heap.read_alloc_next] at present
    cases present
    have same : filename = name := Option.some.inj hasName
    rw [← same, Function.update_self]
  · rw [Heap.read_alloc_of_ne _ isNew] at present
    have different : name ≠ filename := by
      rintro rfl
      exact find_file_none linked absent present hasName
    rw [Function.update_of_ne different]
    exact held file original name present hasName

theorem names_delete {named : String → Option Nat} {files : Heap File} {filename : String}
    {file : Nat} {struct : File} (held : NamesRecorded named files)
    (present : files.read file = some struct) (hasName : struct.name = some filename) :
    NamesRecorded (Function.update named filename none)
      (files.write file { struct with name := none }) := by
  intro other found name read otherName
  rcases Heap.read_write_cases present read with ⟨rfl, rfl⟩ | ⟨here, read⟩
  · cases otherName
  · have before := held other found name read otherName
    have different : name ≠ filename := by
      rintro rfl
      rw [held file struct name present hasName] at before
      exact here (Option.some.inj before).symm
    rw [Function.update_of_ne different]
    exact before

theorem recorded_unchanged {ledger recorded : Ledger} {fs after : FsState}
    (held : Recorded ledger fs) (same : SameDescriptors fs after)
    (linked : Linked after.files after.fileList) (next : after.files.next = fs.files.next)
    (names : NamesRecorded ledger.named after.files)
    (descriptors : recorded.descriptors = ledger.descriptors)
    (target : recorded.target = ledger.target) (created : recorded.created = ledger.created)
    (named : recorded.named = ledger.named) : Recorded recorded after := by
  refine ⟨linked, ?_, ?_, recorded_same held.descriptors same descriptors target⟩
  · rw [created, next]
    exact held.created
  · rw [named]
    exact names

theorem recorded_open {history : History} {fs after : FsState} {filename : String}
    {flags : BitVec 32} {value : Int} (held : Recorded (ledgerOf history) fs)
    (linked : Linked after.files after.fileList)
    (effect : OpenEffect garbage filename flags fs value after) :
    Recorded (recordOpen (ledgerOf history) filename flags value) after := by
  cases effect with
  | failed code =>
      exact recorded_unchanged held (same_descriptors_of_open_failure code fs) linked rfl
        held.names rfl rfl rfl rfl
  | @created value after files creating absent created opened listed =>
      have successful := opened_not_failed opened
      obtain ⟨struct, present, filesAfter⟩ := opened.refs
      obtain ⟨kept, origin⟩ := created_files created
      have noneOpen := none_open_on_next held.descriptors
      have counted : ∀ other struct', files.read other = some struct' →
          ((openOn (ledgerOf history) other).card : Int) ≤ struct'.refs := by
        intro other struct' read
        rcases origin other struct' read with ⟨rfl, refs⟩ | ⟨before, read, refs⟩
        · rw [noneOpen, refs]
          simp
        · rw [refs]
          exact held.descriptors.counted other before read
      unfold recordOpen
      rw [if_neg successful, if_pos creating]
      refine ⟨linked, ?_, ?_, ?_⟩
      · rw [filesAfter, Heap.next_write, linkOlder_next created, Heap.next_alloc, held.created]
      · rw [filesAfter]
        simp only [held.created]
        exact names_write (names_create held.names held.linked absent created) present rfl
      · apply recorded_opened held.descriptors opened kept counted rfl
        simp only [held.created]
  | @existing value offset after file opening found opened listed =>
      have successful := opened_not_failed opened
      obtain ⟨struct, present, filesAfter⟩ := opened.refs
      obtain ⟨struct', present', hasName⟩ := find_file_some found
      have known := held.names file struct' filename present' hasName
      unfold recordOpen
      rw [if_neg successful, if_neg (not_not.mpr opening)]
      refine ⟨linked, ?_, ?_, ?_⟩
      · rw [filesAfter, Heap.next_write, held.created]
      · rw [filesAfter]
        exact names_write held.names present rfl
      · apply recorded_opened held.descriptors opened
        · intro other before read
          exact ⟨before, read⟩
        · exact held.descriptors.counted
        · rfl
        · simp only [known, Option.getD_some]

theorem recorded_write {history : History} {fs after : FsState} {fdno value : Int}
    {buf : List Byte} {size : Nat} (held : Recorded (ledgerOf history) fs)
    (linked : Linked after.files after.fileList)
    (effect : WriteEffect fdno buf size fs value after) :
    Recorded (recordWrite (ledgerOf history) fdno buf value) after := by
  cases effect with
  | failed code =>
      exact recorded_unchanged held (same_descriptors_of_failed code fs) linked rfl held.names
        rfl rfl rfl rfl
  | written capped nonempty entry descriptor target present rounds =>
      unfold recordWrite
      split_ifs <;>
        exact recorded_unchanged held
          (same_descriptors_of_write present rfl rfl rfl (filedescs_of_moved descriptor)) linked
          (by simp) (names_write held.names present rfl) rfl rfl rfl rfl

theorem recorded_close {history : History} {fs after : FsState} {fdno value : Int}
    (held : Recorded (ledgerOf history) fs) (member : fdno ∈ (ledgerOf history).descriptors)
    (linked : Linked after.files after.fileList) (effect : CloseEffect fdno fs value after) :
    Recorded (recordClose (ledgerOf history) fdno value) after := by
  cases effect with
  | failed entry =>
      exact recorded_unchanged held (same_descriptors_of_failed .noFile fs) linked rfl held.names
        rfl rfl rfl rfl
  | @kept fd file desc struct entry descriptor target present remaining =>
      have known := target_of_entry held.descriptors member entry descriptor target
      refine ⟨linked, ?_, names_write held.names present rfl, ?_⟩
      · simp only [Heap.next_write]
        exact held.created
      · apply recorded_closed held.descriptors member entry
        · rfl
        · rfl
        · intro other otherMember different
          obtain ⟨found, read⟩ := held.descriptors.allocated other otherMember
          exact Heap.exists_read_write _ read
        · intro other struct' read
          rcases Heap.read_write_cases present read with ⟨rfl, rfl⟩ | ⟨here, before⟩
          · exact ⟨struct, present, by rw [if_pos known.symm]⟩
          · have elsewhere : other ≠ (ledgerOf history).target fdno := by
              rw [known]
              exact here
            exact ⟨struct', before, by rw [if_neg elsewhere, Int.sub_zero]⟩
        · rfl
        · rfl
  | @released fd file desc struct freed entry descriptor target present last deallocated =>
      have known := target_of_entry held.descriptors member entry descriptor target
      obtain ⟨table, _, filedescs, _, files⟩ := deallocateFile_frame deallocated
      refine ⟨linked, ?_, ?_, ?_⟩
      · simp only [files, Heap.next_release, Heap.next_write]
        exact held.created
      · simp only [files]
        exact names_release (names_write held.names present rfl)
      · apply recorded_closed held.descriptors member entry
        · exact table
        · simp only [filedescs]
        · intro other otherMember different
          obtain ⟨found, read⟩ := held.descriptors.allocated other otherMember
          have elsewhere : (ledgerOf history).target other ≠ file := by
            intro same
            rw [← known] at present same
            exact different (only_open_of_last held.descriptors member present last otherMember
              same)
          refine ⟨found, ?_⟩
          rw [files, Heap.read_release_of_ne elsewhere, Heap.read_write_of_ne _ elsewhere]
          exact read
        · intro other struct' read
          simp only [files] at read
          obtain ⟨elsewhere, read⟩ := Heap.read_of_read_release read
          rw [Heap.read_write_of_ne _ elsewhere] at read
          rw [← known] at elsewhere
          exact ⟨struct', read, by rw [if_neg elsewhere, Int.sub_zero]⟩
        · rfl
        · rfl

theorem recorded_delete {history : History} {fs after : FsState} {filename : String} {value : Int}
    (held : Recorded (ledgerOf history) fs) (linked : Linked after.files after.fileList)
    (effect : DeleteEffect filename fs value after) :
    Recorded (recordDelete (ledgerOf history) filename value) after := by
  cases effect with
  | absent missing => exact held
  | @deleted file struct found present =>
      obtain ⟨struct', present', hasName⟩ := find_file_some found
      rw [present] at present'
      cases present'
      have same : SameDescriptors fs { fs with
          files := fs.files.write file { struct with name := none } } :=
        same_descriptors_of_write present rfl rfl rfl fun _ desc read => ⟨desc, read, rfl⟩
      refine ⟨linked, ?_, names_delete held.names present hasName,
        recorded_same held.descriptors same rfl rfl⟩
      simp only [Heap.next_write]
      exact held.created

/-- Every call on open descriptors that returns keeps the ledger's account of
the memory. -/
theorem recorded_step {history : History} {fs after : FsState} {call : Call} {reply : Reply}
    (held : Recorded (ledgerOf history) fs) (passes : PassesOpen history call)
    (effect : CallEffect garbage fs call reply after) :
    Recorded (ledgerOf (history ++ [⟨call, reply⟩])) after := by
  have linked := linked_step held.linked effect
  rw [ledger_of_snoc]
  cases effect with
  | ofOpen effect => exact recorded_open held linked effect
  | ofWrite effect => exact recorded_write held linked effect
  | ofRead effect =>
      cases effect with
      | failed code =>
          exact recorded_unchanged held (same_descriptors_of_failed code fs) linked rfl held.names
            rfl rfl rfl rfl
      | @moved fd desc offset descriptor =>
          have same : SameDescriptors fs { fs with
              filedescs := fs.filedescs.write fd { desc with offset := offset } } :=
            ⟨rfl, filedescs_of_moved descriptor, fun _ struct read => ⟨struct, read⟩,
              fun _ struct read => ⟨struct, read, rfl⟩⟩
          exact recorded_unchanged held same linked rfl held.names rfl rfl rfl rfl
  | ofClose effect => exact recorded_close held passes linked effect
  | ofDelete effect => exact recorded_delete held linked effect
  | ofSize effect =>
      rcases effect with rfl | rfl
      · exact held
      · exact recorded_unchanged held (same_descriptors_of_failed .noFile fs) linked rfl
          held.names rfl rfl rfl rfl

end Sysprog.Userfs.RecordedFiles
