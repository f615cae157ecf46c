import Sysprog.Userfs.FileList

/-!
# Descriptors on record

Every descriptor a client has open leads through the table to a struct of its
own, open on the file the client opened it on, and a file has at least as
many references as it has open descriptors. This holds whatever number
`ufs_open` hands out: a descriptor that is overwritten in the table keeps its
reference for ever.
-/

namespace Sysprog.Userfs.RecordedDescriptors

open CheckedRuns Memory Blocks Calls CallEffects ClientLedger DescriptorNumbers FileList

set_option autoImplicit false

variable {garbage : Garbage}

def LeadsTo (fs : FsState) (fdno : Int) (address file : Nat) : Prop :=
  fileDescriptorAt fs fdno = .ok (some address) ∧
    ∃ desc, fs.filedescs.read address = some desc ∧ desc.file = some file

def openOn (ledger : Ledger) (file : Nat) : Finset Int :=
  ledger.descriptors.filter fun fdno => ledger.target fdno = file

structure DescriptorsRecorded (ledger : Ledger) (fs : FsState) : Prop where
  leads : ∀ fdno ∈ ledger.descriptors, ∃ address, LeadsTo fs fdno address (ledger.target fdno)
  apart : ∀ fdno ∈ ledger.descriptors, ∀ other ∈ ledger.descriptors, ∀ address,
    fileDescriptorAt fs fdno = .ok (some address) →
    fileDescriptorAt fs other = .ok (some address) → fdno = other
  allocated : ∀ fdno ∈ ledger.descriptors, ∃ struct, fs.files.read (ledger.target fdno) = some struct
  counted : ∀ file struct, fs.files.read file = some struct →
    ((openOn ledger file).card : Int) ≤ struct.refs

theorem descriptors_recorded_initial : DescriptorsRecorded emptyLedger initial := by
  constructor
  · intro fdno absent
    exact absurd absent (Finset.notMem_empty fdno)
  · intro fdno absent
    exact absurd absent (Finset.notMem_empty fdno)
  · intro fdno absent
    exact absurd absent (Finset.notMem_empty fdno)
  · intro file struct present
    simp [initial] at present

theorem pointer_of_same_table {fs after : FsState}
    (table : after.fileDescriptors = fs.fileDescriptors) (fdno : Int) :
    fileDescriptorAt after fdno = fileDescriptorAt fs fdno := by
  simp only [fileDescriptorAt, table]

/-- What a call does to the structs when it opens and closes nothing. -/
structure SameDescriptors (fs after : FsState) : Prop where
  table : after.fileDescriptors = fs.fileDescriptors
  filedescs : ∀ address desc, fs.filedescs.read address = some desc →
    ∃ desc', after.filedescs.read address = some desc' ∧ desc'.file = desc.file
  files : ∀ file struct, fs.files.read file = some struct →
    ∃ struct', after.files.read file = some struct'
  refs : ∀ file struct', after.files.read file = some struct' →
    ∃ struct, fs.files.read file = some struct ∧ struct'.refs = struct.refs

theorem recorded_same {ledger recorded : Ledger} {fs after : FsState}
    (held : DescriptorsRecorded ledger fs) (same : SameDescriptors fs after)
    (descriptors : recorded.descriptors = ledger.descriptors)
    (target : recorded.target = ledger.target) : DescriptorsRecorded recorded after := by
  constructor
  · intro fdno member
    rw [descriptors] at member
    obtain ⟨address, pointer, desc, present, opened⟩ := held.leads fdno member
    obtain ⟨desc', present', file⟩ := same.filedescs address desc present
    refine ⟨address, ?_, desc', present', ?_⟩
    · rw [pointer_of_same_table same.table]
      exact pointer
    · rw [file, target]
      exact opened
  · intro fdno member other otherMember address
    rw [descriptors] at member otherMember
    rw [pointer_of_same_table same.table, pointer_of_same_table same.table]
    exact held.apart fdno member other otherMember address
  · intro fdno member
    rw [descriptors] at member
    obtain ⟨struct, present⟩ := held.allocated fdno member
    rw [target]
    exact same.files _ struct present
  · intro file struct' present'
    obtain ⟨struct, present, refs⟩ := same.refs file struct' present'
    rw [refs, openOn, descriptors, target]
    exact held.counted file struct present

theorem same_descriptors_of_write {fs after : FsState} {file : Nat} {struct changed : File}
    (present : fs.files.read file = some struct)
    (table : after.fileDescriptors = fs.fileDescriptors)
    (files : after.files = fs.files.write file changed) (refs : changed.refs = struct.refs)
    (filedescs : ∀ address desc, fs.filedescs.read address = some desc →
      ∃ desc', after.filedescs.read address = some desc' ∧ desc'.file = desc.file) :
    SameDescriptors fs after := by
  refine ⟨table, filedescs, ?_, ?_⟩
  · intro other found read
    rw [files]
    exact Heap.exists_read_write changed read
  · intro other found read
    rw [files] at read
    rcases Heap.read_write_cases present read with ⟨rfl, rfl⟩ | ⟨_, before⟩
    · exact ⟨struct, present, refs⟩
    · exact ⟨found, before, rfl⟩

theorem filedescs_of_moved {filedescs : Heap Filedesc} {fd : Nat} {desc : Filedesc} {offset : Int}
    (descriptor : filedescs.read fd = some desc) (address : Nat) (found : Filedesc)
    (present : filedescs.read address = some found) :
    ∃ desc', (filedescs.write fd { desc with offset := offset }).read address = some desc' ∧
      desc'.file = found.file := by
  by_cases here : address = fd
  · subst here
    rw [descriptor] at present
    cases present
    exact ⟨_, Heap.read_write_self _ (Heap.lt_next_of_read descriptor), rfl⟩
  · exact ⟨found, by rw [Heap.read_write_of_ne _ here]; exact present, rfl⟩

theorem same_descriptors_of_failed (code : UfsErrorCode) (fs : FsState) :
    SameDescriptors fs (fail code fs).2 :=
  ⟨rfl, fun _ desc present => ⟨desc, present, rfl⟩, fun _ struct present => ⟨struct, present⟩,
    fun _ struct present => ⟨struct, present, rfl⟩⟩

theorem same_descriptors_of_open_failure (code : UfsErrorCode) (fs : FsState) :
    SameDescriptors fs (openFailure garbage code fs) := by
  refine ⟨rfl, ?_, fun _ struct present => ⟨struct, present⟩,
    fun _ struct present => ⟨struct, present, rfl⟩⟩
  intro address desc present
  refine ⟨desc, ?_, rfl⟩
  have old : address ≠ fs.filedescs.next := Nat.ne_of_lt (Heap.lt_next_of_read present)
  simp only [openFailure, fail]
  rw [Heap.read_release_of_ne old, Heap.read_alloc_of_ne _ old]
  exact present

section Opening

variable {ledger recorded : Ledger} {fs after : FsState} {files : Heap File} {file : Nat}
  {offset value : Int} {flags : BitVec 32}

theorem opened_leads (opened : Opened garbage fs after files file offset flags value) :
    LeadsTo after value fs.filedescs.next file := by
  constructor
  · apply fileDescriptorAt_eq_some.mpr
    rw [opened.table, opened.value_eq, List.getElem?_set_self opened.inside]
    exact ⟨opened.nonneg, rfl⟩
  · rw [opened.filedescs, Heap.read_write_self _ (by simp)]
    exact ⟨_, rfl, rfl⟩

theorem leads_of_opened {other : Int} {address target : Nat}
    (opened : Opened garbage fs after files file offset flags value)
    (leads : LeadsTo fs other address target) (different : other ≠ value) :
    LeadsTo after other address target := by
  obtain ⟨pointer, desc, read, isOpen⟩ := leads
  have nonneg := (fileDescriptorAt_eq_some.mp pointer).1
  constructor
  · rw [pointer_of_opened opened nonneg different]
    exact pointer
  · rw [filedesc_of_opened opened (Heap.lt_next_of_read read)]
    exact ⟨desc, read, isOpen⟩

theorem old_pointer_of_opened {other : Int} {address : Nat} (held : DescriptorsRecorded ledger fs)
    (opened : Opened garbage fs after files file offset flags value)
    (member : other ∈ ledger.descriptors) (different : other ≠ value)
    (pointer : fileDescriptorAt after other = .ok (some address)) :
    fileDescriptorAt fs other = .ok (some address) ∧ address ≠ fs.filedescs.next := by
  obtain ⟨before, leads⟩ := held.leads other member
  have same := (leads_of_opened opened leads different).1
  rw [pointer] at same
  cases same
  obtain ⟨earlier, desc, read, _⟩ := leads
  exact ⟨earlier, Nat.ne_of_lt (Heap.lt_next_of_read read)⟩

theorem apart_of_opened {first second : Int} {address : Nat} (held : DescriptorsRecorded ledger fs)
    (opened : Opened garbage fs after files file offset flags value)
    (firstMember : first ∈ insert value ledger.descriptors)
    (secondMember : second ∈ insert value ledger.descriptors)
    (firstPointer : fileDescriptorAt after first = .ok (some address))
    (secondPointer : fileDescriptorAt after second = .ok (some address)) : first = second := by
  have newest : fileDescriptorAt after value = .ok (some fs.filedescs.next) :=
    (opened_leads opened).1
  by_cases firstNew : first = value
  · by_cases secondNew : second = value
    · rw [firstNew, secondNew]
    · have old := Finset.mem_of_mem_insert_of_ne secondMember secondNew
      have fresh := (old_pointer_of_opened held opened old secondNew secondPointer).2
      rw [firstNew, newest] at firstPointer
      cases firstPointer
      exact absurd rfl fresh
  · have firstOld := Finset.mem_of_mem_insert_of_ne firstMember firstNew
    have firstBefore := old_pointer_of_opened held opened firstOld firstNew firstPointer
    by_cases secondNew : second = value
    · rw [secondNew, newest] at secondPointer
      cases secondPointer
      exact absurd rfl firstBefore.2
    · have secondOld := Finset.mem_of_mem_insert_of_ne secondMember secondNew
      have secondBefore := old_pointer_of_opened held opened secondOld secondNew secondPointer
      exact held.apart first firstOld second secondOld address firstBefore.1 secondBefore.1

theorem card_open_on_opened (descriptors : recorded.descriptors = insert value ledger.descriptors)
    (target : recorded.target = Function.update ledger.target value file) (other : Nat) :
    (openOn recorded other).card ≤
      (openOn ledger other).card + if other = file then 1 else 0 := by
  have subset : openOn recorded other ⊆
      if other = file then insert value (openOn ledger other) else openOn ledger other := by
    intro fdno member
    rw [openOn, Finset.mem_filter, descriptors, target] at member
    by_cases own : fdno = value
    · subst own
      rw [Function.update_self] at member
      rw [if_pos member.2.symm]
      exact Finset.mem_insert_self _ _
    · rw [Function.update_of_ne own] at member
      have kept : fdno ∈ openOn ledger other := by
        rw [openOn, Finset.mem_filter]
        exact ⟨Finset.mem_of_mem_insert_of_ne member.1 own, member.2⟩
      split_ifs
      · exact Finset.mem_insert_of_mem kept
      · exact kept
  have card := Finset.card_le_card subset
  by_cases here : other = file
  · rw [if_pos here] at card
    rw [if_pos here]
    exact Nat.le_trans card (Finset.card_insert_le value (openOn ledger other))
  · rw [if_neg here] at card
    rw [if_neg here]
    exact card

/-- The reference a new descriptor takes. `files` holds the structs as they
are when `++file->refs` is reached. -/
theorem recorded_opened (held : DescriptorsRecorded ledger fs)
    (opened : Opened garbage fs after files file offset flags value)
    (allocated : ∀ other struct, fs.files.read other = some struct →
      ∃ struct', files.read other = some struct')
    (counted : ∀ other struct, files.read other = some struct →
      ((openOn ledger other).card : Int) ≤ struct.refs)
    (descriptors : recorded.descriptors = insert value ledger.descriptors)
    (target : recorded.target = Function.update ledger.target value file) :
    DescriptorsRecorded recorded after := by
  obtain ⟨struct, present, filesAfter⟩ := opened.refs
  constructor
  · intro fdno member
    rw [descriptors] at member
    rw [target]
    by_cases own : fdno = value
    · rw [own, Function.update_self]
      exact ⟨fs.filedescs.next, opened_leads opened⟩
    · rw [Function.update_of_ne own]
      obtain ⟨address, leads⟩ := held.leads fdno (Finset.mem_of_mem_insert_of_ne member own)
      exact ⟨address, leads_of_opened opened leads own⟩
  · intro fdno member other otherMember address
    rw [descriptors] at member otherMember
    exact apart_of_opened held opened member otherMember
  · intro fdno member
    rw [descriptors] at member
    rw [target, filesAfter]
    by_cases own : fdno = value
    · rw [own, Function.update_self]
      exact Heap.exists_read_write _ present
    · rw [Function.update_of_ne own]
      obtain ⟨before, read⟩ := held.allocated fdno (Finset.mem_of_mem_insert_of_ne member own)
      obtain ⟨found, read'⟩ := allocated _ before read
      exact Heap.exists_read_write _ read'
  · intro other found read
    have grown := card_open_on_opened descriptors target other
    rw [filesAfter] at read
    rcases Heap.read_write_cases present read with ⟨rfl, rfl⟩ | ⟨here, before⟩
    · have known := counted other struct present
      rw [if_pos rfl] at grown
      dsimp only
      omega
    · have known := counted other found before
      rw [if_neg here] at grown
      omega

end Opening

/-- An open descriptor leads to its own struct and its own file, so what a
call finds behind it is what the client expects there. -/
theorem target_of_entry {ledger : Ledger} {fs : FsState} {fdno : Int} {fd file : Nat}
    {desc : Filedesc} (held : DescriptorsRecorded ledger fs) (member : fdno ∈ ledger.descriptors)
    (entry : fileDescriptorAt fs fdno = .ok (some fd))
    (descriptor : fs.filedescs.read fd = some desc) (target : desc.file = some file) :
    ledger.target fdno = file := by
  obtain ⟨address, pointer, found, present, isOpen⟩ := held.leads fdno member
  rw [entry] at pointer
  cases pointer
  rw [descriptor] at present
  cases present
  rw [target] at isOpen
  exact (Option.some.inj isOpen).symm

theorem member_open_on {ledger : Ledger} {fdno : Int} (member : fdno ∈ ledger.descriptors) :
    fdno ∈ openOn ledger (ledger.target fdno) :=
  Finset.mem_filter.mpr ⟨member, rfl⟩

theorem only_open_of_last {ledger : Ledger} {fs : FsState} {fdno other : Int} {struct : File}
    (held : DescriptorsRecorded ledger fs) (member : fdno ∈ ledger.descriptors)
    (present : fs.files.read (ledger.target fdno) = some struct) (last : struct.refs = 1)
    (otherMember : other ∈ ledger.descriptors)
    (same : ledger.target other = ledger.target fdno) : other = fdno := by
  have counted := held.counted _ struct present
  have single : (openOn ledger (ledger.target fdno)).card ≤ 1 := by omega
  have otherOn : other ∈ openOn ledger (ledger.target fdno) :=
    Finset.mem_filter.mpr ⟨otherMember, same⟩
  exact Finset.card_le_one.mp single other otherOn fdno (member_open_on member)

/-- A closed descriptor gives up its reference. The file stays where some
other open descriptor leads to it. -/
theorem recorded_closed {ledger recorded : Ledger} {fs after : FsState} {fdno : Int} {fd : Nat}
    (held : DescriptorsRecorded ledger fs) (member : fdno ∈ ledger.descriptors)
    (entry : fileDescriptorAt fs fdno = .ok (some fd))
    (table : after.fileDescriptors = fs.fileDescriptors)
    (filedescs : after.filedescs = fs.filedescs.release fd)
    (kept : ∀ other ∈ ledger.descriptors, other ≠ fdno →
      ∃ struct, after.files.read (ledger.target other) = some struct)
    (refs : ∀ file struct', after.files.read file = some struct' →
      ∃ struct, fs.files.read file = some struct ∧
        struct'.refs = struct.refs - if file = ledger.target fdno then 1 else 0)
    (descriptors : recorded.descriptors = ledger.descriptors.erase fdno)
    (target : recorded.target = ledger.target) : DescriptorsRecorded recorded after := by
  constructor
  · intro other otherMember
    rw [descriptors] at otherMember
    obtain ⟨different, before⟩ := Finset.mem_erase.mp otherMember
    obtain ⟨address, pointer, desc, present, isOpen⟩ := held.leads other before
    refine ⟨address, ?_, desc, ?_, ?_⟩
    · rw [pointer_of_same_table table]
      exact pointer
    · have own : address ≠ fd := by
        rintro rfl
        exact different (held.apart other before fdno member address pointer entry)
      rw [filedescs, Heap.read_release_of_ne own]
      exact present
    · rw [target]
      exact isOpen
  · intro first firstMember second secondMember address
    rw [descriptors] at firstMember secondMember
    rw [pointer_of_same_table table, pointer_of_same_table table]
    exact held.apart first (Finset.mem_of_mem_erase firstMember) second
      (Finset.mem_of_mem_erase secondMember) address
  · intro other otherMember
    rw [descriptors] at otherMember
    obtain ⟨different, before⟩ := Finset.mem_erase.mp otherMember
    rw [target]
    exact kept other before different
  · intro file struct' present'
    obtain ⟨struct, present, count⟩ := refs file struct' present'
    have before := held.counted file struct present
    have erased : openOn recorded file = (openOn ledger file).erase fdno := by
      rw [openOn, openOn, descriptors, target, Finset.filter_erase]
    rw [erased, count]
    by_cases here : file = ledger.target fdno
    · subst here
      have own := member_open_on member
      have positive := Finset.card_pos.mpr ⟨fdno, own⟩
      rw [Finset.card_erase_of_mem own, if_pos rfl]
      omega
    · have smaller := Finset.card_le_card (Finset.erase_subset fdno (openOn ledger file))
      rw [if_neg here]
      omega

theorem created_files {fs : FsState} {files : Heap File} {filename : String}
    (created : linkOlder (fs.files.alloc (newFile garbage filename fs)) fs.fileList
      fs.files.next = .ok files) :
    (∀ file struct, fs.files.read file = some struct → ∃ struct', files.read file = some struct') ∧
      ∀ file struct', files.read file = some struct' →
        (file = fs.files.next ∧ struct'.refs = 0) ∨
          ∃ struct, fs.files.read file = some struct ∧ struct'.refs = struct.refs := by
  constructor
  · intro file struct present
    rw [(linkOlder_ok created).2 file, Heap.read_alloc_of_read _ present]
    split_ifs
    · exact ⟨_, rfl⟩
    · exact ⟨struct, rfl⟩
  · intro file struct' present'
    obtain ⟨original, next, present, rfl⟩ := linkOlder_read created present'
    by_cases isNew : file = fs.files.next
    · subst isNew
      rw [Heap.read_alloc_next] at present
      cases present
      exact .inl ⟨rfl, rfl⟩
    · rw [Heap.read_alloc_of_ne _ isNew] at present
      exact .inr ⟨original, present, rfl⟩

theorem none_open_on_next {ledger : Ledger} {fs : FsState} (held : DescriptorsRecorded ledger fs) :
    openOn ledger fs.files.next = ∅ := by
  rw [openOn, Finset.filter_eq_empty_iff]
  intro fdno member same
  obtain ⟨struct, present⟩ := held.allocated fdno member
  rw [same] at present
  exact absurd (Heap.lt_next_of_read present) (Nat.lt_irrefl _)

end Sysprog.Userfs.RecordedDescriptors
