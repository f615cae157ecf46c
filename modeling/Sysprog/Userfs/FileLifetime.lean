import Sysprog.Userfs.RecordedFiles
import Sysprog.Userfs.StoredContent

/-!
# How long files live

`ufs_close` frees a file with its last reference and leaves the freed struct
on the list. While it only ever does this to files that were deleted, are
older than every file with a name and have an initialised `block_list`, every
named file is found with the content of its last write.
-/

namespace Sysprog.Userfs.FileLifetime

open CheckedRuns Memory Blocks Calls CallEffects ClientLedger DescriptorNumbers FileList
open StoredContent RecordedDescriptors RecordedFiles

set_option autoImplicit false

variable {garbage : Garbage}

def nameOf (fs : FsState) (file : Nat) : Option String := (fs.files.read file).bind File.name

def blockListOf (fs : FsState) (file : Nat) : Option BlockPointer :=
  (fs.files.read file).bind File.blockList

/-- Before an `ufs_close` that takes the last reference of a file: it and all
older files are deleted, and its `block_list` is NULL or was set by a write. -/
def ReleasesDeleted (ledger : Ledger) (fs : FsState) : Call → Prop
  | .close fd => refsOf fs fd = .ok 1 →
      (∀ older, older ≤ ledger.target fd → nameOf fs older = none) ∧
        (ledger.content (ledger.target fd) ≠ none ∨ blockListOf fs (ledger.target fd) = none)
  | _ => True

instance (ledger : Ledger) (fs : FsState) : (call : Call) → Decidable (ReleasesDeleted ledger fs call)
  | .close fd => inferInstanceAs (Decidable (refsOf fs fd = .ok 1 → _ ∧ _))
  | .open _ _ => .isTrue trivial
  | .write _ _ _ => .isTrue trivial
  | .read _ _ _ => .isTrue trivial
  | .delete _ => .isTrue trivial
  | .size _ => .isTrue trivial

def SafeCloses (history : History) (fs : FsState) (call : Call) : Prop :=
  PassesOpen history call ∧ ReleasesDeleted (ledgerOf history) fs call

instance (history : History) (fs : FsState) (call : Call) :
    Decidable (SafeCloses history fs call) :=
  inferInstanceAs (Decidable (_ ∧ _))

def InUse (ledger : Ledger) (file : Nat) : Prop :=
  (∃ filename, ledger.named filename = some file) ∨
    ∃ fdno ∈ ledger.descriptors, ledger.target fdno = file

/-- What a client may rely on: a file created and not deleted since is found,
and no file in use loses its struct or the content its last write stored. -/
structure FilesKept (ledger : Ledger) (fs : FsState) : Prop where
  found : ∀ filename file, ledger.named filename = some file →
    findFileStruct filename fs = .ok (some file)
  allocated : ∀ file, InUse ledger file → ∃ struct, fs.files.read file = some struct
  content : ∀ file bytes, InUse ledger file → ledger.content file = some bytes →
    contentOf fs file = .ok bytes

/-- Names lead to allocated structs, and whatever was freed is older than
every named file. -/
structure Lifetimes (ledger : Ledger) (fs : FsState) : Prop where
  known : ∀ filename file, ledger.named filename = some file →
    ∃ struct, fs.files.read file = some struct ∧ struct.name = some filename
  freedOld : ∀ freed, freed < fs.files.next → fs.files.read freed = none →
    ∀ older, older ≤ freed → ∀ filename, ledger.named filename ≠ some older

/-- Written files have chains of their own with the bytes on record. A write
allocates one array of blocks and one buffer, so the two have one number. -/
structure Contents (ledger : Ledger) (fs : FsState) : Prop where
  written : ∀ file, ledger.content file ≠ none → file < ledger.created
  paired : fs.blockArrays.next = fs.buffers.next
  stored : ∀ file bytes struct, ledger.content file = some bytes →
    fs.files.read file = some struct → ∃ array size data,
      struct.blockList = some ⟨array, 0⟩ ∧ Stores fs array array size data ∧
        bytes = data.take (storedLength size)
  apart : ∀ file other struct otherStruct, ledger.content file ≠ none →
    ledger.content other ≠ none → fs.files.read file = some struct →
    fs.files.read other = some otherStruct →
    struct.blockList = otherStruct.blockList → file = other

theorem lifetimes_initial : Lifetimes emptyLedger initial := by
  constructor
  · intro filename file named
    cases named
  · intro freed bound
    simp [initial] at bound

theorem contents_initial : Contents emptyLedger initial := by
  constructor
  · intro file written
    exact absurd rfl written
  · rfl
  · intro file bytes struct recorded
    cases recorded
  · intro file other struct otherStruct written
    exact absurd rfl written

/-- The walk reaches a named file when nothing from it up is freed or has its
name too. -/
theorem find_from_named {files : Heap File} {list : Option Nat} (linked : Linked files list)
    {filename : String} {bound fuel file : Nat} {struct : File}
    (present : files.read file = some struct) (hasName : struct.name = some filename)
    (newer : ∀ other, file ≤ other → other < bound → ∃ found, files.read other = some found ∧
      (found.name = some filename → other = file))
    (below : file < bound) (enough : bound ≤ fuel) :
    findFileFrom files filename fuel (previous bound) = .ok (some file) := by
  induction bound generalizing fuel with
  | zero => omega
  | succ newest ih =>
      obtain ⟨fuel, rfl⟩ : ∃ less, fuel = less + 1 := ⟨fuel - 1, by omega⟩
      obtain ⟨found, read, unique⟩ := newer newest (by omega) (by omega)
      have step : findFileFrom files filename (fuel + 1) (previous (newest + 1)) =
          if found.name = some filename then .ok (some newest)
          else findFileFrom files filename fuel found.prev := by
        simp only [previous, findFileFrom, deref, read]
        rfl
      rw [step]
      by_cases here : newest = file
      · subst here
        rw [read] at present
        cases present
        rw [if_pos hasName]
      · have other : found.name ≠ some filename := fun same => here (unique same)
        rw [if_neg other, linked.prev newest found read]
        apply ih
        · intro older lower upper
          exact newer older lower (by omega)
        · omega
        · omega

theorem files_kept_of_invariants {ledger : Ledger} {fs : FsState} (recorded : Recorded ledger fs)
    (lifetimes : Lifetimes ledger fs) (contents : Contents ledger fs) : FilesKept ledger fs := by
  have allocated : ∀ file, InUse ledger file → ∃ struct, fs.files.read file = some struct := by
    intro file inUse
    rcases inUse with ⟨filename, named⟩ | ⟨fdno, member, target⟩
    · obtain ⟨struct, present, _⟩ := lifetimes.known filename file named
      exact ⟨struct, present⟩
    · rw [← target]
      exact recorded.descriptors.allocated fdno member
  constructor
  · intro filename file named
    obtain ⟨struct, present, hasName⟩ := lifetimes.known filename file named
    unfold findFileStruct
    rw [recorded.linked.head]
    apply find_from_named recorded.linked present hasName
    · intro other lower upper
      cases read : fs.files.read other with
      | none => exact absurd named (lifetimes.freedOld other upper read file lower filename)
      | some found =>
          refine ⟨found, rfl, ?_⟩
          intro same
          have known := recorded.names other found filename read same
          rw [named] at known
          exact (Option.some.inj known).symm
    · exact Heap.lt_next_of_read present
    · exact le_rfl
  · exact allocated
  · intro file bytes inUse written
    obtain ⟨struct, present⟩ := allocated file inUse
    obtain ⟨array, size, data, chain, stores, rfl⟩ := contents.stored file bytes struct written present
    exact content_of_stored present chain stores

theorem lifetimes_same {ledger recorded : Ledger} {fs after : FsState}
    (held : Lifetimes ledger fs) (named : recorded.named = ledger.named)
    (next : after.files.next = fs.files.next)
    (names : ∀ file, (after.files.read file).map File.name = (fs.files.read file).map File.name) :
    Lifetimes recorded after := by
  constructor
  · intro filename file isNamed
    rw [named] at isNamed
    obtain ⟨struct, present, hasName⟩ := held.known filename file isNamed
    have same := names file
    rw [present, Option.map_some, Option.map_eq_some_iff] at same
    obtain ⟨struct', present', name⟩ := same
    exact ⟨struct', present', name.trans hasName⟩
  · intro freed bound absent
    rw [named]
    rw [next] at bound
    have same := names freed
    rw [absent, Option.map_none, eq_comm, Option.map_eq_none_iff] at same
    exact held.freedOld freed bound same

theorem names_of_write {files written : Heap File} {file : Nat} {struct changed : File}
    (present : files.read file = some struct) (write : written = files.write file changed)
    (name : changed.name = struct.name) (other : Nat) :
    (written.read other).map File.name = (files.read other).map File.name := by
  rw [write]
  by_cases here : other = file
  · subst here
    rw [Heap.read_write_self _ (Heap.lt_next_of_read present), present, Option.map_some, name,
      Option.map_some]
  · rw [Heap.read_write_of_ne _ here]

theorem names_of_create {fs : FsState} {files : Heap File} {filename : String}
    (created : linkOlder (fs.files.alloc (newFile garbage filename fs)) fs.fileList
      fs.files.next = .ok files) (file : Nat) :
    (files.read file).map File.name =
      if file = fs.files.next then some (some filename) else (fs.files.read file).map File.name := by
  have kept : (files.read file).map File.name =
      ((fs.files.alloc (newFile garbage filename fs)).read file).map File.name := by
    rw [(linkOlder_ok created).2 file]
    split_ifs
    · rw [Option.map_map]
      rfl
    · rfl
  rw [kept]
  split_ifs with isNew
  · rw [isNew, Heap.read_alloc_next]
    rfl
  · rw [Heap.read_alloc_of_ne _ isNew]

theorem lifetimes_create {ledger recorded : Ledger} {fs after : FsState} {filename : String}
    (held : Lifetimes ledger fs)
    (named : recorded.named = Function.update ledger.named filename (some fs.files.next))
    (next : after.files.next = fs.files.next + 1)
    (names : ∀ file, (after.files.read file).map File.name =
      if file = fs.files.next then some (some filename)
      else (fs.files.read file).map File.name) : Lifetimes recorded after := by
  constructor
  · intro name file isNamed
    have same := names file
    rw [named] at isNamed
    by_cases own : name = filename
    · subst own
      rw [Function.update_self] at isNamed
      rw [if_pos (Option.some.inj isNamed).symm] at same
      exact Option.map_eq_some_iff.mp same
    · rw [Function.update_of_ne own] at isNamed
      obtain ⟨struct, present, hasName⟩ := held.known name file isNamed
      rw [if_neg (Nat.ne_of_lt (Heap.lt_next_of_read present)), present, Option.map_some,
        hasName] at same
      exact Option.map_eq_some_iff.mp same
  · intro freed bound absent older lower name
    have same := names freed
    rw [absent, Option.map_none] at same
    by_cases isNew : freed = fs.files.next
    · rw [if_pos isNew] at same
      cases same
    · rw [if_neg isNew, eq_comm, Option.map_eq_none_iff] at same
      rw [named]
      by_cases own : name = filename
      · subst own
        rw [Function.update_self]
        intro newest
        have equal := Option.some.inj newest
        omega
      · rw [Function.update_of_ne own]
        exact held.freedOld freed (by omega) same older lower name

theorem lifetimes_delete {ledger recorded : Ledger} {fs after : FsState} {filename : String}
    {file : Nat} {struct : File} (held : Lifetimes ledger fs)
    (present : fs.files.read file = some struct) (hasName : struct.name = some filename)
    (named : recorded.named = Function.update ledger.named filename none)
    (files : after.files = fs.files.write file { struct with name := none }) :
    Lifetimes recorded after := by
  constructor
  · intro name other isNamed
    rw [named] at isNamed
    by_cases own : name = filename
    · subst own
      rw [Function.update_self] at isNamed
      cases isNamed
    · rw [Function.update_of_ne own] at isNamed
      obtain ⟨found, read, otherName⟩ := held.known name other isNamed
      have elsewhere : other ≠ file := by
        rintro rfl
        rw [present] at read
        cases read
        rw [hasName] at otherName
        exact own (Option.some.inj otherName).symm
      refine ⟨found, ?_, otherName⟩
      rw [files, Heap.read_write_of_ne _ elsewhere]
      exact read
  · intro freed bound absent older lower name
    rw [files, Heap.next_write] at bound
    have elsewhere : freed ≠ file := by
      rintro rfl
      rw [files, Heap.read_write_self _ bound] at absent
      cases absent
    rw [files, Heap.read_write_of_ne _ elsewhere] at absent
    rw [named]
    by_cases own : name = filename
    · subst own
      rw [Function.update_self]
      exact Option.some_ne_none older ∘ Eq.symm
    · rw [Function.update_of_ne own]
      exact held.freedOld freed bound absent older lower name

theorem lifetimes_release {ledger recorded : Ledger} {fs after : FsState} {file : Nat}
    {struct changed : File} (held : Lifetimes ledger fs)
    (present : fs.files.read file = some struct)
    (deleted : ∀ older, older ≤ file → nameOf fs older = none)
    (named : recorded.named = ledger.named)
    (files : after.files = (fs.files.write file changed).release file) :
    Lifetimes recorded after := by
  have unnamed : ∀ older, older ≤ file → ∀ filename, ledger.named filename ≠ some older := by
    intro older lower filename isNamed
    obtain ⟨found, read, hasName⟩ := held.known filename older isNamed
    have noName := deleted older lower
    rw [nameOf, read, Option.bind_some, hasName] at noName
    cases noName
  have others : ∀ other, other ≠ file → after.files.read other = fs.files.read other := by
    intro other different
    rw [files, Heap.read_release_of_ne different, Heap.read_write_of_ne _ different]
  constructor
  · intro filename other isNamed
    rw [named] at isNamed
    have different : other ≠ file := fun same => unnamed other (Nat.le_of_eq same) filename isNamed
    rw [others other different]
    exact held.known filename other isNamed
  · intro freed bound absent older lower filename
    rw [files, Heap.next_release, Heap.next_write] at bound
    rw [named]
    by_cases here : freed = file
    · subst here
      exact unnamed older lower filename
    · rw [others freed here] at absent
      exact held.freedOld freed bound absent older lower filename

theorem lifetimes_step {history : History} {fs after : FsState} {call : Call} {reply : Reply}
    (recorded : Recorded (ledgerOf history) fs) (held : Lifetimes (ledgerOf history) fs)
    (safe : SafeCloses history fs call) (effect : CallEffect garbage fs call reply after) :
    Lifetimes (ledgerOf (history ++ [⟨call, reply⟩])) after := by
  rw [ledger_of_snoc]
  cases effect with
  | ofOpen effect =>
      cases effect with
      | failed code => exact lifetimes_same held rfl rfl fun _ => rfl
      | created creating absent created opened listed =>
          obtain ⟨struct, present, files⟩ := opened.refs
          simp only [record, recordOpen]
          rw [if_neg (opened_not_failed opened), if_pos creating]
          apply lifetimes_create held
          · rw [recorded.created]
          · rw [files, Heap.next_write, linkOlder_next created, Heap.next_alloc]
          · intro file
            rw [names_of_write present files rfl, names_of_create created]
      | existing opening found opened listed =>
          obtain ⟨struct, present, files⟩ := opened.refs
          simp only [record, recordOpen]
          rw [if_neg (opened_not_failed opened), if_neg (not_not.mpr opening)]
          apply lifetimes_same held
          · rfl
          · rw [files, Heap.next_write]
          · intro file
            rw [names_of_write present files rfl]
  | ofWrite effect =>
      simp only [record, recordWrite]
      cases effect with
      | failed code => exact lifetimes_same held rfl rfl fun _ => rfl
      | written capped nonempty entry descriptor target present rounds =>
          split_ifs <;>
            exact lifetimes_same held rfl (Heap.next_write _ _ _) (names_of_write present rfl rfl)
  | ofRead effect => cases effect <;> exact lifetimes_same held rfl rfl fun _ => rfl
  | ofClose effect =>
      cases effect with
      | failed entry => exact lifetimes_same held rfl rfl fun _ => rfl
      | kept entry descriptor target present remaining =>
          exact lifetimes_same held rfl (Heap.next_write _ _ _) (names_of_write present rfl rfl)
      | @released fd file desc struct freed entry descriptor target present last deallocated =>
          have known := target_of_entry recorded.descriptors safe.1 entry descriptor target
          have refs := refs_of_entry entry descriptor target present
          rw [last] at refs
          have deleted := (safe.2 refs).1
          rw [known] at deleted
          have files := released_files deallocated
          exact lifetimes_release held present deleted rfl files
  | ofDelete effect =>
      cases effect with
      | absent missing => exact held
      | deleted found present =>
          obtain ⟨struct, read, hasName⟩ := find_file_some found
          rw [present] at read
          cases read
          exact lifetimes_delete held present hasName rfl rfl
  | ofSize effect =>
      rcases effect with rfl | rfl
      · exact held
      · exact lifetimes_same held rfl rfl fun _ => rfl

theorem stores_mono {fs after : FsState} {array buffer size : Nat} {data : List Byte}
    (stores : Stores fs array buffer size data)
    (blockArrays : ∀ blocks, fs.blockArrays.read array = some blocks →
      after.blockArrays.read array = some blocks)
    (buffers : ∀ bytes, fs.buffers.read buffer = some bytes →
      after.buffers.read buffer = some bytes) : Stores after array buffer size data :=
  ⟨blockArrays _ stores.blockArray, buffers _ stores.buffer, stores.long⟩

theorem contents_same {ledger recorded : Ledger} {fs after : FsState}
    (held : Contents ledger fs) (content : recorded.content = ledger.content)
    (created : ledger.created ≤ recorded.created)
    (blockArrays : after.blockArrays = fs.blockArrays) (buffers : after.buffers = fs.buffers)
    (chains : ∀ file struct', ledger.content file ≠ none → after.files.read file = some struct' →
      ∃ struct, fs.files.read file = some struct ∧ struct'.blockList = struct.blockList) :
    Contents recorded after := by
  constructor
  · intro file written
    rw [content] at written
    exact Nat.lt_of_lt_of_le (held.written file written) created
  · rw [blockArrays, buffers]
    exact held.paired
  · intro file bytes struct' written present'
    rw [content] at written
    have some : ledger.content file ≠ none := by simp [written]
    obtain ⟨struct, present, chain⟩ := chains file struct' some present'
    obtain ⟨array, size, data, first, stores, bytesAre⟩ := held.stored file bytes struct written present
    refine ⟨array, size, data, chain.trans first, stores_mono stores ?_ ?_, bytesAre⟩
    · rw [blockArrays]
      exact fun _ read => read
    · rw [buffers]
      exact fun _ read => read
  · intro file other struct' otherStruct' written otherWritten present' otherPresent' same
    rw [content] at written otherWritten
    obtain ⟨struct, present, chain⟩ := chains file struct' written present'
    obtain ⟨otherStruct, otherPresent, otherChain⟩ :=
      chains other otherStruct' otherWritten otherPresent'
    rw [chain, otherChain] at same
    exact held.apart file other struct otherStruct written otherWritten present otherPresent same

theorem chains_of_write {files written : Heap File} {file other : Nat}
    {struct changed found : File} (present : files.read file = some struct)
    (read : written.read other = some found) (write : written = files.write file changed)
    (chain : changed.blockList = struct.blockList) :
    ∃ before, files.read other = some before ∧ found.blockList = before.blockList := by
  rw [write] at read
  rcases Heap.read_write_cases present read with ⟨rfl, rfl⟩ | ⟨_, before⟩
  · exact ⟨struct, present, chain⟩
  · exact ⟨found, before, rfl⟩

/-- The new struct of a created file has whatever `malloc` left as its
`block_list`, but nothing is on record as its content. -/
theorem contents_create {ledger recorded : Ledger} {fs after : FsState} {files : Heap File}
    {filename : String} {file : Nat} {offset value : Int} {flags : BitVec 32}
    (held : Contents ledger fs) (createdIs : ledger.created = fs.files.next)
    (created : linkOlder (fs.files.alloc (newFile garbage filename fs)) fs.fileList
      fs.files.next = .ok files)
    (opened : Opened garbage fs after files file offset flags value)
    (content : recorded.content = ledger.content)
    (grown : ledger.created ≤ recorded.created) : Contents recorded after := by
  apply contents_same held content grown opened.blockArrays opened.buffers
  intro other struct' written present'
  obtain ⟨struct, present, filesAfter⟩ := opened.refs
  obtain ⟨middle, middlePresent, chain⟩ := chains_of_write present present' filesAfter rfl
  obtain ⟨original, next, originalPresent, rfl⟩ := linkOlder_read created middlePresent
  have old : other ≠ fs.files.next := by
    have bound := held.written other written
    omega
  rw [Heap.read_alloc_of_ne _ old] at originalPresent
  exact ⟨original, originalPresent, chain⟩

/-- No chain on record starts in the array that is allocated next. -/
theorem chain_not_new {ledger : Ledger} {fs : FsState} {file : Nat} {struct : File}
    (held : Contents ledger fs) (written : ledger.content file ≠ none)
    (present : fs.files.read file = some struct) :
    struct.blockList ≠ some ⟨fs.blockArrays.next, 0⟩ := by
  obtain ⟨bytes, bytesAre⟩ := Option.ne_none_iff_exists'.mp written
  obtain ⟨array, size, data, first, stores, _⟩ := held.stored file bytes struct bytesAre present
  have old := Heap.lt_next_of_read stores.blockArray
  rw [first]
  intro equal
  cases equal
  exact absurd old (Nat.lt_irrefl _)

theorem stores_of_built {fs after : FsState} {size : Nat} {data : List Byte} {loop : AllocateLoop}
    (built : Built data size fs.blockArrays.next fs.buffers.next loop)
    (blockArrays : after.blockArrays = fs.blockArrays.alloc loop.blockArray)
    (buffers : after.buffers = fs.buffers.alloc loop.buffer) :
    Stores after fs.blockArrays.next fs.buffers.next size data := by
  constructor
  · rw [blockArrays, Heap.read_alloc_next, built.blockArray]
  · rw [buffers, Heap.read_alloc_next, built.buffer]
  · exact built.long

theorem contents_write {ledger recorded : Ledger} {fs after : FsState} {file sz : Nat}
    {struct changed : File} {buf : List Byte} {loop : AllocateLoop}
    (held : Contents ledger fs) (createdIs : ledger.created = fs.files.next)
    (present : fs.files.read file = some struct)
    (rounds : allocateRounds buf sz fs.blockArrays.next fs.buffers.next (totalBlocks sz) = .ok loop)
    (files : after.files = fs.files.write file changed)
    (chain : changed.blockList = some ⟨fs.blockArrays.next, 0⟩)
    (blockArrays : after.blockArrays = fs.blockArrays.alloc loop.blockArray)
    (buffers : after.buffers = fs.buffers.alloc loop.buffer)
    (content : recorded.content =
      Function.update ledger.content file (some (buf.take loop.totalWritten)))
    (created : recorded.created = ledger.created) : Contents recorded after := by
  have built := rounds_built rounds
  have structs : ∀ other found, after.files.read other = some found →
      (other = file ∧ found = changed) ∨
        (other ≠ file ∧ fs.files.read other = some found ∧
          recorded.content other = ledger.content other) := by
    intro other found read
    rw [files] at read
    rcases Heap.read_write_cases present read with own | ⟨different, before⟩
    · exact .inl own
    · exact .inr ⟨different, before, by rw [content, Function.update_of_ne different]⟩
  constructor
  · intro other written
    rw [created]
    by_cases here : other = file
    · rw [here, createdIs]
      exact Heap.lt_next_of_read present
    · rw [content, Function.update_of_ne here] at written
      exact held.written other written
  · rw [blockArrays, buffers, Heap.next_alloc, Heap.next_alloc, held.paired]
  · intro other bytes found written read
    rcases structs other found read with ⟨rfl, rfl⟩ | ⟨_, before, same⟩
    · rw [content, Function.update_self, built.totalWritten] at written
      have stores := stores_of_built built blockArrays buffers
      rw [← held.paired] at stores
      exact ⟨fs.blockArrays.next, sz, buf, chain, stores, (Option.some.inj written).symm⟩
    · rw [same] at written
      obtain ⟨array, size, data, first, stores, bytesAre⟩ :=
        held.stored other bytes found written before
      refine ⟨array, size, data, first, stores_mono stores ?_ ?_, bytesAre⟩
      · intro blocks old
        rw [blockArrays]
        exact Heap.read_alloc_of_read _ old
      · intro stored old
        rw [buffers]
        exact Heap.read_alloc_of_read _ old
  · intro first second firstStruct secondStruct firstWritten secondWritten firstRead secondRead
      sameChain
    rcases structs first firstStruct firstRead with ⟨rfl, rfl⟩ | ⟨_, firstBefore, firstSame⟩
    · rcases structs second secondStruct secondRead with ⟨rfl, _⟩ | ⟨_, secondBefore, secondSame⟩
      · rfl
      · rw [secondSame] at secondWritten
        rw [chain] at sameChain
        exact absurd sameChain.symm (chain_not_new held secondWritten secondBefore)
    · rw [firstSame] at firstWritten
      rcases structs second secondStruct secondRead with ⟨rfl, rfl⟩ | ⟨_, secondBefore, secondSame⟩
      · rw [chain] at sameChain
        exact absurd sameChain (chain_not_new held firstWritten firstBefore)
      · rw [secondSame] at secondWritten
        exact held.apart first second firstStruct secondStruct firstWritten secondWritten
          firstBefore secondBefore sameChain

theorem contents_without_chain {ledger recorded : Ledger} {fs freed : FsState} {file array : Nat}
    {struct : File} (held : Contents ledger fs) (written : ledger.content file ≠ none)
    (present : fs.files.read file = some struct) (chain : struct.blockList = some ⟨array, 0⟩)
    (kept : ∀ other found, freed.files.read other = some found →
      other ≠ file ∧ fs.files.read other = some found)
    (blockArrays : freed.blockArrays = fs.blockArrays.release array)
    (buffers : freed.buffers = fs.buffers.release array)
    (content : recorded.content = ledger.content) (created : recorded.created = ledger.created) :
    Contents recorded freed := by
  constructor
  · intro other otherWritten
    rw [content] at otherWritten
    rw [created]
    exact held.written other otherWritten
  · rw [blockArrays, buffers, Heap.next_release, Heap.next_release]
    exact held.paired
  · intro other otherBytes otherStruct otherWritten otherRead
    obtain ⟨different, before⟩ := kept other otherStruct otherRead
    rw [content] at otherWritten
    obtain ⟨otherArray, otherSize, otherData, otherFirst, otherStores, otherAre⟩ :=
      held.stored other otherBytes otherStruct otherWritten before
    have elsewhere : otherArray ≠ array := by
      intro same
      have isWritten : ledger.content other ≠ none := by simp [otherWritten]
      apply different
      apply held.apart other file otherStruct struct isWritten written before present
      rw [otherFirst, same, chain]
    refine ⟨otherArray, otherSize, otherData, otherFirst, stores_mono otherStores ?_ ?_, otherAre⟩
    · intro blocks old
      rw [blockArrays, Heap.read_release_of_ne elsewhere]
      exact old
    · intro stored old
      rw [buffers, Heap.read_release_of_ne elsewhere]
      exact old
  · intro one other oneStruct otherStruct oneWritten otherWritten oneRead otherRead
    rw [content] at oneWritten otherWritten
    exact held.apart one other oneStruct otherStruct oneWritten otherWritten
      (kept one oneStruct oneRead).2 (kept other otherStruct otherRead).2

theorem contents_release {ledger recorded : Ledger} {fs freed : FsState} {file : Nat}
    {struct changed : File} (held : Contents ledger fs)
    (present : fs.files.read file = some struct)
    (deallocated : deallocateFile file { fs with files := fs.files.write file changed } = .ok freed)
    (chain : changed.blockList = struct.blockList)
    (initialised : ledger.content file ≠ none ∨ struct.blockList = none)
    (content : recorded.content = ledger.content) (created : recorded.created = ledger.created) :
    Contents recorded freed := by
  have files := released_files deallocated
  obtain ⟨found, read, effect⟩ := deallocateFile_ok deallocated
  have ownStruct : found = changed := by
    rw [Heap.read_write_self _ (Heap.lt_next_of_read present)] at read
    exact (Option.some.inj read).symm
  subst ownStruct
  have kept : ∀ other otherStruct, freed.files.read other = some otherStruct →
      other ≠ file ∧ fs.files.read other = some otherStruct := by
    intro other otherStruct otherRead
    rw [files] at otherRead
    obtain ⟨different, before⟩ := Heap.read_of_read_release otherRead
    rw [Heap.read_write_of_ne _ different] at before
    exact ⟨different, before⟩
  cases first : found.blockList with
  | none =>
      rw [first] at effect
      apply contents_same held content (Nat.le_of_eq created.symm)
      · rw [effect]
      · rw [effect]
      · intro other struct' _ otherRead
        exact ⟨struct', (kept other struct' otherRead).2, rfl⟩
  | some block =>
      have written : ledger.content file ≠ none := by
        rcases initialised with written | empty
        · exact written
        · rw [← chain, first] at empty
          cases empty
      obtain ⟨bytes, bytesAre⟩ := Option.ne_none_iff_exists'.mp written
      obtain ⟨array, size, data, start, stores, _⟩ := held.stored file bytes struct bytesAre present
      have own := start
      rw [← chain, first] at start
      cases start
      have storesMiddle : Stores { fs with files := fs.files.write file found } array array size
          data := ⟨stores.blockArray, stores.buffer, stores.long⟩
      have firstBlock := deref_built_block storesMiddle (total_blocks_pos size)
      rw [first] at effect
      obtain ⟨block, dereferenced, effect⟩ := effect
      rw [firstBlock] at dereferenced
      cases dereferenced
      apply contents_without_chain held written present own kept _ _ content created
      · rw [effect]
      · rw [effect, builtBlock]

theorem contents_step {history : History} {fs after : FsState} {call : Call} {reply : Reply}
    (recorded : Recorded (ledgerOf history) fs) (held : Contents (ledgerOf history) fs)
    (safe : SafeCloses history fs call) (effect : CallEffect garbage fs call reply after) :
    Contents (ledgerOf (history ++ [⟨call, reply⟩])) after := by
  rw [ledger_of_snoc]
  have unchanged : ∀ file struct', (ledgerOf history).content file ≠ none →
      fs.files.read file = some struct' →
      ∃ struct, fs.files.read file = some struct ∧ struct'.blockList = struct.blockList :=
    fun _ struct' _ present => ⟨struct', present, rfl⟩
  cases effect with
  | ofOpen effect =>
      cases effect with
      | failed code => exact contents_same held rfl le_rfl rfl rfl unchanged
      | created creating absent created opened listed =>
          simp only [record, recordOpen]
          rw [if_neg (opened_not_failed opened), if_pos creating]
          exact contents_create held recorded.created created opened rfl (Nat.le_succ _)
      | existing opening found opened listed =>
          obtain ⟨struct, present, files⟩ := opened.refs
          simp only [record, recordOpen]
          rw [if_neg (opened_not_failed opened), if_neg (not_not.mpr opening)]
          refine contents_same held rfl le_rfl opened.blockArrays opened.buffers ?_
          intro file struct' _ present'
          exact chains_of_write present present' files rfl
  | ofWrite effect =>
      simp only [record, recordWrite]
      cases effect with
      | failed code => exact contents_same held rfl le_rfl rfl rfl unchanged
      | @written fd file desc struct loop sz capped nonempty entry descriptor target present
          rounds =>
          have known := target_of_entry recorded.descriptors safe.1 entry descriptor target
          have successful : (loop.totalWritten : Int) ≠ -1 := by omega
          rw [if_neg successful, known, Int.toNat_natCast]
          exact contents_write held recorded.created present rounds rfl rfl rfl rfl rfl rfl
  | ofRead effect =>
      cases effect <;> exact contents_same held rfl le_rfl rfl rfl unchanged
  | ofClose effect =>
      cases effect with
      | failed entry => exact contents_same held rfl le_rfl rfl rfl unchanged
      | kept entry descriptor target present remaining =>
          refine contents_same held rfl le_rfl rfl rfl ?_
          intro file struct' _ present'
          exact chains_of_write present present' rfl rfl
      | @released fd file desc struct freed entry descriptor target present last deallocated =>
          have known := target_of_entry recorded.descriptors safe.1 entry descriptor target
          have refs := refs_of_entry entry descriptor target present
          rw [last] at refs
          have initialised := (safe.2 refs).2
          rw [known, blockListOf, present, Option.bind_some] at initialised
          have freedContents : Contents (ledgerOf history) freed :=
            contents_release held present deallocated rfl initialised rfl rfl
          exact contents_same freedContents rfl le_rfl rfl rfl
            fun _ struct' _ present' => ⟨struct', present', rfl⟩
  | ofDelete effect =>
      cases effect with
      | absent missing => exact held
      | deleted found present =>
          refine contents_same held rfl le_rfl rfl rfl ?_
          intro file struct' _ present'
          exact chains_of_write present present' rfl rfl
  | ofSize effect =>
      rcases effect with rfl | rfl
      · exact held
      · exact contents_same held rfl le_rfl rfl rfl unchanged

theorem run_invariants {history : History} {fs : FsState}
    (run : Run (perform garbage) SafeCloses initial history fs) :
    Recorded (ledgerOf history) fs ∧ Lifetimes (ledgerOf history) fs ∧
      Contents (ledgerOf history) fs := by
  refine run_invariant (fun history fs => Recorded (ledgerOf history) fs ∧
    Lifetimes (ledgerOf history) fs ∧ Contents (ledgerOf history) fs) ?_ ?_ run
  · exact ⟨recorded_initial, lifetimes_initial, contents_initial⟩
  · intro history before call reply after held safe performed
    obtain ⟨recorded, lifetimes, contents⟩ := held
    have effect := perform_effect performed
    exact ⟨recorded_step recorded safe.1 effect, lifetimes_step recorded lifetimes safe effect,
      contents_step recorded contents safe effect⟩

/-- While every `ufs_close` that takes a last reference takes that of a
deleted file older than every named one, named files are found with their
content and no file in use is released. -/
theorem files_kept_while_releases_deleted {history : History} {fs : FsState}
    (run : Run (perform garbage) SafeCloses initial history fs) :
    FilesKept (ledgerOf history) fs := by
  obtain ⟨recorded, lifetimes, contents⟩ := run_invariants run
  exact files_kept_of_invariants recorded lifetimes contents

def deletedClosed : Option (History × FsState) :=
  replay (perform zeroGarbage) SafeCloses
    [.open "a" (ufsCreate ||| ufsReadWrite), .write 0 [1, 2, 3] 3,
      .open "b" (ufsCreate ||| ufsReadWrite), .write 1 [4, 5, 6, 7, 8, 9, 10, 11, 12, 13] 10,
      .delete "a", .close 0] [] initial

theorem files_kept_after_deleted_closed :
    ∃ final, deletedClosed = some final ∧ final.2.files.read 0 = none ∧
      FilesKept (ledgerOf final.1) final.2 ∧
      contentOf final.2 1 = .ok [4, 5, 6, 7, 8, 9, 10, 11, 12, 13] := by
  have freed : (deletedClosed.map fun final => final.2.files.read 0) = some none := by decide
  have named : (deletedClosed.map fun final => (ledgerOf final.1).named "b") = some (some 1) := by
    decide
  have written : (deletedClosed.map fun final => (ledgerOf final.1).content 1) =
      some (some [4, 5, 6, 7, 8, 9, 10, 11, 12, 13]) := by decide
  cases replayed : deletedClosed with
  | none => simp [replayed] at freed
  | some final =>
      simp only [replayed, Option.map_some, Option.some.injEq] at freed named written
      have kept := files_kept_while_releases_deleted (run_of_replay .start replayed)
      exact ⟨final, rfl, freed, kept, kept.content 1 _ (.inl ⟨"b", named⟩) written⟩

def writtenClosed : Option (History × FsState) :=
  replay (perform zeroGarbage) ClientCalls
    [.open "a" (ufsCreate ||| ufsReadWrite), .write 0 [1, 2, 3] 3, .close 0] [] initial

/-- The file is gone, though it was never deleted, and looking it up follows
a freed struct. -/
theorem file_released_without_delete :
    ∃ history fs, Run (perform zeroGarbage) ClientCalls initial history fs ∧
      (ledgerOf history).named "a" = some 0 ∧ fs.files.read 0 = none ∧
      findFileStruct "a" fs = .error .badPointer := by
  have named : (writtenClosed.map fun final => (ledgerOf final.1).named "a") = some (some 0) := by
    decide
  have freed : (writtenClosed.map fun final => final.2.files.read 0) = some none := by decide
  have walked : (writtenClosed.map fun final => findFileStruct "a" final.2) =
      some (.error .badPointer) := by decide
  cases replayed : writtenClosed with
  | none => simp [replayed] at freed
  | some final =>
      simp only [replayed, Option.map_some, Option.some.injEq] at named freed walked
      exact ⟨final.1, final.2, run_of_replay .start replayed, named, freed, walked⟩

end Sysprog.Userfs.FileLifetime
