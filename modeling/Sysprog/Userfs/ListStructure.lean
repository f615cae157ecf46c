import Sysprog.Userfs.UnclosedRuns

/-!
# The structure of the file list

Without `ufs_close` the list holds every `struct file` ever created, `next`
undoes `prev`, a name stands for one struct, and `refs` counts the entries of
the table that lead to it. So a file that is found by its name has an entry,
and `find_filedesc` finds one.
-/

namespace Sysprog.Userfs.ListStructure

open CheckedRuns Memory Blocks Calls CallEffects ClientLedger DescriptorNumbers FileList
open RecordedDescriptors RecordedFiles FileLifetime UnclosedRuns

set_option autoImplicit false

variable {garbage : Garbage}

/-- The structs that following `prev` visits, in this order. -/
def walkPrev (files : Heap File) : Nat → Option Nat → Except Halt (List Nat)
  | _, none => .ok []
  | 0, some _ => .error .endlessWalk
  | fuel + 1, some address => do
      let file ← deref files (some address)
      let older ← walkPrev files fuel file.prev
      .ok (address :: older)

def pointsTo (filedescs : Heap Filedesc) (file : Nat) : Slot → Bool
  | .filedesc address => (filedescs.read address).any fun desc => desc.file = some file
  | _ => false

def entriesTo (fs : FsState) (file : Nat) : Nat :=
  fs.fileDescriptors.countP (pointsTo fs.filedescs file)

/-- What is asked of the file list. Structs are numbered in the order of
their creation. -/
structure ListWellFormed (garbage : Garbage) (history : History) (fs : FsState) : Prop where
  walk : walkPrev fs.files fs.files.next fs.fileList =
    .ok (List.range (ledgerOf history).created).reverse
  inverse : ∀ file struct, fs.files.read file = some struct → ∀ newer,
    struct.next = some newer ↔ ∃ other, fs.files.read newer = some other ∧ other.prev = some file
  last : ∀ file struct, fs.files.read file = some struct →
    (struct.next = none ↔ fs.fileList = some file)
  unique : ∀ file other struct otherStruct name, fs.files.read file = some struct →
    fs.files.read other = some otherStruct → struct.name = some name →
    otherStruct.name = some name → file = other
  found : ∀ filename, findFileStruct filename fs = .ok ((ledgerOf history).named filename)
  refs : ∀ file struct, fs.files.read file = some struct →
    struct.refs = entriesTo fs file ∧ 1 ≤ struct.refs
  opens : ∀ filename flags, (∃ result, ufsOpen garbage filename flags fs = .ok result) ∨
    (fs.fileDescriptorCount = fileDescriptorCapacity ∧
      ufsOpen garbage filename flags fs = .error .outOfRange)

/-! ## Links -/

theorem walk_prev_ok {files : Heap File} {list : Option Nat} (linked : Linked files list)
    (allocated : NoneFreed files) {bound fuel : Nat} (inside : bound ≤ files.next)
    (enough : bound ≤ fuel) :
    walkPrev files fuel (previous bound) = .ok (List.range bound).reverse := by
  induction bound generalizing fuel with
  | zero => cases fuel <;> rfl
  | succ file ih =>
      obtain ⟨fuel, rfl⟩ : ∃ less, fuel = less + 1 := ⟨fuel - 1, by omega⟩
      obtain ⟨struct, present⟩ := allocated file (by omega)
      have found : deref files (some file) = .ok struct := deref_eq_ok.mpr ⟨file, rfl, present⟩
      have older : walkPrev files fuel struct.prev = .ok (List.range file).reverse := by
        rw [linked.prev file struct present]
        exact ih (by omega) (by omega)
      simp only [previous, walkPrev, found, ok_bind, older, List.range_succ, List.reverse_append,
        List.reverse_singleton, List.singleton_append]

def NextLinked (files : Heap File) : Prop :=
  ∀ file struct, files.read file = some struct →
    struct.next = if file + 1 < files.next then some (file + 1) else none

theorem next_linked_write {files : Heap File} {file : Nat} {struct changed : File}
    (linked : NextLinked files) (present : files.read file = some struct)
    (next : changed.next = struct.next) : NextLinked (files.write file changed) := by
  intro other found read
  rw [Heap.next_write]
  rcases Heap.read_write_cases present read with ⟨rfl, rfl⟩ | ⟨_, before⟩
  · rw [next]
    exact linked other struct present
  · exact linked other found before

theorem next_linked_create {fs : FsState} {files : Heap File} {filename : String}
    (linked : Linked fs.files fs.fileList) (nextLinked : NextLinked fs.files)
    (created : linkOlder (fs.files.alloc (newFile garbage filename fs)) fs.fileList
      fs.files.next = .ok files) : NextLinked files := by
  intro file struct read
  rw [linkOlder_next created, Heap.next_alloc]
  rw [(linkOlder_ok created).2 file] at read
  split_ifs at read with isOlder
  · obtain ⟨original, present, rfl⟩ := Option.map_eq_some_iff.mp read
    rw [linked.head] at isOlder
    have before := previous_eq_some isOlder
    rw [if_pos (by omega), before]
  · by_cases isNew : file = fs.files.next
    · rw [isNew, Heap.read_alloc_next] at read
      cases read
      rw [if_neg (by omega)]
      rfl
    · rw [Heap.read_alloc_of_ne _ isNew] at read
      have bound := Heap.lt_next_of_read read
      have notOlder : file + 1 ≠ fs.files.next := by
        intro same
        rw [linked.head, ← same] at isOlder
        exact isOlder rfl
      rw [nextLinked file struct read, if_pos (by omega), if_pos (by omega)]

theorem next_linked_step {fs after : FsState} {call : Call} {reply : Reply}
    (linked : Linked fs.files fs.fileList) (nextLinked : NextLinked fs.files)
    (unclosed : Unclosed call) (effect : CallEffect garbage fs call reply after) :
    NextLinked after.files := by
  cases effect with
  | ofOpen effect =>
      cases effect with
      | failed code => exact nextLinked
      | created creating absent created opened listed =>
          obtain ⟨struct, present, files⟩ := opened.refs
          rw [files]
          exact next_linked_write (next_linked_create linked nextLinked created) present rfl
      | existing opening found opened listed =>
          obtain ⟨struct, present, files⟩ := opened.refs
          rw [files]
          exact next_linked_write nextLinked present rfl
  | ofWrite effect =>
      cases effect with
      | failed code => exact nextLinked
      | written _ _ _ _ _ present => exact next_linked_write nextLinked present rfl
  | ofDelete effect =>
      cases effect with
      | absent missing => exact nextLinked
      | deleted found present => exact next_linked_write nextLinked present rfl
  | ofRead effect => exact absurd unclosed id
  | ofClose effect => exact absurd unclosed id
  | ofSize effect => exact absurd unclosed id

/-! ## References -/

theorem points_to_iff {filedescs : Heap Filedesc} {file : Nat} {slot : Slot} :
    pointsTo filedescs file slot = true ↔ ∃ address desc, slot = .filedesc address ∧
      filedescs.read address = some desc ∧ desc.file = some file := by
  cases slot with
  | unset => simp [pointsTo]
  | null => simp [pointsTo]
  | filedesc address =>
      cases present : filedescs.read address with
      | none => simp [pointsTo, present]
      | some desc => simp [pointsTo, present]

theorem slot_cases {descriptors : Finset Int} {fs : FsState} (table : TableFilled descriptors fs)
    {slot : Slot} (member : slot ∈ fs.fileDescriptors) :
    slot = .unset ∨ ∃ address desc, slot = .filedesc address ∧
      fs.filedescs.read address = some desc := by
  obtain ⟨index, entry⟩ := List.mem_iff_getElem?.mp member
  by_cases below : index < fs.fileDescriptorCount.toNat
  · obtain ⟨address, desc, filled, present⟩ := table.filled index below
    rw [entry] at filled
    exact .inr ⟨address, desc, Option.some.inj filled, present⟩
  · exact .inl (table.unset index slot (Nat.le_of_not_lt below) entry)

theorem entries_same {descriptors : Finset Int} {fs after : FsState}
    (table : TableFilled descriptors fs) (slots : after.fileDescriptors = fs.fileDescriptors)
    (filedescs : ∀ address desc, fs.filedescs.read address = some desc →
      ∃ desc', after.filedescs.read address = some desc' ∧ desc'.file = desc.file) (file : Nat) :
    entriesTo after file = entriesTo fs file := by
  unfold entriesTo
  rw [slots]
  apply List.countP_congr
  intro slot member
  rcases slot_cases table member with isUnset | ⟨address, desc, isDesc, present⟩
  · rw [isUnset]
    exact Iff.rfl
  · obtain ⟨desc', present', same⟩ := filedescs address desc present
    rw [isDesc]
    simp [pointsTo, present, present', same]

theorem entries_opened {descriptors : Finset Int} {fs after : FsState} {files : Heap File}
    {file : Nat} {offset value : Int} {flags : BitVec 32} (table : TableFilled descriptors fs)
    (opened : Opened garbage fs after files file offset flags value) (other : Nat) :
    entriesTo after other = entriesTo fs other + if file = other then 1 else 0 := by
  have inside := opened.inside
  have wasUnset : fs.fileDescriptors[fs.fileDescriptorCount.toNat] = .unset :=
    table.unset _ _ (Nat.le_refl _) (List.getElem?_eq_getElem inside)
  have before : fs.fileDescriptors.countP (pointsTo after.filedescs other) = entriesTo fs other := by
    apply List.countP_congr
    intro slot member
    rcases slot_cases table member with isUnset | ⟨address, desc, isDesc, present⟩
    · rw [isUnset]
      exact Iff.rfl
    · have same := filedesc_of_opened opened (Heap.lt_next_of_read present)
      rw [isDesc]
      simp only [pointsTo, same]
  have newest : pointsTo after.filedescs other (.filedesc fs.filedescs.next) =
      decide (file = other) := by
    obtain ⟨_, desc, present, target⟩ := opened_leads opened
    simp [pointsTo, present, target]
  unfold entriesTo
  rw [opened.table, List.countP_set inside, wasUnset, before, newest]
  simp [pointsTo, entriesTo]

/-- Every struct is counted as often as the table leads to it, at least once. -/
def RefsCounted (fs : FsState) : Prop :=
  ∀ file struct, fs.files.read file = some struct →
    struct.refs = entriesTo fs file ∧ 1 ≤ struct.refs

theorem refs_counted_same {descriptors : Finset Int} {fs after : FsState}
    (counted : RefsCounted fs) (table : TableFilled descriptors fs)
    (same : SameDescriptors fs after) : RefsCounted after := by
  intro file struct' read
  obtain ⟨struct, present, refs⟩ := same.refs file struct' read
  rw [entries_same table same.table same.filedescs, refs]
  exact counted file struct present

theorem refs_counted_opened {descriptors : Finset Int} {fs after : FsState} {files : Heap File}
    {file : Nat} {offset value : Int} {flags : BitVec 32} (table : TableFilled descriptors fs)
    (opened : Opened garbage fs after files file offset flags value)
    (before : ∀ other struct, files.read other = some struct →
      struct.refs = entriesTo fs other ∧ (other ≠ file → 1 ≤ struct.refs)) : RefsCounted after := by
  obtain ⟨struct, present, filesAfter⟩ := opened.refs
  intro other found read
  rw [filesAfter] at read
  rw [entries_opened table opened]
  rcases Heap.read_write_cases present read with ⟨rfl, rfl⟩ | ⟨different, earlier⟩
  · have known := (before other struct present).1
    rw [if_pos rfl]
    dsimp only
    omega
  · have known := before other found earlier
    have positive := known.2 different
    rw [if_neg (Ne.symm different)]
    omega

theorem no_entries_to_next {history : History} {fs : FsState} (kept : Kept history fs) :
    entriesTo fs fs.files.next = 0 := by
  apply List.countP_eq_zero.mpr
  intro slot member points
  obtain ⟨index, entry⟩ := List.mem_iff_getElem?.mp member
  obtain ⟨address, desc, isDesc, present, target⟩ := points_to_iff.mp points
  rw [isDesc] at entry
  have looked : fileDescriptorAt fs index = .ok (some address) :=
    fileDescriptorAt_eq_some.mpr ⟨Int.natCast_nonneg index, entry⟩
  have isOpen := open_of_entry kept.table looked
  have known := target_of_entry kept.recorded.descriptors isOpen looked present target
  obtain ⟨struct, there⟩ := kept.recorded.descriptors.allocated index isOpen
  rw [known] at there
  exact absurd (Heap.lt_next_of_read there) (Nat.lt_irrefl _)

theorem refs_counted_step {history : History} {fs after : FsState} {call : Call} {reply : Reply}
    (kept : Kept history fs) (counted : RefsCounted fs) (unclosed : Unclosed call)
    (effect : CallEffect garbage fs call reply after) : RefsCounted after := by
  cases effect with
  | ofOpen effect =>
      cases effect with
      | failed code =>
          exact refs_counted_same counted kept.table (same_descriptors_of_open_failure code fs)
      | created creating absent created opened listed =>
          apply refs_counted_opened kept.table opened
          intro other struct read
          rcases (created_files created).2 other struct read with ⟨rfl, refs⟩ | ⟨old, present, refs⟩
          · rw [refs, no_entries_to_next kept]
            exact ⟨rfl, fun different => absurd rfl different⟩
          · rw [refs]
            have known := counted other old present
            exact ⟨known.1, fun _ => known.2⟩
      | existing opening found opened listed =>
          apply refs_counted_opened kept.table opened
          intro other struct read
          have known := counted other struct read
          exact ⟨known.1, fun _ => known.2⟩
  | ofWrite effect =>
      cases effect with
      | failed code =>
          exact refs_counted_same counted kept.table (same_descriptors_of_failed code fs)
      | written _ _ _ descriptor _ present =>
          exact refs_counted_same counted kept.table
            (same_descriptors_of_write present rfl rfl rfl (filedescs_of_moved descriptor))
  | ofDelete effect =>
      cases effect with
      | absent missing => exact counted
      | deleted found present =>
          exact refs_counted_same counted kept.table
            (same_descriptors_of_write present rfl rfl rfl fun _ desc there => ⟨desc, there, rfl⟩)
  | ofRead effect => exact absurd unclosed id
  | ofClose effect => exact absurd unclosed id
  | ofSize effect => exact absurd unclosed id

/-! ## Opening -/

theorem find_filedesc_in_ok {filedescs : Heap Filedesc} {file count : Nat} {slots : List Slot}
    (filled : ∀ index, index < count → ∃ address desc, slots[index]? = some (.filedesc address) ∧
      filedescs.read address = some desc)
    (leads : ∃ index slot, index < count ∧ slots[index]? = some slot ∧
      pointsTo filedescs file slot = true) :
    ∃ found desc, findFiledescIn filedescs file count slots = .ok (some found) ∧
      filedescs.read found = some desc := by
  induction count generalizing slots with
  | zero =>
      obtain ⟨index, slot, below, _⟩ := leads
      exact absurd below (Nat.not_lt_zero index)
  | succ count ih =>
      obtain ⟨address, desc, first, present⟩ := filled 0 (Nat.succ_pos count)
      cases slots with
      | nil => cases first
      | cons slot rest =>
          cases first
          have dereferenced : deref filedescs (some address) = .ok desc :=
            deref_eq_ok.mpr ⟨address, rfl, present⟩
          simp only [findFiledescIn, dereferenced, ok_bind]
          by_cases own : desc.file = some file
          · rw [if_pos own]
            exact ⟨address, desc, rfl, present⟩
          · rw [if_neg own]
            apply ih
            · intro index below
              exact filled (index + 1) (Nat.succ_lt_succ below)
            · obtain ⟨index, slot, below, entry, points⟩ := leads
              cases index with
              | zero =>
                  cases entry
                  obtain ⟨_, other, same, there, target⟩ := points_to_iff.mp points
                  cases same
                  rw [present] at there
                  cases there
                  exact absurd target own
              | succ index => exact ⟨index, slot, Nat.lt_of_succ_lt_succ below, entry, points⟩

/-- The search in `ufs_open` sees the table before its own entry is stored. -/
theorem find_filedesc_ok {descriptors : Finset Int} {fs : FsState} {file : Nat}
    (table : TableFilled descriptors fs) (leads : 0 < entriesTo fs file) (fresh : Filedesc) :
    ∃ found desc, findFiledesc file { fs with filedescs := fs.filedescs.alloc fresh } =
        .ok (some found) ∧ (fs.filedescs.alloc fresh).read found = some desc := by
  have nonneg := table.nonneg
  have room := table.room
  have bound : (fs.fileDescriptorCount % 2 ^ 64).toNat = fs.fileDescriptorCount.toNat := by
    unfold fileDescriptorCapacity at room
    omega
  unfold findFiledesc
  dsimp only
  rw [bound]
  apply find_filedesc_in_ok
  · intro index below
    obtain ⟨address, desc, entry, present⟩ := table.filled index below
    exact ⟨address, desc, entry, Heap.read_alloc_of_read _ present⟩
  · obtain ⟨slot, member, points⟩ := List.countP_pos_iff.mp leads
    obtain ⟨index, entry⟩ := List.mem_iff_getElem?.mp member
    obtain ⟨address, desc, isDesc, present, target⟩ := points_to_iff.mp points
    refine ⟨index, slot, ?_, entry, ?_⟩
    · by_contra above
      have isUnset := table.unset index slot (Nat.le_of_not_lt above) entry
      rw [isDesc] at isUnset
      cases isUnset
    · exact points_to_iff.mpr ⟨address, desc, isDesc, Heap.read_alloc_of_read _ present, target⟩

theorem head_allocated {files : Heap File} {list : Option Nat} (linked : Linked files list)
    (allocated : NoneFreed files) (older : Nat) (head : list = some older) :
    ∃ struct, files.read older = some struct := by
  have top := linked.head
  rw [head] at top
  have before := previous_eq_some top.symm
  exact allocated older (by omega)

/-- Every `ufs_open` returns, but for a store behind the end of the table. -/
theorem open_cases {history : History} {fs : FsState} (kept : Kept history fs)
    (counted : RefsCounted fs) (filename : String) (flags : BitVec 32) :
    (∃ result, ufsOpen garbage filename flags fs = .ok result) ∨
      (fs.fileDescriptorCount = fileDescriptorCapacity ∧
        ufsOpen garbage filename flags fs = .error .outOfRange) := by
  have nonneg := kept.table.nonneg
  have room := kept.table.room
  have length := kept.table.length
  obtain ⟨found, walked⟩ := finds_safely_of_none_freed kept.recorded.linked kept.allocated filename
  have walkedFresh : ∀ fresh, findFileStruct filename { fs with
      filedescs := fs.filedescs.alloc fresh } = .ok found := fun _ => walked
  unfold ufsOpen
  simp only [walkedFresh, ok_bind]
  split_ifs with creating
  · cases found with
    | some file => exact .inl ⟨_, rfl⟩
    | none =>
        obtain ⟨after, struct, done, present, slots, count, filedescs⟩ :=
          @allocFileStruct_completes garbage { fs with
              filedescs := fs.filedescs.alloc (garbage.filedesc fs.filedescs.next) }
            (head_allocated kept.recorded.linked kept.allocated) filename
        have allocated : after.filedescs.read fs.filedescs.next =
            some (garbage.filedesc fs.filedescs.next) := by
          rw [filedescs]
          exact Heap.read_alloc_next _ _
        simp only [done, ok_bind]
        rcases @installFiledesc_cases after fs.filedescs.next fs.files.next 0
          (flags &&& ~~~ufsCreate) _ struct (by rw [count]; exact nonneg) present allocated with
          completes | ⟨full, stops⟩
        · exact .inl completes
        · rw [slots, count] at full
          dsimp only at full
          exact .inr ⟨by omega, stops⟩
  · cases found with
    | none => exact .inl ⟨_, rfl⟩
    | some file =>
        obtain ⟨struct, present, _⟩ := find_file_some walked
        have references := counted file struct present
        have leads : 0 < entriesTo fs file := by omega
        obtain ⟨ffd, desc, search, there⟩ := find_filedesc_ok kept.table leads
          (garbage.filedesc fs.filedescs.next)
        have dereferenced : deref (fs.filedescs.alloc (garbage.filedesc fs.filedescs.next))
            (some ffd) = .ok desc := deref_eq_ok.mpr ⟨ffd, rfl, there⟩
        simp only [search, ok_bind, dereferenced]
        rcases @installFiledesc_cases { fs with
            filedescs := fs.filedescs.alloc (garbage.filedesc fs.filedescs.next) }
          fs.filedescs.next file desc.offset flags _ struct nonneg present
          (Heap.read_alloc_next _ _) with completes | ⟨full, stops⟩
        · exact .inl completes
        · dsimp only at full
          exact .inr ⟨by omega, stops⟩

/-! ## Runs -/

theorem run_structure {history : History} {fs : FsState}
    (run : Run (perform garbage) UnclosedCalls initial history fs) :
    Kept history fs ∧ NextLinked fs.files ∧ RefsCounted fs := by
  apply run_invariant (fun history fs => Kept history fs ∧ NextLinked fs.files ∧ RefsCounted fs) _ _ run
  · refine ⟨kept_initial, ?_, ?_⟩
    · intro file struct read
      cases (Heap.read_empty file).symm.trans read
    · intro file struct read
      cases (Heap.read_empty file).symm.trans read
  · intro history before call reply after held unclosed performed
    obtain ⟨kept, nextLinked, counted⟩ := held
    have effect := perform_effect performed
    exact ⟨kept_step kept unclosed performed,
      next_linked_step kept.recorded.linked nextLinked unclosed effect,
      refs_counted_step kept counted unclosed effect⟩

theorem found_of_kept {history : History} {fs : FsState} (kept : Kept history fs)
    (filename : String) : findFileStruct filename fs = .ok ((ledgerOf history).named filename) := by
  have files := files_kept_of_invariants kept.recorded kept.lifetimes kept.contents
  cases named : (ledgerOf history).named filename with
  | some file => exact files.found filename file named
  | none =>
      obtain ⟨found, walked⟩ :=
        finds_safely_of_none_freed kept.recorded.linked kept.allocated filename
      cases found with
      | none => exact walked
      | some file =>
          obtain ⟨struct, present, hasName⟩ := find_file_some walked
          have known := kept.recorded.names file struct filename present hasName
          rw [named] at known
          cases known

theorem next_undoes_prev {files : Heap File} {list : Option Nat} (linked : Linked files list)
    (nextLinked : NextLinked files) (allocated : NoneFreed files) {file : Nat} {struct : File}
    (present : files.read file = some struct) (newer : Nat) :
    struct.next = some newer ↔ ∃ other, files.read newer = some other ∧ other.prev = some file := by
  rw [nextLinked file struct present]
  constructor
  · intro next
    split_ifs at next with inside
    cases next
    obtain ⟨other, there⟩ := allocated (file + 1) inside
    exact ⟨other, there, linked.prev (file + 1) other there⟩
  · intro undone
    obtain ⟨other, there, prev⟩ := undone
    rw [linked.prev newer other there] at prev
    have before := previous_eq_some prev
    have bound := Heap.lt_next_of_read there
    rw [if_pos (by omega), before]

theorem next_ends_at_head {files : Heap File} {list : Option Nat} (linked : Linked files list)
    (nextLinked : NextLinked files) {file : Nat} {struct : File}
    (present : files.read file = some struct) : struct.next = none ↔ list = some file := by
  have bound := Heap.lt_next_of_read present
  rw [nextLinked file struct present, linked.head]
  constructor
  · intro next
    split_ifs at next with inside
    have newest : file + 1 = files.next := by omega
    rw [← newest]
    rfl
  · intro head
    have newest := previous_eq_some head
    rw [if_neg (by omega)]

/-- In every run without `ufs_close` the list is well formed, names are
unique, references are exact and no open meets its assertion. -/
theorem list_well_formed {history : History} {fs : FsState}
    (run : Run (perform garbage) UnclosedCalls initial history fs) :
    ListWellFormed garbage history fs := by
  obtain ⟨kept, nextLinked, counted⟩ := run_structure run
  have linked := kept.recorded.linked
  constructor
  · rw [linked.head, kept.recorded.created]
    exact walk_prev_ok linked kept.allocated (Nat.le_refl _) (Nat.le_refl _)
  · intro file struct present newer
    exact next_undoes_prev linked nextLinked kept.allocated present newer
  · intro file struct present
    exact next_ends_at_head linked nextLinked present
  · intro file other struct otherStruct name present otherPresent hasName otherName
    have known := kept.recorded.names file struct name present hasName
    rw [kept.recorded.names other otherStruct name otherPresent otherName] at known
    exact (Option.some.inj known).symm
  · exact found_of_kept kept
  · exact counted
  · exact open_cases kept counted

def recreated : Option (History × FsState) :=
  replay (perform zeroGarbage) UnclosedCalls
    [.open "a" (ufsCreate ||| ufsReadWrite), .open "b" (ufsCreate ||| ufsReadWrite),
      .open "a" ufsReadOnly, .delete "a", .open "a" (ufsCreate ||| ufsReadWrite)] [] initial

theorem recreated_well_formed :
    ∃ final, recreated = some final ∧ ListWellFormed zeroGarbage final.1 final.2 ∧
      walkPrev final.2.files final.2.files.next final.2.fileList = .ok [2, 1, 0] ∧
      findFileStruct "a" final.2 = .ok (some 2) := by
  have walked : (recreated.map fun final =>
      walkPrev final.2.files final.2.files.next final.2.fileList) = some (.ok [2, 1, 0]) := by decide
  have found : (recreated.map fun final => findFileStruct "a" final.2) = some (.ok (some 2)) := by
    decide
  cases replayed : recreated with
  | none => simp [replayed] at walked
  | some final =>
      simp only [replayed, Option.map_some, Option.some.injEq] at walked found
      exact ⟨final, rfl, list_well_formed (run_of_replay .start replayed), walked, found⟩

end Sysprog.Userfs.ListStructure
