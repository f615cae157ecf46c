import Sysprog.Userfs.RecordedFiles

/-!
# The bounds of the descriptor table

`ufs_open` takes `file_descriptor_count` for its index and never looks at
`file_descriptor_capacity`. The count is at least the number of open
descriptors, so it does not go below 0; nothing keeps it below the capacity
but a client that stops opening.
-/

namespace Sysprog.Userfs.TableBounds

open CheckedRuns Memory Blocks Calls CallEffects ClientLedger DescriptorNumbers
open RecordedFiles (find_file_some)

set_option autoImplicit false

variable {garbage : Garbage}

def OpensAndCloses (history : History) : Call → Prop
  | .open _ _ => True
  | .close fd => fd ∈ openDescriptors history
  | _ => False

instance (history : History) : (call : Call) → Decidable (OpensAndCloses history call)
  | .open _ _ => .isTrue trivial
  | .close fd => inferInstanceAs (Decidable (fd ∈ openDescriptors history))
  | .write _ _ _ => .isFalse id
  | .read _ _ _ => .isFalse id
  | .delete _ => .isFalse id
  | .size _ => .isFalse id

/-- What is asked of an `ufs_open`: it returns, and its descriptor went to an
index the table has, or it failed and left the table. -/
def StoresInside (garbage : Garbage) (fs : FsState) (filename : String) (flags : BitVec 32) :
    Prop :=
  match ufsOpen garbage filename flags fs with
  | .ok (value, after) =>
      (0 ≤ value ∧ value < after.fileDescriptors.length ∧
        after.fileDescriptors[value.toNat]? = some (.filedesc fs.filedescs.next)) ∨
      (value = -1 ∧ after.fileDescriptors = fs.fileDescriptors)
  | .error _ => False

/-- The opens that fail: a file to be created exists, a file to be opened does not. -/
def Refused (fs : FsState) (filename : String) (flags : BitVec 32) : Prop :=
  (flags &&& ufsCreate ≠ 0 ∧ ∃ file, findFileStruct filename fs = .ok (some file)) ∨
    (flags &&& ufsCreate = 0 ∧ findFileStruct filename fs = .ok none)

/-- `find_file_struct` and `find_filedesc` meet no freed struct: they find no
file to be created, or the file to be opened and a descriptor of it. -/
def SearchesReturn (fs : FsState) (filename : String) (flags : BitVec 32) : Prop :=
  (flags &&& ufsCreate ≠ 0 ∧ findFileStruct filename fs = .ok none) ∨
    (flags &&& ufsCreate = 0 ∧ ∃ file ffd, findFileStruct filename fs = .ok (some file) ∧
      findFiledesc file fs = .ok (some ffd))

def HasRoom (fs : FsState) : Call → Prop
  | .open filename flags => Refused fs filename flags ∨
      (fs.fileDescriptorCount < fileDescriptorCapacity ∧ SearchesReturn fs filename flags)
  | _ => True

def RoomyCalls (history : History) (fs : FsState) (call : Call) : Prop :=
  OpensAndCloses history call ∧ HasRoom fs call

/-- The table has as many entries as its capacity, and the count lies between
the number of open descriptors and the capacity. -/
structure Bounded (history : History) (fs : FsState) : Prop where
  length : fs.fileDescriptors.length = fileDescriptorCapacity
  counted : ((openDescriptors history).card : Int) ≤ fs.fileDescriptorCount
  capacity : fs.fileDescriptorCount ≤ fileDescriptorCapacity
  below : TableBelow fs.fileDescriptors fs.filedescs.next

theorem bounded_initial : Bounded [] initial := by
  constructor
  · exact List.length_replicate
  · exact Int.le_refl 0
  · decide
  · exact compact_initial.below

theorem bounded_unchanged {history : History} {fs after : FsState} {event : Event Call Reply}
    (bounded : Bounded history fs)
    (recorded : openDescriptors (history ++ [event]) = openDescriptors history)
    (table : after.fileDescriptors = fs.fileDescriptors)
    (count : after.fileDescriptorCount = fs.fileDescriptorCount)
    (heap : fs.filedescs.next ≤ after.filedescs.next) : Bounded (history ++ [event]) after := by
  constructor
  · rw [table]
    exact bounded.length
  · rw [recorded, count]
    exact bounded.counted
  · rw [count]
    exact bounded.capacity
  · rw [table]
    exact tableBelow_mono bounded.below heap

theorem bounded_opened {history : History} {fs after : FsState} {files : Heap File} {file : Nat}
    {offset value : Int} {flags passed : BitVec 32} {filename : String} {buffer : List Byte}
    (bounded : Bounded history fs)
    (opened : Opened garbage fs after files file offset passed value) :
    Bounded (history ++ [⟨.open filename flags, ⟨value, buffer⟩⟩]) after := by
  have counted := bounded.counted
  have inside := opened.inside
  have nonneg := opened.nonneg
  rw [bounded.length] at inside
  constructor
  · rw [opened.table, List.length_set]
    exact bounded.length
  · have more := Finset.card_insert_le value (openDescriptors history)
    rw [descriptors_after_open (opened_not_failed opened), opened.count]
    dsimp only
    omega
  · rw [opened.count]
    omega
  · rw [opened.table, opened.filedescs, Heap.next_write, Heap.next_alloc]
    exact tableBelow_set bounded.below

theorem bounded_closed {history : History} {fs after : FsState} {fdno : Int}
    {buffer : List Byte} (bounded : Bounded history fs) (isOpen : fdno ∈ openDescriptors history)
    (table : after.fileDescriptors = fs.fileDescriptors)
    (count : after.fileDescriptorCount = fs.fileDescriptorCount - 1)
    (heap : after.filedescs.next = fs.filedescs.next) :
    Bounded (history ++ [⟨.close fdno, ⟨0, buffer⟩⟩]) after := by
  have recorded : openDescriptors (history ++ [⟨.close fdno, ⟨0, buffer⟩⟩]) =
      (openDescriptors history).erase fdno := by
    simp [openDescriptors, record, recordClose]
  have positive : 0 < (openDescriptors history).card := Finset.card_pos.mpr ⟨fdno, isOpen⟩
  have counted := bounded.counted
  have capacity := bounded.capacity
  constructor
  · rw [table]
    exact bounded.length
  · rw [recorded, Finset.card_erase_of_mem isOpen, count]
    omega
  · rw [count]
    omega
  · rw [table, heap]
    exact bounded.below

theorem bounded_step (history : History) (fs : FsState) (call : Call) (reply : Reply)
    (after : FsState) (bounded : Bounded history fs) (permitted : OpensAndCloses history call)
    (performed : perform garbage fs call = .ok (reply, after)) :
    Bounded (history ++ [⟨call, reply⟩]) after := by
  cases perform_effect performed with
  | ofOpen effect =>
      cases effect with
      | failed code =>
          exact bounded_unchanged bounded descriptors_after_failed_open rfl rfl
            (by simp [openFailure, fail])
      | created creating absent linked opened listed => exact bounded_opened bounded opened
      | existing opening found opened listed => exact bounded_opened bounded opened
  | ofClose effect =>
      cases effect with
      | failed entry =>
          exact bounded_unchanged bounded (by simp [openDescriptors, record, recordClose]) rfl rfl
            le_rfl
      | kept entry descriptor target present remaining =>
          exact bounded_closed bounded permitted rfl rfl (by simp)
      | released entry descriptor target present last deallocated =>
          obtain ⟨table, count, heap, _⟩ := deallocateFile_frame deallocated
          exact bounded_closed bounded permitted table (by simp [count]) (by simp [heap])
  | ofWrite effect => exact permitted.elim
  | ofRead effect => exact permitted.elim
  | ofDelete effect => exact permitted.elim
  | ofSize effect => exact permitted.elim

theorem run_bounded {history : History} {fs : FsState}
    (run : Run (perform garbage) RoomyCalls initial history fs) : Bounded history fs := by
  refine run_invariant Bounded bounded_initial ?_ run
  intro history fs call reply after bounded permitted performed
  exact bounded_step history fs call reply after bounded permitted.1 performed

/-! ## When an open returns -/

/-- The struct that an open has just allocated is in no entry yet, so the
search goes as it would before. -/
theorem search_of_fresh {filedescs : Heap Filedesc} {slots : List Slot} (fresh : Filedesc)
    (below : ∀ address, .filedesc address ∈ slots → address < filedescs.next) (file count : Nat) :
    findFiledescIn (filedescs.alloc fresh) file count slots =
      findFiledescIn filedescs file count slots := by
  induction slots generalizing count with
  | nil => cases count <;> rfl
  | cons slot slots ih =>
      cases count with
      | zero => rfl
      | succ count =>
          cases slot with
          | unset => rfl
          | null => rfl
          | filedesc address =>
              have old := Nat.ne_of_lt (below address List.mem_cons_self)
              have rest := ih (fun other member => below other (List.mem_cons_of_mem _ member)) count
              simp only [findFiledescIn, deref, Heap.read_alloc_of_ne fresh old, rest]

theorem find_filedesc_of_fresh {fs : FsState} {file : Nat}
    (below : TableBelow fs.fileDescriptors fs.filedescs.next) (fresh : Filedesc) :
    findFiledesc file { fs with filedescs := fs.filedescs.alloc fresh } =
      findFiledesc file fs := by
  apply search_of_fresh
  intro address member
  obtain ⟨index, entry⟩ := List.mem_iff_getElem?.mp member
  exact below index address entry

theorem found_allocated {filedescs : Heap Filedesc} {file count found : Nat} {slots : List Slot}
    (walked : findFiledescIn filedescs file count slots = .ok (some found)) :
    ∃ desc, filedescs.read found = some desc := by
  induction slots generalizing count with
  | nil => cases count <;> cases walked
  | cons slot slots ih =>
      cases count with
      | zero => cases walked
      | succ count =>
          cases slot with
          | unset => cases walked
          | null => cases walked
          | filedesc address =>
              obtain ⟨desc, dereferenced, rest⟩ := bind_eq_ok.mp walked
              obtain ⟨_, same, present⟩ := deref_eq_ok.mp dereferenced
              cases same
              split_ifs at rest
              · cases rest
                exact ⟨desc, present⟩
              · exact ih rest

theorem head_of_walk {fs : FsState} {filename : String} {found : Option Nat}
    (walked : findFileStruct filename fs = .ok found) (older : Nat)
    (head : fs.fileList = some older) : ∃ struct, fs.files.read older = some struct := by
  unfold findFileStruct at walked
  rw [head] at walked
  cases fuel : fs.files.next with
  | zero =>
      rw [fuel] at walked
      cases walked
  | succ less =>
      rw [fuel] at walked
      obtain ⟨struct, dereferenced, _⟩ := bind_eq_ok.mp walked
      obtain ⟨_, same, present⟩ := deref_eq_ok.mp dereferenced
      cases same
      exact ⟨struct, present⟩

section Opening

variable {filename : String} {flags : BitVec 32} {fs : FsState}

theorem refused_returns (refused : Refused fs filename flags) :
    ∃ result, ufsOpen garbage filename flags fs = .ok result := by
  have walk : findFileStruct filename
      { fs with filedescs := fs.filedescs.alloc (garbage.filedesc fs.filedescs.next) } =
        findFileStruct filename fs := rfl
  unfold ufsOpen
  rcases refused with ⟨creating, file, found⟩ | ⟨opening, absent⟩
  · simp only [walk, found, ok_bind, if_pos creating]
    exact ⟨_, rfl⟩
  · simp only [walk, absent, ok_bind, opening, ne_eq, not_true_eq_false, if_false]
    exact ⟨_, rfl⟩

theorem roomy_returns (below : TableBelow fs.fileDescriptors fs.filedescs.next)
    (nonneg : 0 ≤ fs.fileDescriptorCount)
    (inside : fs.fileDescriptorCount.toNat < fs.fileDescriptors.length)
    (searches : SearchesReturn fs filename flags) :
    ∃ result, ufsOpen garbage filename flags fs = .ok result := by
  have walk : findFileStruct filename
      { fs with filedescs := fs.filedescs.alloc (garbage.filedesc fs.filedescs.next) } =
        findFileStruct filename fs := rfl
  unfold ufsOpen
  rcases searches with ⟨creating, absent⟩ | ⟨opening, file, ffd, found, search⟩
  · obtain ⟨base, struct, done, present, table, count, filedescs⟩ :=
      @allocFileStruct_completes garbage
        { fs with filedescs := fs.filedescs.alloc (garbage.filedesc fs.filedescs.next) }
        (head_of_walk absent) filename
    have fresh : base.filedescs.read fs.filedescs.next =
        some (garbage.filedesc fs.filedescs.next) := by
      rw [filedescs]
      exact Heap.read_alloc_next _ _
    simp only [walk, absent, ok_bind, if_pos creating, done]
    apply (@installFiledesc_cases base fs.filedescs.next fs.files.next 0 (flags &&& ~~~ufsCreate)
      _ struct (by rw [count]; exact nonneg) present fresh).resolve_right
    intro full
    rw [table, count] at full
    exact absurd inside (Nat.not_lt.mpr full.1)
  · obtain ⟨struct, present, _⟩ := find_file_some found
    rw [← find_filedesc_of_fresh below (garbage.filedesc fs.filedescs.next)] at search
    obtain ⟨desc, there⟩ := found_allocated search
    simp only [walk, found, ok_bind, opening, ne_eq, not_true_eq_false, if_false, search, deref,
      there]
    apply (@installFiledesc_cases
      { fs with filedescs := fs.filedescs.alloc (garbage.filedesc fs.filedescs.next) }
      fs.filedescs.next file desc.offset flags _ struct nonneg present
      (Heap.read_alloc_next _ _)).resolve_right
    intro full
    exact absurd inside (Nat.not_lt.mpr full.1)

/-- An open that returns was refused, or both its searches returned and there
was an entry for its descriptor. -/
theorem room_of_returned {value : Int} {after : FsState}
    (below : TableBelow fs.fileDescriptors fs.filedescs.next)
    (done : ufsOpen garbage filename flags fs = .ok (value, after)) :
    Refused fs filename flags ∨ (fs.fileDescriptorCount.toNat < fs.fileDescriptors.length ∧
      SearchesReturn fs filename flags) := by
  obtain ⟨file, found, rest⟩ := bind_eq_ok.mp done
  have walked : findFileStruct filename fs = .ok file := found
  split_ifs at rest with creating
  · cases file with
    | some file => exact .inl (.inl ⟨creating, file, walked⟩)
    | none =>
        obtain ⟨⟨file, base⟩, allocated, installed⟩ := bind_eq_ok.mp rest
        obtain ⟨rfl, files, linked, rfl⟩ := allocFileStruct_ok allocated
        obtain ⟨opened, _⟩ :=
          @installFiledesc_ok garbage fs _ _ _ _ _ _ installed rfl rfl rfl rfl rfl
        exact .inr ⟨opened.inside, .inl ⟨creating, walked⟩⟩
  · have opening := not_not.mp creating
    cases file with
    | none => exact .inl (.inr ⟨opening, walked⟩)
    | some file =>
        obtain ⟨ffd, search, rest⟩ := bind_eq_ok.mp rest
        rw [find_filedesc_of_fresh below] at search
        cases ffd with
        | none => cases rest
        | some ffd =>
            obtain ⟨other, _, installed⟩ := bind_eq_ok.mp rest
            obtain ⟨opened, _⟩ :=
              @installFiledesc_ok garbage fs _ _ _ _ _ _ installed rfl rfl rfl rfl rfl
            exact .inr ⟨opened.inside, .inr ⟨opening, file, ffd, walked, search⟩⟩

theorem stores_inside_of_returned {value : Int} {after : FsState}
    (done : ufsOpen garbage filename flags fs = .ok (value, after)) :
    StoresInside garbage fs filename flags := by
  have stored {files : Heap File} {file : Nat} {offset : Int} {passed : BitVec 32}
      (opened : Opened garbage fs after files file offset passed value) :
      0 ≤ value ∧ value < after.fileDescriptors.length ∧
        after.fileDescriptors[value.toNat]? = some (.filedesc fs.filedescs.next) := by
    have nonneg := opened.nonneg
    have inside := opened.inside
    rw [opened.value_eq, opened.table, List.length_set, List.getElem?_set_self inside]
    exact ⟨nonneg, by omega, rfl⟩
  unfold StoresInside
  rw [done]
  cases ufsOpen_effect done with
  | failed code => exact .inr ⟨rfl, rfl⟩
  | created creating absent linked opened listed => exact .inl (stored opened)
  | existing opening found opened listed => exact .inl (stored opened)

theorem stores_inside_iff {history : History} (bounded : Bounded history fs) :
    StoresInside garbage fs filename flags ↔ HasRoom fs (.open filename flags) := by
  have nonneg := Int.le_trans (Int.natCast_nonneg _) bounded.counted
  have length := bounded.length
  constructor
  · intro inside
    unfold StoresInside at inside
    cases done : ufsOpen garbage filename flags fs with
    | error halt =>
        rw [done] at inside
        exact inside.elim
    | ok result =>
        rcases room_of_returned bounded.below done with refused | ⟨room, searches⟩
        · exact .inl refused
        · exact .inr ⟨by omega, searches⟩
  · intro room
    have returns : ∃ result, ufsOpen garbage filename flags fs = .ok result := by
      rcases room with refused | ⟨room, searches⟩
      · exact refused_returns refused
      · exact roomy_returns bounded.below nonneg (by omega) searches
    obtain ⟨⟨value, after⟩, done⟩ := returns
    exact stores_inside_of_returned done

end Opening

/-- As long as every open has room, the count stays in its bounds, and the
next one does what is asked of it exactly when it has room too. -/
theorem table_kept_with_room {history : History} {fs : FsState}
    (run : Run (perform garbage) RoomyCalls initial history fs) :
    (0 ≤ fs.fileDescriptorCount ∧ fs.fileDescriptorCount ≤ fileDescriptorCapacity) ∧
      ∀ filename flags,
        StoresInside garbage fs filename flags ↔ HasRoom fs (.open filename flags) := by
  have bounded := run_bounded run
  refine ⟨⟨Int.le_trans (Int.natCast_nonneg _) bounded.counted, bounded.capacity⟩, ?_⟩
  intro filename flags
  exact stores_inside_iff bounded

/-- `a` is created, opened once more and that descriptor closed, and the next
open of it stores its descriptor at 1 again. -/
theorem table_kept_after_close :
    ∃ history fs, Run (perform zeroGarbage) RoomyCalls initial history fs ∧
      history.map Event.call =
        [.open "a" (ufsCreate ||| ufsReadWrite), .open "a" ufsReadWrite, .close 1] ∧
      (0 ≤ fs.fileDescriptorCount ∧ fs.fileDescriptorCount ≤ fileDescriptorCapacity) ∧
      StoresInside zeroGarbage fs "a" ufsReadWrite := by
  have mayCreate : RoomyCalls [] initial (.open "a" (ufsCreate ||| ufsReadWrite)) :=
    ⟨trivial, .inr ⟨by decide, .inl ⟨by decide, rfl⟩⟩⟩
  have created := Run.start.call mayCreate (rfl : perform zeroGarbage _ _ = .ok (⟨0, []⟩, _))
  have opened := created.call
    (by exact ⟨trivial, .inr ⟨by decide, .inr ⟨by decide, 0, 0, rfl, rfl⟩⟩⟩)
    (rfl : perform zeroGarbage _ (.open "a" ufsReadWrite) = .ok (⟨1, []⟩, _))
  have closed := opened.call (by exact ⟨by decide, trivial⟩)
    (rfl : perform zeroGarbage _ (.close 1) = .ok (⟨0, []⟩, _))
  obtain ⟨bounds, next⟩ := table_kept_with_room closed
  refine ⟨_, _, closed, rfl, bounds, (next "a" ufsReadWrite).mpr ?_⟩
  exact .inr ⟨by decide, .inr ⟨by decide, 0, 0, rfl, rfl⟩⟩

def tableFull : Option (History × FsState) :=
  replay (perform zeroGarbage) (fun history _ call => OpensAndCloses history call)
    (.open "a" (ufsCreate ||| ufsReadWrite) :: List.replicate 99 (.open "a" ufsReadWrite)) []
    initial

/-- The open after that stores its descriptor behind the table. -/
theorem next_open_overruns :
    ∃ history fs, Run (perform zeroGarbage) (fun history _ call => OpensAndCloses history call)
        initial history fs ∧ fs.fileDescriptorCount = 100 ∧
      ufsOpen zeroGarbage "a" ufsReadWrite fs = .error .outOfRange ∧
      ¬ StoresInside zeroGarbage fs "a" ufsReadWrite := by
  have overrun : (tableFull.map fun final => (final.2.fileDescriptorCount,
      (ufsOpen zeroGarbage "a" ufsReadWrite final.2).map fun _ => ())) =
        some (100, .error .outOfRange) := by
    decide +kernel
  cases replayed : tableFull with
  | none => simp [replayed] at overrun
  | some final =>
      rcases final with ⟨history, fs⟩
      simp only [replayed, Option.map_some, Option.some.injEq, Prod.mk.injEq] at overrun
      obtain ⟨count, overrun⟩ := overrun
      have halted : ufsOpen zeroGarbage "a" ufsReadWrite fs = .error .outOfRange := by
        cases done : ufsOpen zeroGarbage "a" ufsReadWrite fs with
        | ok result =>
            rw [done] at overrun
            cases overrun
        | error halt =>
            rw [done] at overrun
            cases overrun
            rfl
      refine ⟨history, fs, run_of_replay .start replayed, count, halted, ?_⟩
      intro inside
      unfold StoresInside at inside
      rw [halted] at inside
      exact inside

end Sysprog.Userfs.TableBounds
