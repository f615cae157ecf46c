import Sysprog.Userfs.DescriptorNumbers

/-!
# The list of files

`alloc_file_struct` puts every new struct at the head of the list and nothing
ever takes one off it, so the list runs from the newest file down to the
oldest whatever was freed meanwhile. `ufs_close` frees a struct with its last
reference, and then the walk of `find_file_struct` meets freed memory.
-/

namespace Sysprog.Userfs.FileList

open CheckedRuns Memory Blocks Calls CallEffects ClientLedger DescriptorNumbers

set_option autoImplicit false

variable {garbage : Garbage}

def previous : Nat → Option Nat
  | 0 => none
  | file + 1 => some file

structure Linked (files : Heap File) (list : Option Nat) : Prop where
  head : list = previous files.next
  prev : ∀ file struct, files.read file = some struct → struct.prev = previous file

theorem linked_initial : Linked initial.files initial.fileList := by
  refine ⟨rfl, ?_⟩
  intro file struct present
  simp [initial] at present

theorem linked_write {files : Heap File} {list : Option Nat} {file : Nat} {struct changed : File}
    (linked : Linked files list) (present : files.read file = some struct)
    (prev : changed.prev = struct.prev) : Linked (files.write file changed) list := by
  refine ⟨by rw [Heap.next_write]; exact linked.head, ?_⟩
  intro other found read
  rcases Heap.read_write_cases present read with ⟨rfl, rfl⟩ | ⟨_, before⟩
  · rw [prev]
    exact linked.prev other struct present
  · exact linked.prev other found before

theorem linked_release {files : Heap File} {list : Option Nat} {file : Nat}
    (linked : Linked files list) : Linked (files.release file) list := by
  refine ⟨by rw [Heap.next_release]; exact linked.head, ?_⟩
  intro other struct read
  exact linked.prev other struct (Heap.read_of_read_release read).2

theorem linkOlder_next {files linked : Heap File} {older : Option Nat} {file : Nat}
    (done : linkOlder files older file = .ok linked) : linked.next = files.next :=
  (linkOlder_ok done).1

/-- `linkOlder` changes nothing but the `next` field of one struct. -/
theorem linkOlder_read {files linked : Heap File} {older : Option Nat} {file other : Nat}
    {struct : File} (done : linkOlder files older file = .ok linked)
    (read : linked.read other = some struct) :
    ∃ original next, files.read other = some original ∧ struct = { original with next := next } := by
  rw [(linkOlder_ok done).2 other] at read
  split_ifs at read with isOlder
  · obtain ⟨original, present, rfl⟩ := Option.map_eq_some_iff.mp read
    exact ⟨original, some file, present, rfl⟩
  · exact ⟨struct, struct.next, read, rfl⟩

theorem linked_create {fs : FsState} {files : Heap File} {filename : String}
    (linked : Linked fs.files fs.fileList)
    (created : linkOlder (fs.files.alloc (newFile garbage filename fs)) fs.fileList
      fs.files.next = .ok files) : Linked files (some fs.files.next) := by
  constructor
  · rw [linkOlder_next created, Heap.next_alloc]
    rfl
  · intro file struct read
    obtain ⟨original, next, present, rfl⟩ := linkOlder_read created read
    by_cases isNew : file = fs.files.next
    · subst isNew
      rw [Heap.read_alloc_next] at present
      cases present
      exact linked.head
    · rw [Heap.read_alloc_of_ne _ isNew] at present
      exact linked.prev file original present

/-- Every call that returns keeps the list linked from the newest file down,
whatever descriptor it was passed. -/
theorem linked_step {fs after : FsState} {call : Call} {reply : Reply}
    (linked : Linked fs.files fs.fileList) (effect : CallEffect garbage fs call reply after) :
    Linked after.files after.fileList := by
  cases effect with
  | ofOpen effect =>
      cases effect with
      | failed code => exact linked
      | created creating absent created opened listed =>
          obtain ⟨struct, present, files⟩ := opened.refs
          rw [listed, files]
          exact linked_write (linked_create linked created) present rfl
      | existing opening found opened listed =>
          obtain ⟨struct, present, files⟩ := opened.refs
          rw [listed, files]
          exact linked_write linked present rfl
  | ofWrite effect =>
      cases effect with
      | failed code => exact linked
      | written _ _ _ _ _ present => exact linked_write linked present rfl
  | ofRead effect => cases effect <;> exact linked
  | ofClose effect =>
      cases effect with
      | failed code => exact linked
      | kept _ _ _ present => exact linked_write linked present rfl
      | released _ _ _ present _ deallocated =>
          obtain ⟨_, _, _, list, files⟩ := deallocateFile_frame deallocated
          dsimp only
          rw [list, files]
          exact linked_release (linked_write linked present rfl)
  | ofDelete effect =>
      cases effect with
      | absent => exact linked
      | deleted found present => exact linked_write linked present rfl
  | ofSize effect => rcases effect with rfl | rfl <;> exact linked

/-- The files that following `prev` from `file_list` visits. -/
inductive OnList (fs : FsState) : Nat → Prop where
  | head {file : Nat} (listed : fs.fileList = some file) : OnList fs file
  | prev {file older : Nat} {struct : File} (newer : OnList fs file)
      (present : fs.files.read file = some struct) (linked : struct.prev = some older) :
      OnList fs older

def ListAllocated (fs : FsState) : Prop :=
  ∀ file, OnList fs file → ∃ struct, fs.files.read file = some struct

/-- `find_file_struct` comes to an end for every name and follows allocated
structs only. -/
def FindsSafely (fs : FsState) : Prop :=
  ∀ filename, ∃ found, findFileStruct filename fs = .ok found

def NoneFreed (files : Heap File) : Prop :=
  ∀ file, file < files.next → ∃ struct, files.read file = some struct

theorem previous_eq_some {file older : Nat} (before : previous file = some older) :
    older + 1 = file := by
  cases file with
  | zero => cases before
  | succ file =>
      cases before
      rfl

theorem on_list_lt {fs : FsState} (linked : Linked fs.files fs.fileList) {file : Nat}
    (listed : OnList fs file) : file < fs.files.next := by
  induction listed with
  | head listed =>
      rw [linked.head] at listed
      have before := previous_eq_some listed
      omega
  | prev newer present link ih =>
      rw [linked.prev _ _ present] at link
      have before := previous_eq_some link
      omega

theorem on_list_of_newer_allocated {fs : FsState} (linked : Linked fs.files fs.fileList)
    {file : Nat} (bound : file < fs.files.next)
    (newer : ∀ other, file < other → other < fs.files.next →
      ∃ struct, fs.files.read other = some struct) : OnList fs file := by
  obtain ⟨distance, total⟩ : ∃ distance, file + distance + 1 = fs.files.next :=
    ⟨fs.files.next - file - 1, by omega⟩
  induction distance generalizing file with
  | zero =>
      apply OnList.head
      rw [linked.head, ← total]
      rfl
  | succ distance ih =>
      have above : OnList fs (file + 1) := by
        apply ih (by omega)
        · intro other lower upper
          exact newer other (by omega) upper
        · omega
      obtain ⟨struct, present⟩ := newer (file + 1) (by omega) (by omega)
      exact .prev above present (linked.prev _ _ present)

theorem list_allocated_of_none_freed {fs : FsState} (linked : Linked fs.files fs.fileList)
    (allocated : NoneFreed fs.files) : ListAllocated fs :=
  fun file listed => allocated file (on_list_lt linked listed)

/-- The walk from the file just below `bound` down to the oldest. -/
theorem find_from_ok {files : Heap File} {list : Option Nat} (linked : Linked files list)
    (allocated : NoneFreed files) (filename : String) {bound fuel : Nat}
    (inside : bound ≤ files.next) (enough : bound ≤ fuel) :
    ∃ found, findFileFrom files filename fuel (previous bound) = .ok found := by
  induction bound generalizing fuel with
  | zero => exact ⟨none, by cases fuel <;> rfl⟩
  | succ file ih =>
      obtain ⟨fuel, rfl⟩ : ∃ less, fuel = less + 1 := ⟨fuel - 1, by omega⟩
      obtain ⟨struct, present⟩ := allocated file (by omega)
      have step : findFileFrom files filename (fuel + 1) (previous (file + 1)) =
          if struct.name = some filename then .ok (some file)
          else findFileFrom files filename fuel struct.prev := by
        simp only [previous, findFileFrom, deref, present]
        rfl
      rw [step]
      split_ifs with named
      · exact ⟨some file, rfl⟩
      · rw [linked.prev file struct present]
        exact ih (by omega) (by omega)

theorem finds_safely_of_none_freed {fs : FsState} (linked : Linked fs.files fs.fileList)
    (allocated : NoneFreed fs.files) : FindsSafely fs := by
  intro filename
  unfold findFileStruct
  rw [linked.head]
  exact find_from_ok linked allocated filename le_rfl le_rfl

def refsOf (fs : FsState) (fdno : Int) : Except Halt Int := do
  let desc ← entryOf fs fdno
  let struct ← deref fs.files desc.file
  .ok struct.refs

def KeepsReference (fs : FsState) : Call → Prop
  | .close fd => refsOf fs fd ≠ .ok 1
  | _ => True

instance (fs : FsState) : (call : Call) → Decidable (KeepsReference fs call)
  | .close fd => inferInstanceAs (Decidable (refsOf fs fd ≠ .ok 1))
  | .open _ _ => .isTrue trivial
  | .write _ _ _ => .isTrue trivial
  | .read _ _ _ => .isTrue trivial
  | .delete _ => .isTrue trivial
  | .size _ => .isTrue trivial

theorem refs_of_entry {fs : FsState} {fdno : Int} {fd file : Nat} {desc : Filedesc}
    {struct : File} (entry : fileDescriptorAt fs fdno = .ok (some fd))
    (descriptor : fs.filedescs.read fd = some desc) (target : desc.file = some file)
    (present : fs.files.read file = some struct) : refsOf fs fdno = .ok struct.refs := by
  have looked : entryOf fs fdno = .ok desc :=
    bind_eq_ok.mpr ⟨some fd, entry, deref_eq_ok.mpr ⟨fd, rfl, descriptor⟩⟩
  have found : deref fs.files desc.file = .ok struct := deref_eq_ok.mpr ⟨file, target, present⟩
  exact bind_eq_ok.mpr ⟨desc, looked, bind_eq_ok.mpr ⟨struct, found, rfl⟩⟩

theorem none_freed_write {files : Heap File} {file : Nat} {changed : File}
    (allocated : NoneFreed files) : NoneFreed (files.write file changed) := by
  intro other bound
  rw [Heap.next_write] at bound
  by_cases same : other = file
  · subst same
    exact ⟨changed, Heap.read_write_self _ bound⟩
  · rw [Heap.read_write_of_ne _ same]
    exact allocated other bound

theorem none_freed_create {fs : FsState} {files : Heap File} {filename : String}
    (allocated : NoneFreed fs.files)
    (created : linkOlder (fs.files.alloc (newFile garbage filename fs)) fs.fileList
      fs.files.next = .ok files) : NoneFreed files := by
  intro file bound
  rw [linkOlder_next created, Heap.next_alloc] at bound
  have present : ∃ struct, (fs.files.alloc (newFile garbage filename fs)).read file =
      some struct := by
    by_cases isNew : file = fs.files.next
    · subst isNew
      exact ⟨_, Heap.read_alloc_next _ _⟩
    · obtain ⟨struct, present⟩ := allocated file (by omega)
      exact ⟨struct, Heap.read_alloc_of_read _ present⟩
  obtain ⟨struct, present⟩ := present
  rw [(linkOlder_ok created).2 file, present]
  split_ifs
  · exact ⟨_, rfl⟩
  · exact ⟨struct, rfl⟩

theorem refs_of_closed {fs : FsState} {fdno : Int}
    (entry : fileDescriptorAt fs fdno = .ok none) : refsOf fs fdno = .error .badPointer := by
  have looked : entryOf fs fdno = .error .badPointer := by
    simp only [entryOf, entry]
    rfl
  simp only [refsOf, looked]
  rfl

theorem released_files {fs freed : FsState} {file : Nat} {changed : File}
    (deallocated : deallocateFile file { fs with files := fs.files.write file changed } =
      .ok freed) : freed.files = (fs.files.write file changed).release file := by
  obtain ⟨_, _, _, _, files⟩ := deallocateFile_frame deallocated
  exact files

theorem none_freed_step {fs after : FsState} {call : Call} {reply : Reply}
    (allocated : NoneFreed fs.files) (effect : CallEffect garbage fs call reply after)
    (keeps : KeepsReference fs call) : NoneFreed after.files := by
  cases effect with
  | ofOpen effect =>
      cases effect with
      | failed code => exact allocated
      | created creating absent created opened listed =>
          obtain ⟨struct, _, files⟩ := opened.refs
          rw [files]
          exact none_freed_write (none_freed_create allocated created)
      | existing opening found opened listed =>
          obtain ⟨struct, _, files⟩ := opened.refs
          rw [files]
          exact none_freed_write allocated
  | ofWrite effect =>
      cases effect with
      | failed code => exact allocated
      | written => exact none_freed_write allocated
  | ofRead effect => cases effect <;> exact allocated
  | ofClose effect =>
      cases effect with
      | failed entry => exact allocated
      | kept => exact none_freed_write allocated
      | released entry descriptor target present last deallocated =>
          have refs := refs_of_entry entry descriptor target present
          rw [last] at refs
          exact absurd refs keeps
  | ofDelete effect =>
      cases effect with
      | absent => exact allocated
      | deleted => exact none_freed_write allocated
  | ofSize effect => rcases effect with rfl | rfl <;> exact allocated

/-- The struct freed with a last reference stays where it was on the list. -/
theorem freed_on_list {fs after : FsState} {fdno : Int} {reply : Reply}
    (linked : Linked fs.files fs.fileList) (allocated : NoneFreed fs.files)
    (effect : CallEffect garbage fs (.close fdno) reply after)
    (last : refsOf fs fdno = .ok 1) :
    ∃ file, OnList after file ∧ after.files.read file = none := by
  have afterLinked := linked_step linked effect
  cases effect with
  | ofClose effect =>
      cases effect with
      | failed entry =>
          rw [refs_of_closed entry] at last
          cases last
      | kept entry descriptor target present remaining =>
          rw [refs_of_entry entry descriptor target present] at last
          exact absurd (Except.ok.inj last) remaining
      | @released fd file desc struct freed entry descriptor target present one deallocated =>
          have files := released_files deallocated
          refine ⟨file, ?_, ?_⟩
          · apply on_list_of_newer_allocated afterLinked
            · change file < freed.files.next
              rw [files, Heap.next_release, Heap.next_write]
              exact Heap.lt_next_of_read present
            · intro other newer bound
              change other < freed.files.next at bound
              rw [files, Heap.next_release, Heap.next_write] at bound
              obtain ⟨found, read⟩ := allocated other bound
              refine ⟨found, ?_⟩
              change freed.files.read other = some found
              rw [files, Heap.read_release_of_ne (by omega), Heap.read_write_of_ne _ (by omega)]
              exact read
          · change freed.files.read file = none
            rw [files]
            exact Heap.read_release_self _ _

def SafeList (fs : FsState) : Prop := ListAllocated fs ∧ FindsSafely fs

def ReferenceKept (_ : History) (fs : FsState) (call : Call) : Prop := KeepsReference fs call

instance (history : History) (fs : FsState) (call : Call) :
    Decidable (ReferenceKept history fs call) :=
  inferInstanceAs (Decidable (KeepsReference fs call))

theorem run_none_freed {history : History} {fs : FsState}
    (run : Run (perform garbage) ReferenceKept initial history fs) :
    Linked fs.files fs.fileList ∧ NoneFreed fs.files := by
  refine run_invariant (fun _ fs => Linked fs.files fs.fileList ∧ NoneFreed fs.files) ?_ ?_ run
  · refine ⟨linked_initial, ?_⟩
    intro file bound
    simp [initial] at bound
  · intro _ before call reply after held keeps performed
    have effect := perform_effect performed
    exact ⟨linked_step held.1 effect, none_freed_step held.2 effect keeps⟩

/-- While no `ufs_close` takes a last reference, no freed struct is on the
list and `find_file_struct` is safe; the first one that does breaks it. The
descriptors passed need not even be open. -/
theorem safe_list_iff_reference_kept {history : History} {fs : FsState}
    (run : Run (perform garbage) ReferenceKept initial history fs) :
    SafeList fs ∧ ∀ call reply after, perform garbage fs call = .ok (reply, after) →
      (SafeList after ↔ KeepsReference fs call) := by
  obtain ⟨linked, allocated⟩ := run_none_freed run
  have safe : ∀ state : FsState, Linked state.files state.fileList → NoneFreed state.files →
      SafeList state := fun state stateLinked stateAllocated =>
    ⟨list_allocated_of_none_freed stateLinked stateAllocated,
      finds_safely_of_none_freed stateLinked stateAllocated⟩
  refine ⟨safe fs linked allocated, ?_⟩
  intro call reply after performed
  have effect := perform_effect performed
  constructor
  · intro safeAfter
    cases call with
    | close fd =>
        intro last
        obtain ⟨file, listed, freed⟩ := freed_on_list linked allocated effect last
        obtain ⟨struct, present⟩ := safeAfter.1 file listed
        rw [freed] at present
        cases present
    | _ => trivial
  · intro keeps
    exact safe after (linked_step linked effect) (none_freed_step allocated effect keeps)

def oneOfTwoClosed : Option (History × FsState) :=
  replay (perform zeroGarbage) ReferenceKept
    [.open "a" (ufsCreate ||| ufsReadWrite), .open "a" ufsReadWrite, .close 0] [] initial

theorem safe_list_after_one_of_two_closed :
    ∃ final, oneOfTwoClosed = some final ∧ SafeList final.2 ∧ ¬ KeepsReference final.2 (.close 1) := by
  have last : (oneOfTwoClosed.map fun final => decide (KeepsReference final.2 (.close 1))) =
      some false := by decide
  cases replayed : oneOfTwoClosed with
  | none => simp [replayed] at last
  | some final =>
      simp only [replayed, Option.map_some, Option.some.injEq, decide_eq_false_iff_not] at last
      exact ⟨final, rfl, (safe_list_iff_reference_kept (run_of_replay .start replayed)).1, last⟩

def closedOnly : Option (History × FsState) :=
  replay (perform zeroGarbage) ClientCalls
    [.open "a" (ufsCreate ||| ufsReadWrite), .close 0] [] initial

theorem close_leaves_freed_on_list :
    ∃ history fs, Run (perform zeroGarbage) ClientCalls initial history fs ∧
      OnList fs 0 ∧ fs.files.read 0 = none ∧ findFileStruct "a" fs = .error .badPointer := by
  have listed : (closedOnly.map fun final => final.2.fileList) = some (some 0) := by decide
  have freed : (closedOnly.map fun final => final.2.files.read 0) = some none := by decide
  have walked : (closedOnly.map fun final => findFileStruct "a" final.2) =
      some (.error .badPointer) := by decide
  cases replayed : closedOnly with
  | none => simp [replayed] at listed
  | some final =>
      simp only [replayed, Option.map_some, Option.some.injEq] at listed freed walked
      exact ⟨final.1, final.2, run_of_replay .start replayed, .head listed, freed, walked⟩

end Sysprog.Userfs.FileList
