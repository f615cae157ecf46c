import Sysprog.Userfs.ClosedDescriptors
import Sysprog.Userfs.PairedCalls
import Sysprog.Userfs.RecordedFiles

/-!
# Fields that are set before they are read

`alloc_file_struct` does not set the chain of a new file, and `ufs_open`
without a mode bit does not set the mode of its descriptor. While no call
reads such a field, what `malloc` leaves in the structs decides nothing.
-/

namespace Sysprog.Userfs.SetFields

open CheckedRuns PairedRuns Memory Blocks Calls CallEffects ClientLedger DescriptorNumbers
open ClosedDescriptors
open FileList RecordedDescriptors RecordedFiles PairedStates PairedCalls

set_option autoImplicit false

/-! ## What a client passes -/

/-- The flags of the last `ufs_open` that returned a descriptor. -/
def recordFlags (flagsOf : Int → BitVec 32) (event : Event Call Reply) : Int → BitVec 32 :=
  match event.call with
  | .open _ flags =>
      if event.result.value = -1 then flagsOf else Function.update flagsOf event.result.value flags
  | _ => flagsOf

def openFlags (history : History) : Int → BitVec 32 := history.foldl recordFlags fun _ => 0

def HasMode (flags : BitVec 32) : Prop :=
  flags &&& ufsReadWrite ≠ 0 ∨ flags &&& ufsReadOnly ≠ 0 ∨ flags &&& ufsWriteOnly ≠ 0

def ForReading (flags : BitVec 32) : Prop :=
  flags &&& ufsReadWrite ≠ 0 ∨ flags &&& ufsReadOnly ≠ 0

instance (flags : BitVec 32) : Decidable (HasMode flags) := inferInstanceAs (Decidable (_ ∨ _))

instance (flags : BitVec 32) : Decidable (ForReading flags) := inferInstanceAs (Decidable (_ ∨ _))

def Written (history : History) (fdno : Int) : Prop :=
  (ledgerOf history).content ((ledgerOf history).target fdno) ≠ none

instance (history : History) (fdno : Int) : Decidable (Written history fdno) :=
  inferInstanceAs (Decidable (_ ≠ _))

/-- The mode is read by `ufs_write` and `ufs_read`, the chain by an `ufs_read`
that may read, by `file_size` and by the `ufs_close` of a last reference. -/
def ReadsSetFields (history : History) (fs : FsState) : Call → Prop
  | .open _ _ => True
  | .write fd _ _ => HasMode (openFlags history fd)
  | .read fd _ _ => HasMode (openFlags history fd) ∧
      (ForReading (openFlags history fd) → Written history fd)
  | .close fd => refsOf fs fd = .ok 1 → Written history fd
  | .delete _ => True
  | .size fd => Written history fd

instance (history : History) (fs : FsState) : (call : Call) → Decidable (ReadsSetFields history fs call)
  | .open _ _ => .isTrue trivial
  | .write fd _ _ => inferInstanceAs (Decidable (HasMode (openFlags history fd)))
  | .read _ _ _ => inferInstanceAs (Decidable (_ ∧ (_ → _)))
  | .close _ => inferInstanceAs (Decidable (_ → _))
  | .delete _ => .isTrue trivial
  | .size fd => inferInstanceAs (Decidable (Written history fd))

def SetFieldCalls (history : History) (fs : FsState) (call : Call) : Prop :=
  PassesOpen history call ∧ ReadsSetFields history fs call

instance (history : History) (fs : FsState) (call : Call) :
    Decidable (SetFieldCalls history fs call) :=
  inferInstanceAs (Decidable (_ ∧ _))

theorem open_flags_snoc (history : History) (event : Event Call Reply) :
    openFlags (history ++ [event]) = recordFlags (openFlags history) event := by
  simp [openFlags]

theorem open_mode_of_has_mode {flags first second : BitVec 32} (given : HasMode flags) :
    openMode flags first = openMode flags second := by
  unfold openMode
  split_ifs with both reading writing
  · rfl
  · rfl
  · rfl
  · rcases given with given | given | given
    · exact absurd given both
    · exact absurd given reading
    · exact absurd given writing

theorem for_reading_of_mode {flags unassigned : BitVec 32} (given : HasMode flags)
    (allowed : openMode flags unassigned &&& ufsReadOnly ≠ 0 ∨
      openMode flags unassigned &&& ufsReadWrite ≠ 0) : ForReading flags := by
  unfold openMode at allowed
  split_ifs at allowed with both reading writing
  · exact .inl both
  · exact .inr reading
  · rcases allowed with allowed | allowed <;> exact absurd (by decide) allowed
  · rcases given with given | given | given
    · exact .inl given
    · exact .inr given
    · exact absurd given writing

theorem open_mode_without_create (flags unassigned : BitVec 32) :
    openMode (flags &&& ~~~ufsCreate) unassigned = openMode flags unassigned := by
  have both : ~~~ufsCreate &&& ufsReadWrite = ufsReadWrite := by decide
  have reading : ~~~ufsCreate &&& ufsReadOnly = ufsReadOnly := by decide
  have writing : ~~~ufsCreate &&& ufsWriteOnly = ufsWriteOnly := by decide
  simp only [openMode, BitVec.and_assoc, both, reading, writing]

/-! ## What is known of one memory -/

section OneMemory

variable {garbage : Garbage} {history recorded : History} {fs after : FsState}

/-- The mode of an open descriptor is what its flags make of some value. -/
def ModesRecorded (history : History) (fs : FsState) : Prop :=
  ∀ fdno ∈ openDescriptors history, ∀ fd desc, fileDescriptorAt fs fdno = .ok (some fd) →
    fs.filedescs.read fd = some desc →
    ∃ unassigned, desc.mode = openMode (openFlags history fdno) unassigned

structure Known (history : History) (fs : FsState) : Prop where
  recorded : Recorded (ledgerOf history) fs
  modes : ModesRecorded history fs
  below : TableBelow fs.fileDescriptors fs.filedescs.next
  created : ∀ file, (ledgerOf history).content file ≠ none → file < (ledgerOf history).created

theorem known_initial : Known [] initial := by
  refine ⟨recorded_initial, ?_, compact_initial.below, ?_⟩
  · intro fdno member
    exact absurd member (Finset.notMem_empty fdno)
  · intro file written
    exact absurd rfl written

theorem modes_same (held : ModesRecorded history fs)
    (descriptors : openDescriptors recorded ⊆ openDescriptors history)
    (flags : openFlags recorded = openFlags history)
    (table : after.fileDescriptors = fs.fileDescriptors)
    (descs : ∀ fd changed, after.filedescs.read fd = some changed →
      ∃ desc, fs.filedescs.read fd = some desc ∧ changed.mode = desc.mode) :
    ModesRecorded recorded after := by
  intro fdno member fd changed entry present
  obtain ⟨desc, before, mode⟩ := descs fd changed present
  rw [pointer_of_same_table table] at entry
  rw [flags, mode]
  exact held fdno (descriptors member) fd desc entry before

theorem modes_of_moved {filedescs : Heap Filedesc} {fd address : Nat} {desc changed : Filedesc}
    {offset : Int} (descriptor : filedescs.read fd = some desc)
    (present : (filedescs.write fd { desc with offset := offset }).read address = some changed) :
    ∃ before, filedescs.read address = some before ∧ changed.mode = before.mode := by
  rcases Heap.read_write_cases descriptor present with own | old
  · rw [own.1, own.2]
    exact ⟨desc, descriptor, rfl⟩
  · exact ⟨changed, old.2, rfl⟩

theorem modes_of_failed_open {code : UfsErrorCode} {address : Nat} {changed : Filedesc}
    (present : (openFailure garbage code fs).filedescs.read address = some changed) :
    ∃ before, fs.filedescs.read address = some before ∧ changed.mode = before.mode := by
  obtain ⟨old, read⟩ := Heap.read_of_read_release present
  rw [Heap.read_alloc_of_ne _ old] at read
  exact ⟨changed, read, rfl⟩

theorem modes_opened {filename : String} {flags passed : BitVec 32} {offset value : Int}
    {files : Heap File} {file : Nat} (known : DescriptorsRecorded (ledgerOf history) fs)
    (held : ModesRecorded history fs)
    (opened : Opened garbage fs after files file offset passed value)
    (mode : ∀ unassigned, openMode passed unassigned = openMode flags unassigned) :
    ModesRecorded (history ++ [⟨.open filename flags, ⟨value, []⟩⟩]) after := by
  have successful := opened_not_failed opened
  have flagsAfter : openFlags (history ++ [⟨.open filename flags, ⟨value, []⟩⟩]) =
      Function.update (openFlags history) value flags := by
    rw [open_flags_snoc]
    simp only [recordFlags, if_neg successful]
  intro fdno member fd desc entry present
  rw [descriptors_after_open successful] at member
  rw [flagsAfter]
  by_cases own : fdno = value
  · subst own
    obtain ⟨leads, _⟩ := opened_leads opened
    rw [entry] at leads
    cases leads
    rw [opened.filedescs, Heap.read_write_self _ (by simp)] at present
    cases present
    rw [Function.update_self]
    exact ⟨_, mode _⟩
  · have before := Finset.mem_of_mem_insert_of_ne member own
    obtain ⟨address, leads, found, read, _⟩ := known.leads fdno before
    have nonneg := (fileDescriptorAt_eq_some.mp leads).1
    rw [pointer_of_opened opened nonneg own, leads] at entry
    cases entry
    rw [filedesc_of_opened opened (Heap.lt_next_of_read read)] at present
    rw [Function.update_of_ne own]
    exact held fdno before fd desc leads present

theorem descriptors_after_close {fd : Int} {reply : Reply} :
    openDescriptors (history ++ [⟨.close fd, reply⟩]) ⊆ openDescriptors history := by
  simp only [openDescriptors, ledger_of_snoc, record, recordClose]
  split_ifs
  · exact Finset.erase_subset fd _
  · exact Finset.Subset.refl _

theorem modes_of_release {filedescs : Heap Filedesc} {fd address : Nat} {changed : Filedesc}
    (present : (filedescs.release fd).read address = some changed) :
    ∃ before, filedescs.read address = some before ∧ changed.mode = before.mode :=
  ⟨changed, (Heap.read_of_read_release present).2, rfl⟩

theorem modes_step {call : Call} {reply : Reply} (known : DescriptorsRecorded (ledgerOf history) fs)
    (held : ModesRecorded history fs) (effect : CallEffect garbage fs call reply after) :
    ModesRecorded (history ++ [⟨call, reply⟩]) after := by
  cases effect with
  | @ofOpen filename flags value after effect =>
      cases effect with
      | failed code =>
          apply modes_same held
          · rw [descriptors_after_failed_open]
          · rw [open_flags_snoc]
            rfl
          · rfl
          · intro address changed present
            exact modes_of_failed_open present
      | created creating absent linked opened listed =>
          exact modes_opened known held opened (open_mode_without_create flags)
      | existing opening found opened listed =>
          exact modes_opened known held opened fun _ => rfl
  | ofWrite effect =>
      cases effect with
      | failed code =>
          exact modes_same held descriptors_after_write.subset (open_flags_snoc _ _) rfl
            fun _ changed present => ⟨changed, present, rfl⟩
      | written capped nonempty entry descriptor target present rounds =>
          exact modes_same held descriptors_after_write.subset (open_flags_snoc _ _) rfl
            fun _ _ => modes_of_moved descriptor
  | ofRead effect =>
      cases effect with
      | failed code =>
          exact modes_same held descriptors_after_read.subset (open_flags_snoc _ _) rfl
            fun _ changed present => ⟨changed, present, rfl⟩
      | moved offset descriptor =>
          exact modes_same held descriptors_after_read.subset (open_flags_snoc _ _) rfl
            fun _ _ => modes_of_moved descriptor
  | ofClose effect =>
      cases effect with
      | failed entry =>
          exact modes_same held descriptors_after_close (open_flags_snoc _ _) rfl
            fun _ changed present => ⟨changed, present, rfl⟩
      | kept entry descriptor target present remaining =>
          exact modes_same held descriptors_after_close (open_flags_snoc _ _) rfl
            fun _ _ => modes_of_release
      | @released fd file desc struct freed entry descriptor target present last deallocated =>
          obtain ⟨table, _, filedescs, _, _⟩ := deallocateFile_frame deallocated
          apply modes_same held descriptors_after_close (open_flags_snoc _ _)
          · exact table
          · intro address changed found
            simp only [filedescs] at found
            exact modes_of_release found
  | ofDelete effect =>
      cases effect <;>
        exact modes_same held descriptors_after_delete.subset (open_flags_snoc _ _) rfl
          fun _ changed present => ⟨changed, present, rfl⟩
  | ofSize effect =>
      rcases effect with same | same <;> rw [same] <;>
        exact modes_same held descriptors_after_size.subset (open_flags_snoc _ _) rfl
          fun _ changed present => ⟨changed, present, rfl⟩

theorem table_below_step {call : Call} {reply : Reply}
    (below : TableBelow fs.fileDescriptors fs.filedescs.next)
    (effect : CallEffect garbage fs call reply after) :
    TableBelow after.fileDescriptors after.filedescs.next := by
  cases effect with
  | ofOpen effect =>
      cases effect with
      | failed code => exact tableBelow_mono below (by simp [openFailure, fail])
      | created creating absent linked opened listed =>
          rw [opened.table, opened.filedescs, Heap.next_write, Heap.next_alloc]
          exact tableBelow_set below
      | existing opening found opened listed =>
          rw [opened.table, opened.filedescs, Heap.next_write, Heap.next_alloc]
          exact tableBelow_set below
  | ofWrite effect => cases effect <;> exact tableBelow_mono below (by simp [fail])
  | ofRead effect => cases effect <;> exact tableBelow_mono below (by simp [fail])
  | ofClose effect =>
      cases effect with
      | failed entry => exact below
      | kept entry descriptor target present remaining => exact tableBelow_mono below (by simp)
      | released entry descriptor target present last deallocated =>
          obtain ⟨table, _, filedescs, _, _⟩ := deallocateFile_frame deallocated
          simp only [table, filedescs]
          exact tableBelow_mono below (by simp)
  | ofDelete effect => cases effect <;> exact below
  | ofSize effect => rcases effect with same | same <;> rw [same] <;> exact below

theorem created_step {ledger : Ledger} (known : Recorded ledger fs)
    (created : ∀ file, ledger.content file ≠ none → file < ledger.created)
    (event : Event Call Reply)
    (passes : ∀ fdno buf size, event.call = .write fdno buf size → fdno ∈ ledger.descriptors)
    (file : Nat) (written : (record ledger event).content file ≠ none) :
    file < (record ledger event).created := by
  obtain ⟨call, reply⟩ := event
  cases call with
  | «open» filename flags =>
      simp only [record, recordOpen] at written ⊢
      split_ifs at written ⊢
      · exact created file written
      · exact Nat.lt_succ_of_lt (created file written)
      · exact created file written
  | write fdno buf size =>
      simp only [record, recordWrite] at written ⊢
      split_ifs at written ⊢
      · exact created file written
      · by_cases own : file = ledger.target fdno
        · obtain ⟨struct, present⟩ := known.descriptors.allocated fdno (passes fdno buf size rfl)
          rw [own, known.created]
          exact Heap.lt_next_of_read present
        · dsimp only at written
          rw [Function.update_of_ne own] at written
          exact created file written
  | read fdno buf size => exact created file written
  | close fdno =>
      simp only [record, recordClose] at written ⊢
      split_ifs at written ⊢ <;> exact created file written
  | delete filename =>
      simp only [record, recordDelete] at written ⊢
      split_ifs at written ⊢ <;> exact created file written
  | size fdno => exact created file written

theorem known_step {call : Call} {reply : Reply} (known : Known history fs)
    (passes : PassesOpen history call)
    (performed : perform garbage fs call = .ok (reply, after)) :
    Known (history ++ [⟨call, reply⟩]) after := by
  have effect := perform_effect performed
  refine ⟨recorded_step known.recorded passes effect,
    modes_step known.recorded.descriptors known.modes effect,
    table_below_step known.below effect, ?_⟩
  rw [ledger_of_snoc]
  apply created_step known.recorded known.created
  intro fdno buf size isWrite
  dsimp only at isWrite
  rw [isWrite] at passes
  exact passes

end OneMemory

/-! ## Two memories -/

section TwoMemories

variable {garbage other : Garbage} {history : History} {fs twin : FsState}

structure Paired (history : History) (fs twin : FsState) : Prop where
  agree : Agree (ledgerOf history) none fs twin
  known : Known history fs
  twinKnown : Known history twin

theorem open_on_target {fdno : Int} (known : Known history fs)
    (member : fdno ∈ openDescriptors history) :
    OpenOn fs fdno ((ledgerOf history).target fdno) := by
  intro fd desc entry descriptor
  obtain ⟨address, leads, found, present, target⟩ :=
    known.recorded.descriptors.leads fdno member
  rw [entry] at leads
  cases leads
  rw [descriptor] at present
  cases present
  exact target

theorem same_mode_of_flags {fdno : Int} (paired : Paired history fs twin)
    (member : fdno ∈ openDescriptors history) (given : HasMode (openFlags history fdno)) :
    SameMode fs twin fdno := by
  intro fd desc twinDesc entry descriptor twinDescriptor
  have twinEntry := (file_descriptor_at_same paired.agree fdno).trans entry
  obtain ⟨first, mode⟩ := paired.known.modes fdno member fd desc entry descriptor
  obtain ⟨second, twinMode⟩ :=
    paired.twinKnown.modes fdno member fd twinDesc twinEntry twinDescriptor
  rw [mode, twinMode]
  exact open_mode_of_has_mode given

def SameReply (history : History) (call : Call) (first second : Reply × FsState) : Prop :=
  second.1 = first.1 ∧ Agree (record (ledgerOf history) ⟨call, first.1⟩) none first.2 second.2

theorem same_reply_of_value {call : Call} {first second : Int × FsState}
    (same : second.1 = first.1)
    (agree : Agree (record (ledgerOf history) ⟨call, ⟨first.1, []⟩⟩) none first.2 second.2) :
    SameReply history call (valueOnly first) (valueOnly second) :=
  ⟨by rw [valueOnly, valueOnly, same], agree⟩

theorem next_unwritten (known : Known history fs) :
    (ledgerOf history).content fs.files.next = none := by
  by_contra written
  have bound := known.created fs.files.next written
  rw [known.recorded.created] at bound
  exact absurd bound (Nat.lt_irrefl _)

theorem entries_below (known : Known history fs) (address : Nat)
    (member : .filedesc address ∈ fs.fileDescriptors) : address < fs.filedescs.next := by
  obtain ⟨index, entry⟩ := List.mem_iff_getElem?.mp member
  exact known.below index address entry

theorem written_of_readable {fdno : Int} {fd : Nat} {desc : Filedesc} (known : Known history fs)
    (member : fdno ∈ openDescriptors history) (given : HasMode (openFlags history fdno))
    (written : ForReading (openFlags history fdno) → Written history fdno)
    (entry : fileDescriptorAt fs fdno = .ok (some fd))
    (descriptor : fs.filedescs.read fd = some desc)
    (allowed : desc.mode &&& ufsReadOnly ≠ 0 ∨ desc.mode &&& ufsReadWrite ≠ 0) :
    Written history fdno := by
  obtain ⟨unassigned, mode⟩ := known.modes fdno member fd desc entry descriptor
  rw [mode] at allowed
  exact written (for_reading_of_mode given allowed)

theorem refs_of_target {fdno : Int} {struct : File} (known : Known history fs)
    (member : fdno ∈ openDescriptors history)
    (present : fs.files.read ((ledgerOf history).target fdno) = some struct) :
    refsOf fs fdno = .ok struct.refs := by
  obtain ⟨address, entry, desc, descriptor, target⟩ :=
    known.recorded.descriptors.leads fdno member
  exact refs_of_entry entry descriptor target present

theorem perform_alike {call : Call} (paired : Paired history fs twin)
    (permitted : SetFieldCalls history fs call) :
    Alike (SameReply history call) (perform garbage fs call) (perform other twin call) := by
  obtain ⟨passes, reads⟩ := permitted
  have agree := paired.agree
  have known := paired.known
  cases call with
  | «open» filename flags =>
      apply alike_map
        (ufs_open_alike agree filename flags (next_unwritten known) (entries_below known))
      intro first second held
      apply same_reply_of_value held.1
      apply agree_mono held.2
      intro file
      simp only [record, recordOpen]
      split_ifs <;> exact id
  | write fd buf size =>
      apply alike_map (ufs_write_alike agree (open_on_target known passes)
        (same_mode_of_flags paired passes reads) buf size)
      intro first second held
      exact same_reply_of_value held.1 held.2
  | read fd buf size =>
      have readable := fun address desc =>
        @written_of_readable _ _ fd address desc known passes reads.1 reads.2
      apply alike_map (ufs_read_alike agree (open_on_target known passes)
        (same_mode_of_flags paired passes reads.1) readable buf size)
      intro first second held
      exact ⟨by rw [held.1, held.2.1], held.2.2⟩
  | close fd =>
      have last : ∀ struct, fs.files.read ((ledgerOf history).target fd) = some struct →
          struct.refs = 1 → Written history fd := by
        intro struct present single
        have refs := refs_of_target known passes present
        rw [single] at refs
        exact reads refs
      apply alike_map (ufs_close_alike agree (open_on_target known passes) last)
      intro first second held
      apply same_reply_of_value held.1
      apply agree_mono held.2
      intro file
      simp only [record, recordClose]
      split_ifs <;> exact id
  | delete filename =>
      apply alike_map (ufs_delete_alike agree filename)
      intro first second held
      apply same_reply_of_value held.1
      apply agree_mono held.2
      intro file
      simp only [record, recordDelete]
      split_ifs <;> exact id
  | size fd =>
      apply alike_map (file_size_alike agree (open_on_target known passes) reads)
      intro first second held
      exact same_reply_of_value held.1 held.2

theorem refs_of_same {ledger : Ledger} (agree : Agree ledger none fs twin) (fdno : Int) :
    refsOf twin fdno = refsOf fs fdno := by
  apply eq_of_alike
  unfold refsOf entryOf
  rw [file_descriptor_at_same agree]
  cases fileDescriptorAt fs fdno with
  | error halt => exact .fault halt
  | ok pointer =>
      cases pointer with
      | none => exact .fault _
      | some fd =>
          apply alike_bind (deref_filedesc_alike agree fd)
          intro desc twinDesc both
          rw [(both.2.2 (Option.some_ne_none fd).symm).1]
          apply alike_bind (deref_file_alike agree desc.file)
          intro struct twinStruct held
          obtain ⟨file, _, _, structs⟩ := held
          exact .value structs.refs

theorem permitted_in_twin {call : Call} (paired : Paired history fs twin)
    (permitted : SetFieldCalls history fs call) : SetFieldCalls history twin call := by
  refine ⟨permitted.1, ?_⟩
  cases call with
  | close fd =>
      have same := refs_of_same paired.agree fd
      change refsOf twin fd = .ok 1 → Written history fd
      rw [same]
      exact permitted.2
  | «open» filename flags => exact trivial
  | write fd buf size => exact permitted.2
  | read fd buf size => exact permitted.2
  | delete filename => exact trivial
  | size fd => exact permitted.2

theorem paired_step {next : FsState} {call : Call} {reply : Reply} (paired : Paired history fs twin)
    (permitted : SetFieldCalls history fs call)
    (performed : perform garbage fs call = .ok (reply, next)) :
    ∃ twinNext, perform other twin call = .ok (reply, twinNext) ∧
      Paired (history ++ [⟨call, reply⟩]) next twinNext := by
  obtain ⟨⟨twinReply, twinNext⟩, twinPerformed, same, agree⟩ :=
    alike_ok (perform_alike paired permitted) performed
  cases same
  refine ⟨twinNext, twinPerformed, ?_, known_step paired.known permitted.1 performed,
    known_step paired.twinKnown permitted.1 twinPerformed⟩
  rw [ledger_of_snoc]
  exact agree

theorem run_paired (other : Garbage)
    (run : Run (perform garbage) SetFieldCalls initial history fs) :
    ∃ twin, Run (perform other) SetFieldCalls initial history twin ∧ Paired history fs twin := by
  apply paired_run Paired ⟨agree_initial, known_initial, known_initial⟩ _ run
  intro history state twin call reply next paired permitted performed
  exact ⟨permitted_in_twin paired permitted, paired_step paired permitted performed⟩

end TwoMemories

/-- A run whose calls read no unset field is one with the same values, bytes
and error codes whatever `malloc` leaves in the structs, and its next such call
ends alike too. -/
theorem results_independent_of_malloc (garbage other : Garbage) {history : History} {fs : FsState}
    (run : Run (perform garbage) SetFieldCalls initial history fs) :
    ∃ twin, Run (perform other) SetFieldCalls initial history twin ∧
      ufsErrno twin = ufsErrno fs ∧ twin.stderr = fs.stderr ∧
      ∀ call, SetFieldCalls history fs call →
        Alike (fun first second => second.1 = first.1 ∧ ufsErrno second.2 = ufsErrno first.2)
          (perform garbage fs call) (perform other twin call) := by
  obtain ⟨twin, twinRun, paired⟩ := run_paired other run
  have reports {ledger : Ledger} {state twinState : FsState}
      (agree : Agree ledger none state twinState) :
      ufsErrno twinState = ufsErrno state ∧ twinState.stderr = state.stderr := by
    cases agree
    exact ⟨rfl, rfl⟩
  obtain ⟨errno, stderr⟩ := reports paired.agree
  refine ⟨twin, twinRun, errno, stderr, ?_⟩
  intro call permitted
  apply alike_mono (perform_alike paired permitted)
  intro first second same
  exact ⟨same.1, (reports same.2).1⟩

def leftMode (mode : BitVec 32) : Garbage where
  file := fun _ => ⟨none, none, 0, none, none, none⟩
  filedesc := fun _ => ⟨none, 0, mode⟩

def setFieldCalls : List Call :=
  [.open "a" (ufsCreate ||| ufsReadWrite), .open "a" ufsReadOnly, .write 0 [97] 1, .read 1 [0] 1,
    .size 0, .close 1, .close 0]

def unsetModeCalls : List Call := [.open "a" ufsCreate, .write 0 [97] 1]

def repliesOf (garbage : Garbage) (calls : List Call) : Option (List Int) :=
  (replay (perform garbage) OpenCalls calls [] initial).map fun outcome =>
    outcome.1.map fun event => event.result.value

theorem results_independent_of_malloc_for_a :
    ∃ history fs twin, Run (perform (leftMode 0)) SetFieldCalls initial history fs ∧
      Run (perform (leftMode 8)) SetFieldCalls initial history twin ∧
      history.map Event.call = setFieldCalls ∧
      history.map Event.result =
        [⟨0, []⟩, ⟨1, []⟩, ⟨1, []⟩, ⟨1, [97]⟩, ⟨1, []⟩, ⟨0, []⟩, ⟨0, []⟩] ∧
      ufsErrno twin = ufsErrno fs := by
  have performed : ((replay (perform (leftMode 0)) SetFieldCalls setFieldCalls [] initial).map
      fun outcome => (outcome.1.map Event.call, outcome.1.map Event.result)) =
        some (setFieldCalls,
          [⟨0, []⟩, ⟨1, []⟩, ⟨1, []⟩, ⟨1, [97]⟩, ⟨1, []⟩, ⟨0, []⟩, ⟨0, []⟩]) := by decide
  obtain ⟨outcome, replayed, named⟩ := Option.map_eq_some_iff.mp performed
  obtain ⟨calls, results⟩ := Prod.mk.inj named
  have run := run_of_replay .start replayed
  obtain ⟨twin, twinRun, errno, _⟩ := results_independent_of_malloc (leftMode 0) (leftMode 8) run
  exact ⟨outcome.1, outcome.2, twin, run, twinRun, calls, results, errno⟩

/-- Without a mode bit the mode `malloc` left decides whether the write is
permitted. -/
theorem unset_mode_decides :
    repliesOf (leftMode ufsReadWrite) unsetModeCalls = some [0, 1] ∧
      repliesOf (leftMode 0) unsetModeCalls = some [0, -1] := by
  constructor <;> decide

end Sysprog.Userfs.SetFields
