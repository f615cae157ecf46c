import Sysprog.Userfs.FileLifetime

/-!
# Runs that close nothing

Without `ufs_close` the table of descriptors fills from its start, its
entries below `file_descriptor_count` stay and so does every struct. A call
on a number that was never opened does not return, so every call that does is
one on an open descriptor.
-/

namespace Sysprog.Userfs.UnclosedRuns

open CheckedRuns Memory Blocks Calls CallEffects ClientLedger DescriptorNumbers FileList
open RecordedDescriptors RecordedFiles FileLifetime

set_option autoImplicit false

variable {garbage : Garbage}

def Unclosed : Call → Prop
  | .open _ _ => True
  | .write _ _ size => 1 ≤ size
  | .delete _ => True
  | _ => False

instance : (call : Call) → Decidable (Unclosed call)
  | .open _ _ => .isTrue trivial
  | .write _ _ size => inferInstanceAs (Decidable (1 ≤ size))
  | .read _ _ _ => .isFalse id
  | .close _ => .isFalse id
  | .delete _ => .isTrue trivial
  | .size _ => .isFalse id

/-- The entries below the count lead to structs, the others are unset, and
the open descriptors are those below the count. -/
structure TableFilled (descriptors : Finset Int) (fs : FsState) : Prop where
  length : fs.fileDescriptors.length = fileDescriptorCapacity
  nonneg : 0 ≤ fs.fileDescriptorCount
  room : fs.fileDescriptorCount ≤ fileDescriptorCapacity
  filled : ∀ index, index < fs.fileDescriptorCount.toNat → ∃ address desc,
    fs.fileDescriptors[index]? = some (.filedesc address) ∧
      fs.filedescs.read address = some desc
  unset : ∀ index slot, fs.fileDescriptorCount.toNat ≤ index →
    fs.fileDescriptors[index]? = some slot → slot = .unset
  members : ∀ fdno, fdno ∈ descriptors ↔ 0 ≤ fdno ∧ fdno < fs.fileDescriptorCount

theorem table_filled_initial : TableFilled ∅ initial := by
  constructor
  · exact List.length_replicate
  · exact Int.le_refl 0
  · exact Int.natCast_nonneg _
  · intro index below
    exact absurd below (Nat.not_lt_zero index)
  · intro index slot _ entry
    exact List.eq_of_mem_replicate (List.mem_of_getElem? entry)
  · intro fdno
    have empty : ¬ (0 ≤ fdno ∧ fdno < 0) := by omega
    exact iff_of_false (Finset.notMem_empty fdno) empty

/-- A descriptor whose entry is read at all is open. -/
theorem open_of_entry {descriptors : Finset Int} {fs : FsState} {fdno : Int} {entry : Option Nat}
    (table : TableFilled descriptors fs) (looked : fileDescriptorAt fs fdno = .ok entry) :
    fdno ∈ descriptors := by
  unfold fileDescriptorAt at looked
  split_ifs at looked with sign
  apply (table.members fdno).mpr
  refine ⟨sign, ?_⟩
  by_contra above
  have outside : fs.fileDescriptorCount.toNat ≤ fdno.toNat := by omega
  cases present : fs.fileDescriptors[fdno.toNat]? with
  | none => simp [present] at looked
  | some slot =>
      have isUnset := table.unset fdno.toNat slot outside present
      simp [present, isUnset] at looked

theorem table_filled_same {descriptors : Finset Int} {fs after : FsState}
    (table : TableFilled descriptors fs) (slots : after.fileDescriptors = fs.fileDescriptors)
    (count : after.fileDescriptorCount = fs.fileDescriptorCount)
    (filedescs : ∀ address desc, fs.filedescs.read address = some desc →
      ∃ desc', after.filedescs.read address = some desc') : TableFilled descriptors after := by
  constructor
  · rw [slots]
    exact table.length
  · rw [count]
    exact table.nonneg
  · rw [count]
    exact table.room
  · intro index below
    rw [count] at below
    obtain ⟨address, desc, entry, present⟩ := table.filled index below
    obtain ⟨desc', present'⟩ := filedescs address desc present
    rw [slots]
    exact ⟨address, desc', entry, present'⟩
  · intro index slot above entry
    rw [count] at above
    rw [slots] at entry
    exact table.unset index slot above entry
  · intro fdno
    rw [count]
    exact table.members fdno

theorem table_filled_opened {descriptors : Finset Int} {fs after : FsState} {files : Heap File}
    {file : Nat} {offset value : Int} {flags : BitVec 32} (table : TableFilled descriptors fs)
    (opened : Opened garbage fs after files file offset flags value) :
    TableFilled (insert value descriptors) after := by
  have nonneg := table.nonneg
  have inside := opened.inside
  have grown : after.fileDescriptorCount.toNat = fs.fileDescriptorCount.toNat + 1 := by
    rw [opened.count]
    omega
  constructor
  · rw [opened.table, List.length_set]
    exact table.length
  · rw [opened.count]
    omega
  · rw [table.length] at inside
    rw [opened.count]
    omega
  · intro index below
    rw [grown] at below
    by_cases isNew : index = fs.fileDescriptorCount.toNat
    · obtain ⟨_, desc, newest, _⟩ := opened_leads opened
      refine ⟨fs.filedescs.next, desc, ?_, newest⟩
      rw [opened.table, isNew, List.getElem?_set_self inside]
    · obtain ⟨address, desc, entry, present⟩ := table.filled index (by omega)
      refine ⟨address, desc, ?_, ?_⟩
      · rw [opened.table, List.getElem?_set_ne (Ne.symm isNew)]
        exact entry
      · rw [filedesc_of_opened opened (Heap.lt_next_of_read present)]
        exact present
  · intro index slot above entry
    rw [grown] at above
    have different : fs.fileDescriptorCount.toNat ≠ index := by omega
    rw [opened.table, List.getElem?_set_ne different] at entry
    exact table.unset index slot (by omega) entry
  · intro fdno
    rw [Finset.mem_insert, table.members fdno, opened.value_eq, opened.count]
    omega

theorem write_entry {fdno value : Int} {buf : List Byte} {size : Nat} {fs after : FsState}
    (done : ufsWrite fdno buf size fs = .ok (value, after)) :
    ∃ entry, fileDescriptorAt fs fdno = .ok entry := by
  obtain ⟨entry, looked, _⟩ := bind_eq_ok.mp done
  exact ⟨entry, looked⟩

/-- A call that closes nothing passes an open descriptor or does not return. -/
theorem safe_of_performed {history : History} {fs after : FsState} {call : Call} {reply : Reply}
    (table : TableFilled (openDescriptors history) fs) (unclosed : Unclosed call)
    (performed : perform garbage fs call = .ok (reply, after)) : SafeCloses history fs call := by
  cases call with
  | «open» filename flags => exact ⟨trivial, trivial⟩
  | write fd buf size =>
      obtain ⟨⟨value, state⟩, done, _⟩ := bind_eq_ok.mp performed
      obtain ⟨entry, looked⟩ := write_entry done
      exact ⟨open_of_entry table looked, trivial⟩
  | delete filename => exact ⟨trivial, trivial⟩
  | read fd buf size => exact absurd unclosed id
  | close fd => exact absurd unclosed id
  | size fd => exact absurd unclosed id

theorem keeps_reference {fs : FsState} {call : Call} (unclosed : Unclosed call) :
    KeepsReference fs call := by
  cases call with
  | close fd => exact absurd unclosed id
  | _ => trivial

theorem table_filled_step {history : History} {fs after : FsState} {call : Call} {reply : Reply}
    (table : TableFilled (openDescriptors history) fs) (unclosed : Unclosed call)
    (effect : CallEffect garbage fs call reply after) :
    TableFilled (openDescriptors (history ++ [⟨call, reply⟩])) after := by
  cases effect with
  | @ofOpen filename flags value after effect =>
      cases effect with
      | failed code =>
          rw [descriptors_after_failed_open]
          refine table_filled_same table rfl rfl ?_
          intro address desc present
          obtain ⟨desc', present', _⟩ :=
            (@same_descriptors_of_open_failure garbage code fs).filedescs address desc present
          exact ⟨desc', present'⟩
      | created creating absent created opened listed =>
          rw [descriptors_after_open (opened_not_failed opened)]
          exact table_filled_opened table opened
      | existing opening found opened listed =>
          rw [descriptors_after_open (opened_not_failed opened)]
          exact table_filled_opened table opened
  | ofWrite effect =>
      rw [descriptors_after_write]
      cases effect with
      | failed code => exact table_filled_same table rfl rfl fun _ desc present => ⟨desc, present⟩
      | written capped nonempty entry descriptor target present rounds =>
          refine table_filled_same table rfl rfl ?_
          intro address desc there
          exact Heap.exists_read_write _ there
  | ofDelete effect =>
      rw [descriptors_after_delete]
      cases effect with
      | absent missing => exact table
      | deleted found present =>
          exact table_filled_same table rfl rfl fun _ desc there => ⟨desc, there⟩
  | ofRead effect => exact absurd unclosed id
  | ofClose effect => exact absurd unclosed id
  | ofSize effect => exact absurd unclosed id

structure Kept (history : History) (fs : FsState) : Prop where
  recorded : Recorded (ledgerOf history) fs
  lifetimes : Lifetimes (ledgerOf history) fs
  contents : Contents (ledgerOf history) fs
  allocated : NoneFreed fs.files
  table : TableFilled (openDescriptors history) fs

theorem kept_initial : Kept [] initial := by
  refine ⟨recorded_initial, lifetimes_initial, contents_initial, ?_, table_filled_initial⟩
  intro file bound
  exact absurd bound (Nat.not_lt_zero file)

theorem kept_step {history : History} {fs after : FsState} {call : Call} {reply : Reply}
    (kept : Kept history fs) (unclosed : Unclosed call)
    (performed : perform garbage fs call = .ok (reply, after)) :
    Kept (history ++ [⟨call, reply⟩]) after := by
  have safe := safe_of_performed kept.table unclosed performed
  have effect := perform_effect performed
  constructor
  · exact recorded_step kept.recorded safe.1 effect
  · exact lifetimes_step kept.recorded kept.lifetimes safe effect
  · exact contents_step kept.recorded kept.contents safe effect
  · exact none_freed_step kept.allocated effect (keeps_reference unclosed)
  · exact table_filled_step kept.table unclosed effect

def UnclosedCalls (_ : History) (_ : FsState) (call : Call) : Prop := Unclosed call

instance (history : History) (fs : FsState) (call : Call) :
    Decidable (UnclosedCalls history fs call) :=
  inferInstanceAs (Decidable (Unclosed call))

theorem run_kept {history : History} {fs : FsState}
    (run : Run (perform garbage) UnclosedCalls initial history fs) : Kept history fs := by
  apply run_invariant Kept kept_initial _ run
  intro history before call reply after kept unclosed performed
  exact kept_step kept unclosed performed

end Sysprog.Userfs.UnclosedRuns
