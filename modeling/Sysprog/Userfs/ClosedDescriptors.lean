import Sysprog.Userfs.DescriptorNumbers

/-!
# Closed descriptors

`ufs_close` sets its local pointer to NULL and leaves the entry of the table,
which leads to the freed `struct filedesc` until an `ufs_open` returns the
number again. Every call on the number follows it.
-/

namespace Sysprog.Userfs.ClosedDescriptors

open CheckedRuns Memory Blocks Calls CallEffects ClientLedger DescriptorNumbers

set_option autoImplicit false

variable {garbage : Garbage}

/-- Closed by the last call that closed or returned them. -/
def recordClosed (closed : Finset Int) (event : Event Call Reply) : Finset Int :=
  match event.call with
  | .open _ _ => closed.erase event.result.value
  | .close fd => if event.result.value = 0 then insert fd closed else closed
  | _ => closed

def closedDescriptors (history : History) : Finset Int := history.foldl recordClosed ∅

theorem closed_snoc (history : History) (event : Event Call Reply) :
    closedDescriptors (history ++ [event]) = recordClosed (closedDescriptors history) event := by
  simp [closedDescriptors]

def OpenCalls (history : History) (_ : FsState) (call : Call) : Prop := PassesOpen history call

instance (history : History) (fs : FsState) (call : Call) : Decidable (OpenCalls history fs call) :=
  inferInstanceAs (Decidable (PassesOpen history call))

def descriptorOf : Call → Option Int
  | .read fd _ _ => some fd
  | .write fd _ _ => some fd
  | .close fd => some fd
  | .size fd => some fd
  | _ => none

def failureValue : Call → Int
  | .size _ => 2 ^ 64 - 1
  | _ => -1

/-- What is asked of a call on a closed descriptor: it returns -1 for want of
a file and changes nothing but the error code. -/
structure FailsDead (fs : FsState) (call : Call) (reply : Reply) (after : FsState) : Prop where
  value : reply.value = failureValue call
  errno : ufsErrno after = .noFile
  files : after.files = fs.files ∧ after.fileList = fs.fileList
  blocks : after.blockArrays = fs.blockArrays ∧ after.buffers = fs.buffers
  filedescs : after.filedescs = fs.filedescs
  table : after.fileDescriptors = fs.fileDescriptors ∧
    after.fileDescriptorCount = fs.fileDescriptorCount

def Dangling (fs : FsState) (fdno : Int) : Prop :=
  ∃ address, fileDescriptorAt fs fdno = .ok (some address) ∧
    address < fs.filedescs.next ∧ fs.filedescs.read address = none

theorem dangling_same {fs after : FsState} {fdno : Int} (dangling : Dangling fs fdno)
    (table : after.fileDescriptors = fs.fileDescriptors)
    (grown : fs.filedescs.next ≤ after.filedescs.next)
    (freed : ∀ address, address < fs.filedescs.next → fs.filedescs.read address = none →
      after.filedescs.read address = none) : Dangling after fdno := by
  obtain ⟨address, looked, bound, absent⟩ := dangling
  refine ⟨address, ?_, Nat.lt_of_lt_of_le bound grown, freed address bound absent⟩
  simp only [fileDescriptorAt, table]
  exact looked

theorem dangling_opened {fs after : FsState} {files : Heap File} {file : Nat}
    {offset value other : Int} {flags : BitVec 32}
    (opened : Opened garbage fs after files file offset flags value)
    (dangling : Dangling fs other) (different : other ≠ value) : Dangling after other := by
  obtain ⟨address, looked, bound, absent⟩ := dangling
  have nonneg := (fileDescriptorAt_eq_some.mp looked).1
  refine ⟨address, ?_, ?_, ?_⟩
  · rw [pointer_of_opened opened nonneg different]
    exact looked
  · rw [opened.filedescs, Heap.next_write, Heap.next_alloc]
    exact Nat.lt_succ_of_lt bound
  · rw [filedesc_of_opened opened bound]
    exact absent

theorem dangling_moved {fs after : FsState} {fdno : Int} {fd : Nat} {desc changed : Filedesc}
    (dangling : Dangling fs fdno) (present : fs.filedescs.read fd = some desc)
    (table : after.fileDescriptors = fs.fileDescriptors)
    (filedescs : after.filedescs = fs.filedescs.write fd changed) : Dangling after fdno := by
  apply dangling_same dangling table
  · rw [filedescs, Heap.next_write]
  · intro address _ absent
    have different : address ≠ fd := by
      intro same
      rw [same, present] at absent
      cases absent
    rw [filedescs, Heap.read_write_of_ne _ different]
    exact absent

theorem freed_of_release {filedescs : Heap Filedesc} {fd : Nat} (address : Nat)
    (absent : filedescs.read address = none) : (filedescs.release fd).read address = none := by
  by_cases same : address = fd
  · rw [same]
    exact Heap.read_release_self _ _
  · rw [Heap.read_release_of_ne same]
    exact absent

theorem dangling_closed {fs after : FsState} {fdno : Int} {fd : Nat} {desc : Filedesc}
    (entry : fileDescriptorAt fs fdno = .ok (some fd)) (present : fs.filedescs.read fd = some desc)
    (table : after.fileDescriptors = fs.fileDescriptors)
    (filedescs : after.filedescs = fs.filedescs.release fd) :
    Dangling after fdno ∧ ∀ other, Dangling fs other → Dangling after other := by
  have next : after.filedescs.next = fs.filedescs.next := by rw [filedescs, Heap.next_release]
  constructor
  · refine ⟨fd, ?_, ?_, ?_⟩
    · simp only [fileDescriptorAt, table]
      exact entry
    · rw [next]
      exact Heap.lt_next_of_read present
    · rw [filedescs]
      exact Heap.read_release_self _ _
  · intro other dangling
    apply dangling_same dangling table (Nat.le_of_eq next.symm)
    intro address _ absent
    rw [filedescs]
    exact freed_of_release address absent

/-- Whatever call returns, the closed numbers lead to freed structs. -/
theorem dangling_step {history : History} {fs after : FsState} {call : Call} {reply : Reply}
    (held : ∀ fdno ∈ closedDescriptors history, Dangling fs fdno)
    (effect : CallEffect garbage fs call reply after) :
    ∀ fdno ∈ closedDescriptors (history ++ [⟨call, reply⟩]), Dangling after fdno := by
  intro fdno closed
  rw [closed_snoc] at closed
  cases effect with
  | ofOpen effect =>
      obtain ⟨different, before⟩ := Finset.mem_erase.mp closed
      cases effect with
      | failed code =>
          refine dangling_same (held fdno before) rfl ?_ ?_
          · simp [openFailure, fail]
          · intro address bound absent
            have old := Nat.ne_of_lt bound
            exact (Heap.read_release_of_ne old).trans ((Heap.read_alloc_of_ne _ old).trans absent)
      | created creating missing created opened listed =>
          exact dangling_opened opened (held fdno before) different
      | existing opening found opened listed =>
          exact dangling_opened opened (held fdno before) different
  | ofWrite effect =>
      cases effect with
      | failed code => exact held fdno closed
      | written capped nonempty entry descriptor target present rounds =>
          exact dangling_moved (held fdno closed) descriptor rfl rfl
  | ofRead effect =>
      cases effect with
      | failed code => exact held fdno closed
      | moved offset descriptor =>
          exact dangling_moved (held fdno closed) descriptor rfl rfl
  | ofClose effect =>
      cases effect with
      | failed entry => exact held fdno closed
      | kept entry descriptor target present remaining =>
          rcases Finset.mem_insert.mp closed with same | before
          · rw [same]
            apply (dangling_closed entry descriptor _ _).1
            · rfl
            · rfl
          · apply (dangling_closed entry descriptor _ _).2 fdno (held fdno before)
            · rfl
            · rfl
      | released entry descriptor target present last deallocated =>
          obtain ⟨table, _, filedescs, _, _⟩ := deallocateFile_frame deallocated
          rcases Finset.mem_insert.mp closed with same | before
          · rw [same]
            apply (dangling_closed entry descriptor _ _).1
            · exact table
            · exact congrArg (Heap.release · _) filedescs
          · apply (dangling_closed entry descriptor _ _).2 fdno (held fdno before)
            · exact table
            · exact congrArg (Heap.release · _) filedescs
  | ofDelete effect =>
      cases effect with
      | absent missing => exact held fdno closed
      | deleted found present => exact held fdno closed
  | ofSize effect =>
      rcases effect with same | failed
      · rw [same]
        exact held fdno closed
      · rw [failed]
        exact held fdno closed

theorem run_dangling {history : History} {fs : FsState}
    (run : Run (perform garbage) OpenCalls initial history fs) :
    ∀ fdno ∈ closedDescriptors history, Dangling fs fdno := by
  apply run_invariant (fun history fs => ∀ fdno ∈ closedDescriptors history, Dangling fs fdno) _ _ run
  · intro fdno closed
    exact absurd closed (Finset.notMem_empty fdno)
  · intro history before call reply after held _ performed
    exact dangling_step held (perform_effect performed)

theorem follows_freed {fs : FsState} {fdno : Int} {call : Call} (dangling : Dangling fs fdno)
    (isCall : descriptorOf call = some fdno) : perform garbage fs call = .error .badPointer := by
  obtain ⟨address, looked, _, absent⟩ := dangling
  have freed : deref fs.filedescs (some address) = .error .badPointer := by
    simp only [deref, absent]
  cases call with
  | «open» filename flags => cases isCall
  | delete filename => cases isCall
  | read fd buf size =>
      cases isCall
      simp only [perform, ufsRead, looked, ok_bind, freed, error_bind]
      rfl
  | write fd buf size =>
      cases isCall
      simp only [perform, ufsWrite, looked, ok_bind, freed, error_bind]
      rfl
  | close fd =>
      cases isCall
      simp only [perform, ufsClose, looked, ok_bind, freed, error_bind]
      rfl
  | size fd =>
      cases isCall
      simp only [perform, fileSize, looked, ok_bind, freed, error_bind]
      rfl

/-- No call on a closed descriptor fails as it should, in any run: each
follows the pointer to the freed struct. -/
theorem closed_never_dead {history : History} {fs : FsState} {fdno : Int} {call : Call}
    (run : Run (perform garbage) OpenCalls initial history fs)
    (closed : fdno ∈ closedDescriptors history) (isCall : descriptorOf call = some fdno) :
    perform garbage fs call = .error .badPointer ∧
      ¬ ∃ reply after, perform garbage fs call = .ok (reply, after) ∧
        FailsDead fs call reply after := by
  have follows := @follows_freed garbage fs fdno call (run_dangling run fdno closed) isCall
  refine ⟨follows, ?_⟩
  intro fails
  obtain ⟨reply, after, performed, _⟩ := fails
  rw [follows] at performed
  cases performed

def createdClosed : Option (History × FsState) :=
  replay (perform zeroGarbage) OpenCalls [.open "a" (ufsCreate ||| ufsReadWrite), .close 0] [] initial

/-- The descriptor of `a` is closed, and a second close follows it. -/
theorem second_close_follows_freed :
    ∃ history fs, Run (perform zeroGarbage) OpenCalls initial history fs ∧
      0 ∈ closedDescriptors history ∧ perform zeroGarbage fs (.close 0) = .error .badPointer := by
  have closed : (createdClosed.map fun final => decide (0 ∈ closedDescriptors final.1)) =
      some true := by decide
  cases replayed : createdClosed with
  | none => simp [replayed] at closed
  | some final =>
      simp only [replayed, Option.map_some, Option.some.injEq, decide_eq_true_eq] at closed
      have run := run_of_replay .start replayed
      exact ⟨_, _, run, closed, (closed_never_dead run closed rfl).1⟩

/-- A read of the closed descriptor of `a` does not return -1. -/
theorem closed_read_not_dead :
    ∃ history fs, Run (perform zeroGarbage) OpenCalls initial history fs ∧
      0 ∈ closedDescriptors history ∧
      ¬ ∃ reply after, perform zeroGarbage fs (.read 0 [0] 1) = .ok (reply, after) ∧
        FailsDead fs (.read 0 [0] 1) reply after := by
  have closed : (createdClosed.map fun final => decide (0 ∈ closedDescriptors final.1)) =
      some true := by decide
  cases replayed : createdClosed with
  | none => simp [replayed] at closed
  | some final =>
      simp only [replayed, Option.map_some, Option.some.injEq, decide_eq_true_eq] at closed
      have run := run_of_replay .start replayed
      have follows : perform zeroGarbage final.2 (.read 0 [0] 1) = .error .badPointer :=
        follows_freed (run_dangling run 0 closed) rfl
      refine ⟨_, _, run, closed, ?_⟩
      intro fails
      obtain ⟨reply, after, performed, _⟩ := fails
      rw [follows] at performed
      cases performed

end Sysprog.Userfs.ClosedDescriptors
