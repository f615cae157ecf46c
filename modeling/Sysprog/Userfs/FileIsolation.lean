import Sysprog.Userfs.UnwrittenFiles

/-!
# Files apart

What is seen through a descriptor of a written file changes only by writes
through descriptors of its own `struct file`, whatever is created, deleted
and created again under the same name. A file that was not written yet shows
whatever its `block_list` leads to, and that can be the bytes of another file.
-/

namespace Sysprog.Userfs.FileIsolation

open CheckedRuns Memory Blocks Calls CallEffects ClientLedger DescriptorNumbers
open StoredContent RecordedDescriptors RecordedFiles FileLifetime UnclosedRuns UnwrittenFiles

set_option autoImplicit false

variable {garbage : Garbage}

/-- What a client can see through a descriptor. -/
structure View where
  content : List Byte
  mode : BitVec 32
  offset : Int
  deriving DecidableEq

def seenThrough (fs : FsState) (fdno : Int) : Except Halt View := do
  let desc ← entryOf fs fdno
  match desc.file with
  | none => .error .badPointer
  | some file => do
      let content ← contentOf fs file
      .ok ⟨content, desc.mode, desc.offset⟩

def fileBehind (fs : FsState) (fdno : Int) : Except Halt (Option Nat) := do
  let desc ← entryOf fs fdno
  .ok desc.file

/-- No write goes through a descriptor of the struct that `fdno` has in `fs`. -/
def Spares (fs : FsState) (fdno : Int) (state : FsState) : Call → Prop
  | .write other _ _ => fileBehind state other ≠ fileBehind fs fdno
  | _ => True

instance (fs : FsState) (fdno : Int) (state : FsState) : (call : Call) →
    Decidable (Spares fs fdno state call)
  | .write other _ _ => inferInstanceAs (Decidable (fileBehind state other ≠ fileBehind fs fdno))
  | .open _ _ => .isTrue trivial
  | .read _ _ _ => .isTrue trivial
  | .close _ => .isTrue trivial
  | .delete _ => .isTrue trivial
  | .size _ => .isTrue trivial

def SparingCalls (fs : FsState) (fdno : Int) (_ : History) (state : FsState) (call : Call) : Prop :=
  Unclosed call ∧ Spares fs fdno state call

instance (fs : FsState) (fdno : Int) (history : History) (state : FsState) (call : Call) :
    Decidable (SparingCalls fs fdno history state call) :=
  inferInstanceAs (Decidable (_ ∧ _))

/-- Through every descriptor of a written file one sees the bytes that the
last write on this file stored. -/
def ShowsOwnWrites (history : History) (fs : FsState) : Prop :=
  ∀ fdno ∈ openDescriptors history, ∀ bytes,
    (ledgerOf history).content ((ledgerOf history).target fdno) = some bytes →
      ∃ view, seenThrough fs fdno = .ok view ∧ view.content = bytes

/-- A descriptor shows what was last written on its file, and no bytes before
the first write. -/
def ShowsOnlyOwnBytes (history : History) (fs : FsState) (fdno : Int) : Prop :=
  ∃ view, seenThrough fs fdno = .ok view ∧
    view.content = ((ledgerOf history).content ((ledgerOf history).target fdno)).getD []

def WrittenOrEmpty (garbage : Garbage) (history : History) (fs : FsState) (fdno : Int) : Prop :=
  (ledgerOf history).content ((ledgerOf history).target fdno) ≠ none ∨
    LeadsToNoBytes fs (garbage.file ((ledgerOf history).target fdno)).blockList

theorem entry_eq_ok {fs : FsState} {fdno : Int} {desc : Filedesc} :
    entryOf fs fdno = .ok desc ↔ ∃ address, fileDescriptorAt fs fdno = .ok (some address) ∧
      fs.filedescs.read address = some desc := by
  constructor
  · intro entry
    obtain ⟨pointer, looked, dereferenced⟩ := bind_eq_ok.mp entry
    obtain ⟨address, same, present⟩ := deref_eq_ok.mp dereferenced
    rw [same] at looked
    exact ⟨address, looked, present⟩
  · intro found
    obtain ⟨address, looked, present⟩ := found
    exact bind_eq_ok.mpr ⟨some address, looked, deref_eq_ok.mpr ⟨address, rfl, present⟩⟩

theorem file_behind_of_entry {fs : FsState} {fdno : Int} {desc : Filedesc}
    (entry : entryOf fs fdno = .ok desc) : fileBehind fs fdno = .ok desc.file :=
  bind_eq_ok.mpr ⟨desc, entry, rfl⟩

theorem entry_of_open {history : History} {fs : FsState} {fdno : Int} (kept : Kept history fs)
    (isOpen : fdno ∈ openDescriptors history) :
    ∃ desc, entryOf fs fdno = .ok desc ∧ desc.file = some ((ledgerOf history).target fdno) := by
  obtain ⟨address, looked, desc, present, target⟩ :=
    kept.recorded.descriptors.leads fdno isOpen
  exact ⟨desc, entry_eq_ok.mpr ⟨address, looked, present⟩, target⟩

structure Shows (history : History) (fs : FsState) (fdno : Int) (file : Nat) (desc : Filedesc)
    (bytes : List Byte) : Prop where
  isOpen : fdno ∈ openDescriptors history
  target : (ledgerOf history).target fdno = file
  content : (ledgerOf history).content file = some bytes
  entry : entryOf fs fdno = .ok desc

theorem seen_of_shows {history : History} {fs : FsState} {fdno : Int} {file : Nat}
    {desc : Filedesc} {bytes : List Byte} (kept : Kept history fs)
    (shows : Shows history fs fdno file desc bytes) :
    seenThrough fs fdno = .ok ⟨bytes, desc.mode, desc.offset⟩ := by
  obtain ⟨found, entry, target⟩ := entry_of_open kept shows.isOpen
  rw [shows.entry] at entry
  cases entry
  rw [shows.target] at target
  obtain ⟨struct, present⟩ := kept.recorded.descriptors.allocated fdno shows.isOpen
  rw [shows.target] at present
  obtain ⟨array, size, data, chain, stores, bytesAre⟩ :=
    kept.contents.stored file bytes struct shows.content present
  have content : contentOf fs file = .ok bytes := by
    rw [bytesAre]
    exact content_of_stored present chain stores
  simp only [seenThrough, shows.entry, ok_bind, target, content]

theorem shows_of_open {history : History} {fs : FsState} {fdno : Int} {bytes : List Byte}
    (kept : Kept history fs) (isOpen : fdno ∈ openDescriptors history)
    (written : (ledgerOf history).content ((ledgerOf history).target fdno) = some bytes) :
    ∃ desc, desc.file = some ((ledgerOf history).target fdno) ∧
      Shows history fs fdno ((ledgerOf history).target fdno) desc bytes := by
  obtain ⟨desc, entry, target⟩ := entry_of_open kept isOpen
  exact ⟨desc, target, isOpen, rfl, written, entry⟩

theorem shows_own_writes {history : History} {fs : FsState} (kept : Kept history fs) :
    ShowsOwnWrites history fs := by
  intro fdno isOpen bytes written
  obtain ⟨desc, _, shows⟩ := shows_of_open kept isOpen written
  exact ⟨_, seen_of_shows kept shows, rfl⟩

/-- The content seen through a descriptor of an unwritten file is what the walk
from the pointer `malloc` left gives. -/
theorem seen_of_unwritten {history : History} {fs : FsState} {fdno : Int} (kept : Kept history fs)
    (left : Left garbage history fs) (isOpen : fdno ∈ openDescriptors history)
    (unwritten : (ledgerOf history).content ((ledgerOf history).target fdno) = none)
    (bytes : List Byte) :
    (∃ view, seenThrough fs fdno = .ok view ∧ view.content = bytes) ↔
      chainContent fs (blockCount fs)
        (garbage.file ((ledgerOf history).target fdno)).blockList = .ok bytes := by
  obtain ⟨desc, entry, target⟩ := entry_of_open kept isOpen
  obtain ⟨struct, present⟩ := kept.recorded.descriptors.allocated fdno isOpen
  have content : contentOf fs ((ledgerOf history).target fdno) = chainContent fs (blockCount fs)
      (garbage.file ((ledgerOf history).target fdno)).blockList := by
    rw [contentOf, deref_eq_ok.mpr ⟨_, rfl, present⟩, ok_bind,
      left.chains _ struct unwritten present]
  simp only [seenThrough, entry, ok_bind, target, content]
  constructor
  · intro seen
    obtain ⟨view, seen, rfl⟩ := seen
    obtain ⟨walked, walk, same⟩ := bind_eq_ok.mp seen
    cases same
    exact walk
  · intro walk
    rw [walk]
    exact ⟨_, rfl, rfl⟩

theorem shows_only_own_bytes_iff {history : History} {fs : FsState} {fdno : Int}
    (kept : Kept history fs) (left : Left garbage history fs)
    (isOpen : fdno ∈ openDescriptors history) :
    ShowsOnlyOwnBytes history fs fdno ↔ WrittenOrEmpty garbage history fs fdno := by
  unfold ShowsOnlyOwnBytes WrittenOrEmpty
  cases content : (ledgerOf history).content ((ledgerOf history).target fdno) with
  | some bytes =>
      exact iff_of_true (shows_own_writes kept fdno isOpen bytes content)
        (.inl (Option.some_ne_none bytes))
  | none =>
      have walks := seen_of_unwritten kept left isOpen content []
      rw [Option.getD_none, walks, no_bytes_iff left.arrays]
      exact ⟨.inr, fun empty => empty.resolve_left fun written => written rfl⟩

section Steps

variable {history : History} {fs after : FsState} {fdno : Int} {file : Nat} {desc : Filedesc}
  {bytes : List Byte}

theorem entry_kept (entry : entryOf fs fdno = .ok desc)
    (table : after.fileDescriptors = fs.fileDescriptors)
    (filedescs : ∀ address, fileDescriptorAt fs fdno = .ok (some address) →
      fs.filedescs.read address = some desc → after.filedescs.read address = some desc) :
    entryOf after fdno = .ok desc := by
  obtain ⟨address, looked, present⟩ := entry_eq_ok.mp entry
  apply entry_eq_ok.mpr
  refine ⟨address, ?_, filedescs address looked present⟩
  rw [pointer_of_same_table table]
  exact looked

theorem entry_after_opened {files : Heap File} {opened : Nat} {offset value : Int}
    {passed : BitVec 32} (effect : Opened garbage fs after files opened offset passed value)
    (entry : entryOf fs fdno = .ok desc) (nonneg : 0 ≤ fdno) (different : fdno ≠ value) :
    entryOf after fdno = .ok desc := by
  obtain ⟨address, looked, present⟩ := entry_eq_ok.mp entry
  apply entry_eq_ok.mpr
  refine ⟨address, ?_, ?_⟩
  · rw [pointer_of_opened effect nonneg different]
    exact looked
  · rw [filedesc_of_opened effect (Heap.lt_next_of_read present)]
    exact present

/-- A failed `ufs_open` frees the struct it had allocated and no other. -/
theorem entry_after_failed_open {code : UfsErrorCode} (entry : entryOf fs fdno = .ok desc) :
    entryOf (openFailure garbage code fs) fdno = .ok desc := by
  apply entry_kept entry
  · rfl
  · intro address _ there
    have old : address ≠ fs.filedescs.next := Nat.ne_of_lt (Heap.lt_next_of_read there)
    exact (Heap.read_release_of_ne old).trans (Heap.read_alloc_of_read _ there)

theorem shows_opened {filename : String} {flags passed : BitVec 32} {value offset : Int}
    {files : Heap File} {opened : Nat} (kept : Kept history fs)
    (shows : Shows history fs fdno file desc bytes)
    (effect : Opened garbage fs after files opened offset passed value) :
    Shows (history ++ [⟨.open filename flags, ⟨value, []⟩⟩]) after fdno file desc bytes := by
  have below := ((kept.table.members fdno).mp shows.isOpen).2
  have nonneg := ((kept.table.members fdno).mp shows.isOpen).1
  have value_eq := effect.value_eq
  have different : fdno ≠ value := by omega
  have successful := opened_not_failed effect
  constructor
  · rw [descriptors_after_open successful]
    exact Finset.mem_insert_of_mem shows.isOpen
  · rw [ledger_of_snoc]
    simp only [record, recordOpen, if_neg successful]
    split_ifs
    · exact (Function.update_of_ne different _ _).trans shows.target
    · exact (Function.update_of_ne different _ _).trans shows.target
  · rw [ledger_of_snoc]
    simp only [record, recordOpen, if_neg successful]
    split_ifs
    · exact shows.content
    · exact shows.content
  · exact entry_after_opened effect shows.entry nonneg different

theorem shows_written {other : Int} {buf : List Byte} {size : Nat} {value : Int}
    (kept : Kept history fs) (shows : Shows history fs fdno file desc bytes)
    (own : desc.file = some file) (spares : fileBehind fs other ≠ .ok (some file))
    (passes : PassesOpen history (.write other buf size))
    (effect : WriteEffect other buf size fs value after) :
    Shows (history ++ [⟨.write other buf size, ⟨value, []⟩⟩]) after fdno file desc bytes := by
  cases effect with
  | failed code =>
      constructor
      · rw [descriptors_after_write]
        exact shows.isOpen
      · rw [ledger_of_snoc]
        exact shows.target
      · rw [ledger_of_snoc]
        exact shows.content
      · exact shows.entry
  | @written fd written found struct loop sz capped nonempty entry descriptor target present
      rounds =>
      have known := target_of_entry kept.recorded.descriptors passes entry descriptor target
      have behind := file_behind_of_entry (entry_eq_ok.mpr ⟨fd, entry, descriptor⟩)
      have elsewhere : file ≠ written := by
        intro same
        rw [behind, target, same] at spares
        exact spares rfl
      have successful : (loop.totalWritten : Int) ≠ -1 := by omega
      constructor
      · rw [descriptors_after_write]
        exact shows.isOpen
      · rw [ledger_of_snoc]
        simp only [record, recordWrite, if_neg successful]
        exact shows.target
      · rw [ledger_of_snoc]
        simp only [record, recordWrite, if_neg successful, known]
        exact (Function.update_of_ne elsewhere _ _).trans shows.content
      · apply entry_kept shows.entry
        · rfl
        · intro address _ there
          have apart : address ≠ fd := by
            intro same
            rw [same, descriptor] at there
            cases there
            rw [target] at own
            exact elsewhere (Option.some.inj own).symm
          exact (Heap.read_write_of_ne _ apart).trans there

theorem shows_deleted {filename : String} {value : Int}
    (shows : Shows history fs fdno file desc bytes)
    (effect : DeleteEffect filename fs value after) :
    Shows (history ++ [⟨.delete filename, ⟨value, []⟩⟩]) after fdno file desc bytes := by
  have entry : entryOf after fdno = .ok desc := by
    cases effect with
    | absent missing => exact shows.entry
    | deleted found present => exact shows.entry
  constructor
  · rw [descriptors_after_delete]
    exact shows.isOpen
  · rw [ledger_of_snoc]
    simp only [record, recordDelete]
    split_ifs
    · exact shows.target
    · exact shows.target
  · rw [ledger_of_snoc]
    simp only [record, recordDelete]
    split_ifs
    · exact shows.content
    · exact shows.content
  · exact entry

theorem shows_step {call : Call} {reply : Reply} (kept : Kept history fs)
    (shows : Shows history fs fdno file desc bytes) (own : desc.file = some file)
    (unclosed : Unclosed call)
    (spares : ∀ other buf size, call = .write other buf size →
      fileBehind fs other ≠ .ok (some file))
    (performed : perform garbage fs call = .ok (reply, after)) :
    Shows (history ++ [⟨call, reply⟩]) after fdno file desc bytes := by
  have safe := safe_of_performed kept.table unclosed performed
  cases perform_effect performed with
  | @ofOpen filename flags value after effect =>
      cases effect with
      | failed code =>
          constructor
          · rw [descriptors_after_failed_open]
            exact shows.isOpen
          · rw [ledger_of_snoc]
            exact shows.target
          · rw [ledger_of_snoc]
            exact shows.content
          · exact entry_after_failed_open shows.entry
      | created creating absent created opened listed => exact shows_opened kept shows opened
      | existing opening found opened listed => exact shows_opened kept shows opened
  | ofWrite effect => exact shows_written kept shows own (spares _ _ _ rfl) safe.1 effect
  | ofDelete effect => exact shows_deleted shows effect
  | ofRead effect => exact absurd unclosed id
  | ofClose effect => exact absurd unclosed id
  | ofSize effect => exact absurd unclosed id

end Steps

/-- Whatever is opened, deleted and written through descriptors of other
structs, a descriptor of a written file shows the same. Every descriptor of a
written file shows what was written there last, and one of an unwritten file
shows an empty content exactly when its `block_list` leads to no bytes. -/
theorem files_do_not_interfere {history more : History} {fs later : FsState} {fdno : Int}
    {bytes : List Byte} (run : Run (perform garbage) UnclosedCalls initial history fs)
    (isOpen : fdno ∈ openDescriptors history)
    (written : (ledgerOf history).content ((ledgerOf history).target fdno) = some bytes)
    (further : Run (perform garbage) (SparingCalls fs fdno) fs more later) :
    (∃ view, seenThrough fs fdno = .ok view ∧ view.content = bytes) ∧
      seenThrough later fdno = seenThrough fs fdno ∧ ShowsOwnWrites (history ++ more) later ∧
      ∀ other ∈ openDescriptors (history ++ more),
        ShowsOnlyOwnBytes (history ++ more) later other ↔
          WrittenOrEmpty garbage (history ++ more) later other := by
  have kept := run_kept run
  obtain ⟨desc, own, shows⟩ := shows_of_open kept isOpen written
  have behind := file_behind_of_entry shows.entry
  have held : Kept (history ++ more) later ∧ Left garbage (history ++ more) later ∧
      Shows (history ++ more) later fdno ((ledgerOf history).target fdno) desc bytes := by
    apply run_invariant (fun more state => Kept (history ++ more) state ∧
      Left garbage (history ++ more) state ∧
      Shows (history ++ more) state fdno ((ledgerOf history).target fdno) desc bytes) _ _ further
    · rw [List.append_nil]
      exact ⟨kept, run_left run, shows⟩
    · intro so_far before call reply after held permitted performed
      obtain ⟨kept, left, shows⟩ := held
      rw [← List.append_assoc]
      refine ⟨kept_step kept permitted.1 performed, left_step kept left permitted.1 performed, ?_⟩
      apply shows_step kept shows own permitted.1 _ performed
      intro other buf size isWrite
      have spares := permitted.2
      rw [isWrite] at spares
      rw [← own, ← behind]
      exact spares
  obtain ⟨keptLater, leftLater, showsLater⟩ := held
  refine ⟨⟨_, seen_of_shows kept shows, rfl⟩, ?_, shows_own_writes keptLater, ?_⟩
  · rw [seen_of_shows keptLater showsLater, seen_of_shows kept shows]
  · intro other otherOpen
    exact shows_only_own_bytes_iff keptLater leftLater otherOpen

def createWrite : List Call := [.open "a" (ufsCreate ||| ufsReadWrite), .write 0 [1, 2, 3] 3]

def firstWritten (garbage : Garbage) : Option (History × FsState) :=
  replay (perform garbage) UnclosedCalls createWrite [] initial

def recreate : List Call := [.delete "a", .open "a" (ufsCreate ||| ufsReadWrite)]

def replaced : Option (History × FsState) := do
  let written ← firstWritten zeroGarbage
  replay (perform zeroGarbage) (SparingCalls written.2 0)
    (recreate ++ recreate ++ [.write 2 [9, 9] 2]) [] written.2

/-- The old descriptor shows the old bytes, the last one the new, and the one
of the unwritten file none. -/
theorem old_file_kept :
    ∃ history fs more later, Run (perform zeroGarbage) UnclosedCalls initial history fs ∧
      Run (perform zeroGarbage) (SparingCalls fs 0) fs more later ∧
      (∃ view, seenThrough later 0 = .ok view ∧ view.content = [1, 2, 3]) ∧
      (∃ view, seenThrough later 2 = .ok view ∧ view.content = [9, 9]) ∧
      ∃ view, seenThrough later 1 = .ok view ∧ view.content = [] := by
  have isOpen : ((firstWritten zeroGarbage).map fun final =>
      decide (0 ∈ openDescriptors final.1)) = some true := by decide
  have written : ((firstWritten zeroGarbage).map fun final =>
      (ledgerOf final.1).content ((ledgerOf final.1).target 0)) = some (some [1, 2, 3]) := by decide
  have newOpen : ((firstWritten zeroGarbage).bind fun first => replaced.map fun final =>
      (decide (1 ∈ openDescriptors (first.1 ++ final.1)),
        decide (2 ∈ openDescriptors (first.1 ++ final.1)))) = some (true, true) := by decide
  have newWritten : ((firstWritten zeroGarbage).bind fun first => replaced.map fun final =>
      ((ledgerOf (first.1 ++ final.1)).content ((ledgerOf (first.1 ++ final.1)).target 1),
        (ledgerOf (first.1 ++ final.1)).content ((ledgerOf (first.1 ++ final.1)).target 2))) =
          some (none, some [9, 9]) := by decide
  cases first : firstWritten zeroGarbage with
  | none => simp [first] at isOpen
  | some start =>
      cases second : replaced with
      | none => simp [first, second] at newOpen
      | some final =>
          simp only [first, second, Option.bind_some, Option.map_some, Option.some.injEq,
            decide_eq_true_eq, Prod.mk.injEq] at isOpen written newOpen newWritten
          have run := run_of_replay .start first
          have replayed : replay (perform zeroGarbage) (SparingCalls start.2 0)
              (recreate ++ recreate ++ [.write 2 [9, 9] 2]) [] start.2 = some final := by
            rw [replaced, first] at second
            exact second
          have further := run_of_replay .start replayed
          obtain ⟨shown, same, own, only⟩ := files_do_not_interfere run isOpen written further
          rw [← same] at shown
          have empty : WrittenOrEmpty zeroGarbage (start.1 ++ final.1) final.2 1 :=
            .inr (.inl rfl)
          have unwritten := (only 1 newOpen.1).mpr empty
          rw [ShowsOnlyOwnBytes, newWritten.1] at unwritten
          exact ⟨_, _, _, _, run, further, shown, own 2 newOpen.2 _ newWritten.2, unwritten⟩

/-- `malloc` finds a block pointer where the second `struct file` goes. -/
def staleGarbage : Garbage where
  file := fun address => if address = 1 then ⟨some ⟨0, 0⟩, none, 0, none, none, none⟩
    else zeroGarbage.file address
  filedesc := zeroGarbage.filedesc

def recreated : Option (History × FsState) := do
  let written ← firstWritten staleGarbage
  replay (perform staleGarbage) (SparingCalls written.2 0) recreate [] written.2

/-- The new file `a` shows the bytes of the deleted one. -/
theorem new_file_shows_old_bytes :
    ∃ history fs more later, Run (perform staleGarbage) UnclosedCalls initial history fs ∧
      Run (perform staleGarbage) (SparingCalls fs 0) fs more later ∧
      history.map Event.call = createWrite ∧ more.map Event.call = recreate ∧
      (∃ view, seenThrough later 0 = .ok view ∧ view.content = [1, 2, 3]) ∧
      (∃ view, seenThrough later 1 = .ok view ∧ view.content = [1, 2, 3]) ∧
      ¬ ShowsOnlyOwnBytes (history ++ more) later 1 := by
  have calls : ((firstWritten staleGarbage).bind fun first => recreated.map fun final =>
      (first.1.map Event.call, final.1.map Event.call)) = some (createWrite, recreate) := by decide
  have shown : ((firstWritten staleGarbage).bind fun first => recreated.map fun final =>
      (seenThrough final.2 0, seenThrough final.2 1,
        (ledgerOf (first.1 ++ final.1)).content ((ledgerOf (first.1 ++ final.1)).target 1))) =
      some (.ok ⟨[1, 2, 3], ufsReadWrite, 3⟩, .ok ⟨[1, 2, 3], ufsReadWrite, 0⟩, none) := by decide
  cases first : firstWritten staleGarbage with
  | none => simp [first] at shown
  | some start =>
      cases second : recreated with
      | none => simp [first, second] at shown
      | some final =>
          simp only [first, second, Option.bind_some, Option.map_some, Option.some.injEq,
            Prod.mk.injEq] at calls shown
          obtain ⟨written, again⟩ := calls
          obtain ⟨old, new, unwritten⟩ := shown
          have run := run_of_replay .start first
          have replayed : replay (perform staleGarbage) (SparingCalls start.2 0) recreate []
              start.2 = some final := by
            rw [recreated, first] at second
            exact second
          have further := run_of_replay .start replayed
          refine ⟨_, _, _, _, run, further, written, again, ⟨_, old, rfl⟩, ⟨_, new, rfl⟩, ?_⟩
          intro only
          obtain ⟨view, seen, none⟩ := only
          rw [new] at seen
          cases seen
          rw [unwritten] at none
          cases none

end Sysprog.Userfs.FileIsolation
