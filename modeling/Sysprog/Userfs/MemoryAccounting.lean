import Sysprog.Userfs.FileLifetime

/-!
# What becomes of the memory

Every `ufs_write` allocates an array of blocks and a buffer and points its
file at them; only `ufs_close` frees a chain, the one a file has when its last
reference goes. So each write over an older one loses that one's memory for
good, and nothing else is lost of the chains.
-/

namespace Sysprog.Userfs.MemoryAccounting

open CheckedRuns Memory Blocks Calls CallEffects ClientLedger StoredContent FileList
open DescriptorNumbers (zeroGarbage opened_not_failed)
open RecordedDescriptors (target_of_entry)
open RecordedFiles (Recorded)
open FileLifetime

set_option autoImplicit false

variable {garbage : Garbage}

def isWritten (event : Event Call Reply) : Bool :=
  match event.call with
  | .write _ _ _ => decide (event.result.value ≠ -1)
  | _ => false

def writes (history : History) : Nat := history.countP isWritten

def writtenFiles (ledger : Ledger) : Finset Nat :=
  (Finset.range ledger.created).filter fun file => ledger.content file ≠ none

def keptFiles (ledger : Ledger) (fs : FsState) : Finset Nat :=
  (writtenFiles ledger).filter fun file => fs.files.read file ≠ none

/-- One array of blocks for each written file that still has its struct, and
one for each write over an older one: those are lost. -/
structure Accounted (history : History) (fs : FsState) : Prop where
  arrays : fs.blockArrays.inUse + (writtenFiles (ledgerOf history)).card =
    writes history + (keptFiles (ledgerOf history) fs).card
  buffers : fs.buffers.inUse = fs.blockArrays.inUse

theorem mem_written {ledger : Ledger} {fs : FsState} (contents : Contents ledger fs) {file : Nat} :
    file ∈ writtenFiles ledger ↔ ledger.content file ≠ none := by
  rw [writtenFiles, Finset.mem_filter, Finset.mem_range]
  exact ⟨fun both => both.2, fun written => ⟨contents.written file written, written⟩⟩

theorem writes_snoc (history : History) (event : Event Call Reply) :
    writes (history ++ [event]) = writes history + if isWritten event then 1 else 0 := by
  rw [writes, List.countP_append, List.countP_singleton]
  rfl

section Step

variable {history : History} {fs after : FsState} {call : Call} {reply : Reply}

theorem accounted_same (held : Accounted history fs) (contents : Contents (ledgerOf history) fs)
    (next : Contents (ledgerOf (history ++ [⟨call, reply⟩])) after)
    (noWrite : isWritten ⟨call, reply⟩ = false)
    (content : (ledgerOf (history ++ [⟨call, reply⟩])).content = (ledgerOf history).content)
    (arrays : after.blockArrays.inUse = fs.blockArrays.inUse)
    (buffers : after.buffers.inUse = fs.buffers.inUse)
    (structs : ∀ file, (ledgerOf history).content file ≠ none →
      (after.files.read file = none ↔ fs.files.read file = none)) :
    Accounted (history ++ [⟨call, reply⟩]) after := by
  have written : writtenFiles (ledgerOf (history ++ [⟨call, reply⟩])) =
      writtenFiles (ledgerOf history) := by
    ext file
    rw [mem_written next, mem_written contents, content]
  have kept : keptFiles (ledgerOf (history ++ [⟨call, reply⟩])) after =
      keptFiles (ledgerOf history) fs := by
    rw [keptFiles, keptFiles, written]
    apply Finset.filter_congr
    intro file member
    exact not_congr (structs file ((mem_written contents).mp member))
  constructor
  · rw [written, kept, writes_snoc, noWrite, arrays]
    exact held.arrays
  · rw [arrays, buffers]
    exact held.buffers

theorem accounted_write {fdno : Int} {buf : List Byte} {size file : Nat} {value : Int}
    {struct : File} {blocks : List Block} {bytes : List Byte} (held : Accounted history fs)
    (contents : Contents (ledgerOf history) fs)
    (next : Contents (ledgerOf (history ++ [⟨.write fdno buf size, ⟨value, []⟩⟩])) after)
    (successful : value ≠ -1) (target : (ledgerOf history).target fdno = file)
    (present : fs.files.read file = some struct)
    (arrays : after.blockArrays = fs.blockArrays.alloc blocks)
    (buffers : after.buffers = fs.buffers.alloc bytes)
    (structs : ∀ other, after.files.read other = none ↔ fs.files.read other = none) :
    Accounted (history ++ [⟨.write fdno buf size, ⟨value, []⟩⟩]) after := by
  have content : (ledgerOf (history ++ [⟨.write fdno buf size, ⟨value, []⟩⟩])).content =
      Function.update (ledgerOf history).content file (some (buf.take value.toNat)) := by
    rw [ledger_of_snoc]
    simp only [record, recordWrite, if_neg successful, target]
  have written : writtenFiles (ledgerOf (history ++ [⟨.write fdno buf size, ⟨value, []⟩⟩])) =
      insert file (writtenFiles (ledgerOf history)) := by
    ext other
    rw [mem_written next, Finset.mem_insert, mem_written contents, content]
    by_cases here : other = file
    · subst here
      simp
    · simp [here]
  have kept : keptFiles (ledgerOf (history ++ [⟨.write fdno buf size, ⟨value, []⟩⟩])) after =
      insert file (keptFiles (ledgerOf history) fs) := by
    ext other
    rw [keptFiles, keptFiles, written, Finset.mem_filter, Finset.mem_insert, Finset.mem_insert,
      Finset.mem_filter, Ne, structs]
    by_cases here : other = file
    · subst here
      simp [present]
    · simp [here]
  have both : file ∈ keptFiles (ledgerOf history) fs ↔ file ∈ writtenFiles (ledgerOf history) := by
    rw [keptFiles, Finset.mem_filter]
    simp [present]
  have counted := held.arrays
  constructor
  · rw [written, kept, writes_snoc, arrays, Heap.inUse_alloc]
    have isOne : isWritten ⟨.write fdno buf size, ⟨value, []⟩⟩ = true := by
      simp [isWritten, successful]
    rw [isOne, if_pos rfl]
    by_cases before : file ∈ writtenFiles (ledgerOf history)
    · rw [Finset.insert_eq_of_mem before, Finset.insert_eq_of_mem (both.mpr before)]
      omega
    · rw [Finset.card_insert_of_notMem before,
        Finset.card_insert_of_notMem (fun member => before (both.mp member))]
      omega
  · rw [arrays, buffers, Heap.inUse_alloc, Heap.inUse_alloc, held.buffers]

theorem accounted_release {fdno : Int} {file : Nat} {struct changed : File} {freed : FsState}
    (held : Accounted history fs) (contents : Contents (ledgerOf history) fs)
    (next : Contents (ledgerOf (history ++ [⟨.close fdno, ⟨0, []⟩⟩])) after)
    (present : fs.files.read file = some struct)
    (deallocated : deallocateFile file { fs with files := fs.files.write file changed } = .ok freed)
    (chain : changed.blockList = struct.blockList)
    (initialised : (ledgerOf history).content file ≠ none ∨ struct.blockList = none)
    (arrays : after.blockArrays = freed.blockArrays) (buffers : after.buffers = freed.buffers)
    (structs : after.files = freed.files) :
    Accounted (history ++ [⟨.close fdno, ⟨0, []⟩⟩]) after := by
  have files := released_files deallocated
  obtain ⟨found, read, effect⟩ := deallocateFile_ok deallocated
  have ownStruct : found = changed := by
    rw [Heap.read_write_self _ (Heap.lt_next_of_read present)] at read
    exact (Option.some.inj read).symm
  subst ownStruct
  have elsewhere : ∀ other, other ≠ file →
      (after.files.read other = none ↔ fs.files.read other = none) := by
    intro other different
    rw [structs, files, Heap.read_release_of_ne different, Heap.read_write_of_ne _ different]
  by_cases written : (ledgerOf history).content file = none
  · have empty : found.blockList = none := by
      rw [chain]
      exact initialised.resolve_left (not_not.mpr written)
    rw [empty] at effect
    apply accounted_same held contents next rfl
    · rw [ledger_of_snoc]
      rfl
    · rw [arrays, effect]
    · rw [buffers, effect]
    · intro other otherWritten
      apply elsewhere
      intro same
      rw [same] at otherWritten
      exact otherWritten written
  · obtain ⟨bytes, bytesAre⟩ := Option.ne_none_iff_exists'.mp written
    obtain ⟨array, size, data, start, stores, _⟩ := contents.stored file bytes struct bytesAre present
    rw [chain, start] at effect
    have storesMiddle : Stores { fs with files := fs.files.write file found } array array size
        data := ⟨stores.blockArray, stores.buffer, stores.long⟩
    obtain ⟨block, dereferenced, effect⟩ := effect
    rw [deref_built_block storesMiddle (total_blocks_pos size)] at dereferenced
    cases dereferenced
    have fewerArrays : after.blockArrays.inUse + 1 = fs.blockArrays.inUse := by
      rw [arrays, effect]
      exact Heap.inUse_release stores.blockArray
    have fewerBuffers : after.buffers.inUse + 1 = fs.buffers.inUse := by
      rw [buffers, effect, builtBlock]
      exact Heap.inUse_release stores.buffer
    have sameWritten : writtenFiles (ledgerOf (history ++ [⟨.close fdno, ⟨0, []⟩⟩])) =
        writtenFiles (ledgerOf history) := by
      ext other
      rw [mem_written next, mem_written contents, ledger_of_snoc]
      rfl
    have kept : keptFiles (ledgerOf (history ++ [⟨.close fdno, ⟨0, []⟩⟩])) after =
        (keptFiles (ledgerOf history) fs).erase file := by
      ext other
      rw [keptFiles, keptFiles, sameWritten, Finset.mem_filter, Finset.mem_erase, Finset.mem_filter]
      by_cases here : other = file
      · subst here
        simp [structs, files]
      · simp [here, elsewhere other here]
    have member : file ∈ keptFiles (ledgerOf history) fs := by
      rw [keptFiles, Finset.mem_filter, mem_written contents]
      simp [written, present]
    have positive := Finset.card_pos.mpr ⟨file, member⟩
    have counted := held.arrays
    constructor
    · rw [sameWritten, kept, writes_snoc, Finset.card_erase_of_mem member]
      simp only [isWritten, Bool.false_eq_true, if_false]
      omega
    · have same := held.buffers
      omega

theorem accounted_step (held : Accounted history fs) (recorded : Recorded (ledgerOf history) fs)
    (contents : Contents (ledgerOf history) fs) (safe : SafeCloses history fs call)
    (effect : CallEffect garbage fs call reply after) :
    Accounted (history ++ [⟨call, reply⟩]) after := by
  have next := contents_step recorded contents safe effect
  have content : isWritten ⟨call, reply⟩ = false →
      (ledgerOf (history ++ [⟨call, reply⟩])).content = (ledgerOf history).content := by
    intro noWrite
    rw [ledger_of_snoc]
    cases call with
    | «open» filename flags =>
        simp only [record, recordOpen]
        split_ifs <;> rfl
    | write fd buf size =>
        simp only [isWritten, decide_eq_false_iff_not, not_not] at noWrite
        simp only [record, recordWrite, if_pos noWrite]
    | read => rfl
    | close =>
        simp only [record, recordClose]
        split_ifs <;> rfl
    | delete =>
        simp only [record, recordDelete]
        split_ifs <;> rfl
    | size => rfl
  have same : isWritten ⟨call, reply⟩ = false → after.blockArrays = fs.blockArrays →
      after.buffers = fs.buffers →
      (∀ file, (ledgerOf history).content file ≠ none →
        (after.files.read file = none ↔ fs.files.read file = none)) →
      Accounted (history ++ [⟨call, reply⟩]) after := by
    intro noWrite arrays buffers structs
    exact accounted_same held contents next noWrite (content noWrite) (by rw [arrays])
      (by rw [buffers]) structs
  cases effect with
  | ofOpen effect =>
      cases effect with
      | failed code => exact same rfl rfl rfl fun _ _ => Iff.rfl
      | created creating absent created opened listed =>
          obtain ⟨struct, present, files⟩ := opened.refs
          refine same rfl opened.blockArrays opened.buffers ?_
          intro file written
          have older := contents.written file written
          rw [recorded.created] at older
          rw [files, Heap.read_write_eq_none _ present, (linkOlder_ok created).2 file,
            Heap.read_alloc_of_ne _ (Nat.ne_of_lt older)]
          split_ifs
          · exact Option.map_eq_none_iff
          · exact Iff.rfl
      | existing opening found opened listed =>
          obtain ⟨struct, present, files⟩ := opened.refs
          refine same rfl opened.blockArrays opened.buffers ?_
          intro file _
          rw [files, Heap.read_write_eq_none _ present]
  | ofWrite effect =>
      cases effect with
      | failed code => exact same rfl rfl rfl fun _ _ => Iff.rfl
      | written capped nonempty entry descriptor target present rounds =>
          have known := target_of_entry recorded.descriptors safe.1 entry descriptor target
          refine accounted_write held contents next (by omega) known present rfl rfl ?_
          intro other
          exact Heap.read_write_eq_none _ present
  | ofRead effect => cases effect <;> exact same rfl rfl rfl fun _ _ => Iff.rfl
  | ofClose effect =>
      cases effect with
      | failed entry => exact same rfl rfl rfl fun _ _ => Iff.rfl
      | kept entry descriptor target present remaining =>
          exact same rfl rfl rfl fun _ _ => Heap.read_write_eq_none _ present
      | @released fd file desc struct freed entry descriptor target present last deallocated =>
          have known := target_of_entry recorded.descriptors safe.1 entry descriptor target
          have refs := refs_of_entry entry descriptor target present
          rw [last] at refs
          have initialised := (safe.2 refs).2
          rw [known, blockListOf, present, Option.bind_some] at initialised
          exact accounted_release held contents next present deallocated rfl initialised rfl rfl rfl
  | ofDelete effect =>
      cases effect with
      | absent missing => exact same rfl rfl rfl fun _ _ => Iff.rfl
      | deleted found present =>
          exact same rfl rfl rfl fun _ _ => Heap.read_write_eq_none _ present
  | ofSize effect => rcases effect with rfl | rfl <;> exact same rfl rfl rfl fun _ _ => Iff.rfl

end Step

/-- In every run in which an `ufs_close` takes last references of deleted
files only, a write over an older one loses that one's array and buffer, and
no other memory of a chain is lost. -/
theorem memory_accounted {history : History} {fs : FsState}
    (run : Run (perform garbage) SafeCloses initial history fs) : Accounted history fs := by
  have held : (Recorded (ledgerOf history) fs ∧ Contents (ledgerOf history) fs) ∧
      Accounted history fs := by
    apply run_invariant (fun history fs => (Recorded (ledgerOf history) fs ∧
      Contents (ledgerOf history) fs) ∧ Accounted history fs) _ _ run
    · exact ⟨⟨RecordedFiles.recorded_initial, contents_initial⟩, rfl, rfl⟩
    · intro history before call reply after held safe performed
      obtain ⟨⟨recorded, contents⟩, accounted⟩ := held
      have effect := perform_effect performed
      exact ⟨⟨RecordedFiles.recorded_step recorded safe.1 effect,
        contents_step recorded contents safe effect⟩,
        accounted_step accounted recorded contents safe effect⟩
  exact held.2

def overwritten : Option (History × FsState) :=
  replay (perform zeroGarbage) SafeCloses
    [.open "a" (ufsCreate ||| ufsReadWrite), .open "b" (ufsCreate ||| ufsReadWrite),
      .write 0 [1, 2, 3] 3, .write 0 [4, 5] 2, .write 0 [6] 1, .write 1 [7] 1, .delete "a",
      .close 0] [] initial

theorem overwritten_accounted :
    ∃ final, overwritten = some final ∧ Accounted final.1 final.2 ∧ writes final.1 = 4 ∧
      final.2.blockArrays.inUse = 3 ∧ keptFiles (ledgerOf final.1) final.2 = {1} := by
  have counts : (overwritten.map fun final => (writes final.1, final.2.blockArrays.inUse)) =
      some (4, 3) := by decide
  have kept : (overwritten.map fun final => keptFiles (ledgerOf final.1) final.2) = some {1} := by
    decide
  cases replayed : overwritten with
  | none => simp [replayed] at counts
  | some final =>
      simp only [replayed, Option.map_some, Option.some.injEq, Prod.mk.injEq] at counts kept
      exact ⟨final, rfl, memory_accounted (run_of_replay .start replayed), counts.1, counts.2, kept⟩

end Sysprog.Userfs.MemoryAccounting
