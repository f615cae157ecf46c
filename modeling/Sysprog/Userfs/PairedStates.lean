import Sysprog.Library.PairedRuns
import Sysprog.Userfs.ClientLedger

/-!
# Two memories that differ in unset fields

Two memories agree when they differ in the chains of files that were not
written and in the modes of descriptors at most. The walks over the list, the
table and the blocks end alike in both.
-/

namespace Sysprog.Userfs.PairedStates

open CheckedRuns PairedRuns Memory Blocks Calls ClientLedger

set_option autoImplicit false

/-- The fields of a `struct file`; those of the chain count once it is written. -/
structure FilesAlike (ledger : Ledger) (file : Nat) (struct twin : File) : Prop where
  refs : twin.refs = struct.refs
  name : twin.name = struct.name
  next : twin.next = struct.next
  prev : twin.prev = struct.prev
  chain : ledger.content file ≠ none →
    twin.blockList = struct.blockList ∧ twin.lastBlock = struct.lastBlock

/-- The fields of a `struct filedesc` that every descriptor has set; `fresh` is
one that is allocated and not filled in yet. -/
def FiledescsAlike (fresh : Option Nat) (address : Nat) (desc twin : Filedesc) : Prop :=
  fresh ≠ some address → twin.file = desc.file ∧ twin.offset = desc.offset

/-- Two states that agree in everything but the structs, and in these as far
as they are set. -/
inductive Agree (ledger : Ledger) (fresh : Option Nat) (fs : FsState) : FsState → Prop where
  | structs {files : Heap File} {filedescs : Heap Filedesc}
      (filesAlike : HeapsAlike (FilesAlike ledger) fs.files files)
      (filedescsAlike : HeapsAlike (FiledescsAlike fresh) fs.filedescs filedescs) :
      Agree ledger fresh fs { fs with files := files, filedescs := filedescs }

def SameValue {Value : Type} (ledger : Ledger) (fresh : Option Nat)
    (first second : Value × FsState) : Prop :=
  second.1 = first.1 ∧ Agree ledger fresh first.2 second.2

variable {garbage other : Garbage} {ledger : Ledger} {fresh : Option Nat} {fs twin : FsState}

theorem agree_initial : Agree emptyLedger none initial initial := by
  apply @Agree.structs emptyLedger none initial initial.files initial.filedescs
  · refine ⟨rfl, ?_⟩
    intro address
    rw [initial, Heap.read_empty]
    exact .none
  · refine ⟨rfl, ?_⟩
    intro address
    rw [initial, Heap.read_empty]
    exact .none

theorem files_alike_mono {recorded : Ledger} {file : Nat} {struct found : File}
    (alike : FilesAlike ledger file struct found)
    (less : recorded.content file ≠ none → ledger.content file ≠ none) :
    FilesAlike recorded file struct found :=
  ⟨alike.refs, alike.name, alike.next, alike.prev, fun written => alike.chain (less written)⟩

/-- Which files are written is all the relation takes from the ledger. -/
theorem agree_mono {recorded : Ledger} (agree : Agree ledger fresh fs twin)
    (less : ∀ file, recorded.content file ≠ none → ledger.content file ≠ none) :
    Agree recorded fresh fs twin := by
  cases agree with
  | structs filesAlike filedescsAlike =>
      refine .structs (heaps_alike_mono filesAlike ?_) filedescsAlike
      intro file struct found alike
      exact files_alike_mono alike (less file)

theorem agree_fail {Value : Type} (code : UfsErrorCode) (agree : Agree ledger fresh fs twin)
    (value : Value) : SameValue ledger fresh (value, (fail code fs).2) (value, (fail code twin).2) := by
  cases agree with
  | structs filesAlike filedescsAlike => exact ⟨rfl, .structs filesAlike filedescsAlike⟩

/-! ## Pointers -/

section Pointers

variable {Value : Type} {related changed : Nat → Value → Value → Prop} {heap twinHeap : Heap Value}

theorem deref_alike (alike : HeapsAlike related heap twinHeap) (pointer : Option Nat) :
    Alike (fun value found => ∃ address, pointer = some address ∧ heap.read address = some value ∧
      twinHeap.read address = some found ∧ related address value found)
      (deref heap pointer) (deref twinHeap pointer) := by
  cases pointer with
  | none => exact .fault _
  | some address =>
      cases present : heap.read address with
      | none =>
          simp only [deref, present, heaps_alike_absent alike present]
          exact .fault _
      | some value =>
          obtain ⟨found, twinPresent, values⟩ := heaps_alike_read alike present
          simp only [deref, present, twinPresent]
          exact .value ⟨address, rfl, present, twinPresent, values⟩

theorem assign_alike {pointer : Option Nat} {change twinChange : Value → Value}
    (alike : HeapsAlike related heap twinHeap)
    (values : ∀ address value found, pointer = some address → related address value found →
      changed address (change value) (twinChange found))
    (elsewhere : ∀ place, pointer ≠ some place → ∀ value found, related place value found →
      changed place value found) :
    Alike (HeapsAlike changed) (assign heap pointer change) (assign twinHeap pointer twinChange) := by
  cases pointer with
  | none => exact .fault _
  | some address =>
      cases present : heap.read address with
      | none =>
          simp only [assign, present, heaps_alike_absent alike present]
          exact .fault _
      | some value =>
          obtain ⟨found, twinPresent, held⟩ := heaps_alike_read alike present
          simp only [assign, present, twinPresent]
          refine .value (heaps_alike_write alike (values address value found rfl held) ?_)
          intro place away
          exact elsewhere place fun same => away (Option.some.inj same).symm

theorem assign_alike_same {pointer : Option Nat} {change twinChange : Value → Value}
    (alike : HeapsAlike related heap twinHeap)
    (values : ∀ address value found, related address value found →
      related address (change value) (twinChange found)) :
    Alike (HeapsAlike related) (assign heap pointer change) (assign twinHeap pointer twinChange) := by
  apply assign_alike alike
  · intro address value found _ held
    exact values address value found held
  · intro place _ value found held
    exact held

end Pointers

theorem deref_filedesc_alike (agree : Agree ledger fresh fs twin) (fd : Nat) :
    Alike (fun desc found => fs.filedescs.read fd = some desc ∧
      twin.filedescs.read fd = some found ∧ FiledescsAlike fresh fd desc found)
      (deref fs.filedescs (some fd)) (deref twin.filedescs (some fd)) := by
  cases agree with
  | structs filesAlike filedescsAlike =>
      apply alike_mono (deref_alike filedescsAlike (some fd))
      intro desc found both
      obtain ⟨_, same, held⟩ := both
      cases same
      exact held

theorem deref_file_alike (agree : Agree ledger fresh fs twin) (pointer : Option Nat) :
    Alike (fun struct found => ∃ file, pointer = some file ∧ fs.files.read file = some struct ∧
      FilesAlike ledger file struct found)
      (deref fs.files pointer) (deref twin.files pointer) := by
  cases agree with
  | structs filesAlike filedescsAlike =>
      apply alike_mono (deref_alike filesAlike pointer)
      intro struct found both
      obtain ⟨file, same, present, _, structs⟩ := both
      exact ⟨file, same, present, structs⟩

/-! ## The walks of ufs_open and ufs_delete -/

theorem find_file_from_same {files twinFiles : Heap File}
    (alike : HeapsAlike (FilesAlike ledger) files twinFiles) (filename : String) (fuel : Nat)
    (start : Option Nat) :
    findFileFrom twinFiles filename fuel start = findFileFrom files filename fuel start := by
  induction fuel generalizing start with
  | zero => cases start <;> rfl
  | succ fuel ih =>
      cases start with
      | none => rfl
      | some address =>
          apply eq_of_alike
          apply alike_bind (deref_alike alike (some address))
          intro struct found both
          obtain ⟨_, _, _, _, structs⟩ := both
          rw [structs.name, structs.prev, ih]
          exact alike_refl _

theorem find_filedesc_in_same {filedescs twinFiledescs : Heap Filedesc}
    (alike : HeapsAlike (FiledescsAlike fresh) filedescs twinFiledescs) (file count : Nat)
    {slots : List Slot} (filled : ∀ address, .filedesc address ∈ slots → fresh ≠ some address) :
    findFiledescIn twinFiledescs file count slots = findFiledescIn filedescs file count slots := by
  induction count generalizing slots with
  | zero => rfl
  | succ count ih =>
      cases slots with
      | nil => rfl
      | cons slot slots =>
          cases slot with
          | unset => rfl
          | null => rfl
          | filedesc address =>
              apply eq_of_alike
              apply alike_bind (deref_alike alike (some address))
              intro desc found both
              obtain ⟨_, same, _, _, descs⟩ := both
              cases same
              have own := filled address List.mem_cons_self
              rw [(descs own).1, ih fun other member => filled other (List.mem_cons_of_mem _ member)]
              exact alike_refl _

theorem find_filedesc_in_member {filedescs : Heap Filedesc} {file count found : Nat}
    {slots : List Slot} (walked : findFiledescIn filedescs file count slots = .ok (some found)) :
    .filedesc found ∈ slots := by
  induction count generalizing slots with
  | zero => cases walked
  | succ count ih =>
      cases slots with
      | nil => cases walked
      | cons slot slots =>
          cases slot with
          | unset => cases walked
          | null => cases walked
          | filedesc address =>
              obtain ⟨desc, _, rest⟩ := bind_eq_ok.mp walked
              split_ifs at rest
              · cases rest
                exact List.mem_cons_self
              · exact List.mem_cons_of_mem _ (ih rest)

theorem find_file_struct_same (agree : Agree ledger fresh fs twin) (filename : String) :
    findFileStruct filename twin = findFileStruct filename fs := by
  cases agree with
  | structs filesAlike filedescsAlike =>
      unfold findFileStruct
      rw [filesAlike.next]
      exact find_file_from_same filesAlike filename _ _

theorem find_filedesc_same (agree : Agree ledger fresh fs twin) (file : Nat)
    (filled : ∀ address, .filedesc address ∈ fs.fileDescriptors → fresh ≠ some address) :
    findFiledesc file twin = findFiledesc file fs := by
  cases agree with
  | structs filesAlike filedescsAlike => exact find_filedesc_in_same filedescsAlike file _ filled

/-! ## Blocks -/

theorem allocate_block_alike (agree : Agree ledger fresh fs twin) (data : List Byte) (size : Nat) :
    Alike (SameValue ledger fresh) (allocateBlock data size fs) (allocateBlock data size twin) := by
  cases agree with
  | structs filesAlike filedescsAlike =>
      unfold allocateBlock
      split_ifs with empty
      · exact .fault _
      · apply alike_bind (alike_refl _)
        intro loop twinLoop same
        cases same
        exact .value ⟨rfl, .structs filesAlike filedescsAlike⟩

theorem deref_block_same (agree : Agree ledger fresh fs twin) (pointer : Option BlockPointer) :
    derefBlock twin pointer = derefBlock fs pointer := by
  cases agree
  rfl

theorem memory_of_same (agree : Agree ledger fresh fs twin) (block : Block) :
    memoryOf twin block = memoryOf fs block := by
  cases agree
  rfl

theorem file_size_loop_same (agree : Agree ledger fresh fs twin) (fuel : Nat)
    (block : Option BlockPointer) (size : Nat) :
    fileSizeLoop twin fuel block size = fileSizeLoop fs fuel block size := by
  induction fuel generalizing block size with
  | zero => cases block <;> rfl
  | succ fuel ih =>
      cases block with
      | none => rfl
      | some block =>
          simp only [fileSizeLoop, deref_block_same agree, ih]

theorem read_data_loop_same (agree : Agree ledger fresh fs twin) (blockCount : Nat)
    (loop : ReadLoop) : readDataLoop twin blockCount loop = readDataLoop fs blockCount loop := by
  induction blockCount generalizing loop with
  | zero => rfl
  | succ blockCount ih =>
      simp only [readDataLoop, deref_block_same agree, memory_of_same agree, ih]

theorem read_remained_same (agree : Agree ledger fresh fs twin) (remained : Nat)
    (loop : ReadLoop) : readRemained twin remained loop = readRemained fs remained loop := by
  cases agree
  rfl

theorem free_buffer_alike (agree : Agree ledger fresh fs twin) (pointer : Option MemoryPointer) :
    Alike (fun freed twinFreed => Agree ledger fresh freed twinFreed)
      (freeBuffer pointer fs) (freeBuffer pointer twin) := by
  cases agree with
  | structs filesAlike filedescsAlike =>
      cases pointer with
      | none => exact .value (.structs filesAlike filedescsAlike)
      | some memory =>
          apply alike_bind (alike_refl (deref fs.buffers (some memory.buffer)))
          intro bytes _ _
          split_ifs with whole
          · exact .value (.structs filesAlike filedescsAlike)
          · exact .fault _

theorem deallocate_block_alike (agree : Agree ledger fresh fs twin) (first : BlockPointer) :
    Alike (fun freed twinFreed => Agree ledger fresh freed twinFreed)
      (deallocateBlock first fs) (deallocateBlock first twin) := by
  unfold deallocateBlock
  rw [deref_block_same agree]
  apply alike_bind (alike_refl (derefBlock fs (some first)))
  intro block twinBlock same
  cases same
  apply alike_bind (free_buffer_alike agree block.memory)
  intro freed twinFreed agrees
  split_ifs with whole
  · cases agrees with
    | structs filesAlike filedescsAlike => exact .value (.structs filesAlike filedescsAlike)
  · exact .fault _

end Sysprog.Userfs.PairedStates
