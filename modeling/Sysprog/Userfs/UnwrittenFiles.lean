import Sysprog.Userfs.UnclosedRuns

/-!
# Files before their first write

`alloc_file_struct` leaves `block_list` as `malloc` returned it and only
`write_data` assigns it. Until then the chain of a file starts wherever that
pointer leads, which may be among the blocks of another file.
-/

namespace Sysprog.Userfs.UnwrittenFiles

open CheckedRuns Memory Blocks Calls CallEffects ClientLedger DescriptorNumbers FileList
open StoredContent RecordedDescriptors FileLifetime UnclosedRuns

set_option autoImplicit false

variable {garbage : Garbage} {history : History} {fs after : FsState}

/-- The pointer is NULL, or leads to an allocated block that is empty. -/
def LeadsToNoBytes (fs : FsState) (pointer : Option BlockPointer) : Prop :=
  pointer = none ∨ ∃ block, derefBlock fs pointer = .ok block ∧ block.occupied = 0

/-- The `block_list` of a file without a write is the one `malloc` left. -/
def ChainsLeft (garbage : Garbage) (ledger : Ledger) (files : Heap File) : Prop :=
  ∀ file struct, ledger.content file = none → files.read file = some struct →
    struct.blockList = (garbage.file file).blockList

def ArraysBuilt (fs : FsState) : Prop :=
  ∀ array blocks, fs.blockArrays.read array = some blocks →
    ∃ size data, Stores fs array array size data

theorem chains_left_same {ledger recorded : Ledger} {files changed : Heap File}
    (left : ChainsLeft garbage ledger files) (content : recorded.content = ledger.content)
    (chains : ∀ file struct', changed.read file = some struct' →
      ∃ struct, files.read file = some struct ∧ struct'.blockList = struct.blockList) :
    ChainsLeft garbage recorded changed := by
  intro file struct' unwritten present'
  rw [content] at unwritten
  obtain ⟨struct, present, same⟩ := chains file struct' present'
  rw [same]
  exact left file struct unwritten present

theorem chains_left_recorded {ledger recorded : Ledger} {files : Heap File}
    (left : ChainsLeft garbage ledger files) (content : recorded.content = ledger.content) :
    ChainsLeft garbage recorded files :=
  chains_left_same left content fun _ struct present => ⟨struct, present, rfl⟩

theorem chains_left_create {ledger recorded : Ledger} {files : Heap File} {filename : String}
    (left : ChainsLeft garbage ledger fs.files) (content : recorded.content = ledger.content)
    (created : linkOlder (fs.files.alloc (newFile garbage filename fs)) fs.fileList
      fs.files.next = .ok files) : ChainsLeft garbage recorded files := by
  intro file struct unwritten present
  rw [content] at unwritten
  obtain ⟨original, next, before, rfl⟩ := linkOlder_read created present
  by_cases isNew : file = fs.files.next
  · subst isNew
    rw [Heap.read_alloc_next] at before
    cases before
    rfl
  · rw [Heap.read_alloc_of_ne _ isNew] at before
    exact left file original unwritten before

theorem chains_left_opened {ledger : Ledger} {files : Heap File} {file : Nat}
    {offset value : Int} {flags : BitVec 32} (left : ChainsLeft garbage ledger files)
    (opened : Opened garbage fs after files file offset flags value) :
    ChainsLeft garbage ledger after.files := by
  obtain ⟨struct, present, filesAfter⟩ := opened.refs
  apply chains_left_same left rfl
  intro other struct' read
  exact chains_of_write present read filesAfter rfl

theorem chains_left_write {ledger recorded : Ledger} {files changed : Heap File} {file : Nat}
    {struct written : File} {bytes : List Byte} (left : ChainsLeft garbage ledger files)
    (present : files.read file = some struct) (write : changed = files.write file written)
    (content : recorded.content = Function.update ledger.content file (some bytes)) :
    ChainsLeft garbage recorded changed := by
  intro other found unwritten read
  rw [content] at unwritten
  rw [write] at read
  rcases Heap.read_write_cases present read with ⟨rfl, _⟩ | ⟨different, before⟩
  · rw [Function.update_self] at unwritten
    cases unwritten
  · rw [Function.update_of_ne different] at unwritten
    exact left other found unwritten before

theorem arrays_built_same (built : ArraysBuilt fs)
    (blockArrays : after.blockArrays = fs.blockArrays) (buffers : after.buffers = fs.buffers) :
    ArraysBuilt after := by
  intro array blocks present
  rw [blockArrays] at present
  obtain ⟨size, data, stores⟩ := built array blocks present
  refine ⟨size, data, stores_mono stores ?_ ?_⟩
  · rw [blockArrays]
    exact fun _ read => read
  · rw [buffers]
    exact fun _ read => read

theorem arrays_built_write {size : Nat} {buf : List Byte} {loop : AllocateLoop}
    (built : ArraysBuilt fs) (paired : fs.blockArrays.next = fs.buffers.next)
    (rounds : allocateRounds buf size fs.blockArrays.next fs.buffers.next (totalBlocks size) =
      .ok loop)
    (blockArrays : after.blockArrays = fs.blockArrays.alloc loop.blockArray)
    (buffers : after.buffers = fs.buffers.alloc loop.buffer) : ArraysBuilt after := by
  intro array blocks present
  by_cases isNew : array = fs.blockArrays.next
  · have stores := stores_of_built (rounds_built rounds) blockArrays buffers
    rw [← paired, ← isNew] at stores
    exact ⟨size, buf, stores⟩
  · rw [blockArrays, Heap.read_alloc_of_ne _ isNew] at present
    obtain ⟨size, data, stores⟩ := built array blocks present
    refine ⟨size, data, stores_mono stores ?_ ?_⟩
    · intro blocks old
      rw [blockArrays]
      exact Heap.read_alloc_of_read _ old
    · intro bytes old
      rw [buffers]
      exact Heap.read_alloc_of_read _ old

/-- What `Kept` leaves open: where the chains of unwritten files start. -/
structure Left (garbage : Garbage) (history : History) (fs : FsState) : Prop where
  chains : ChainsLeft garbage (ledgerOf history) fs.files
  arrays : ArraysBuilt fs

theorem left_initial : Left garbage [] initial := by
  constructor
  · intro file struct _ present
    simp [initial] at present
  · intro array blocks present
    simp [initial] at present

theorem left_open {filename : String} {flags : BitVec 32} {value : Int} {buffer : List Byte}
    (left : Left garbage history fs) (effect : OpenEffect garbage filename flags fs value after) :
    Left garbage (history ++ [⟨.open filename flags, ⟨value, buffer⟩⟩]) after := by
  have content : (ledgerOf (history ++ [⟨.open filename flags, ⟨value, buffer⟩⟩])).content =
      (ledgerOf history).content := by
    rw [ledger_of_snoc]
    simp only [record, recordOpen]
    split_ifs <;> rfl
  cases effect with
  | failed code =>
      exact ⟨chains_left_recorded left.chains content, arrays_built_same left.arrays rfl rfl⟩
  | created creating absent linked opened listed =>
      exact ⟨chains_left_opened (chains_left_create left.chains content linked) opened,
        arrays_built_same left.arrays opened.blockArrays opened.buffers⟩
  | existing opening found opened listed =>
      exact ⟨chains_left_opened (chains_left_recorded left.chains content) opened,
        arrays_built_same left.arrays opened.blockArrays opened.buffers⟩

theorem left_write {fdno value : Int} {buf buffer : List Byte} {size : Nat}
    (kept : Kept history fs) (left : Left garbage history fs)
    (passes : PassesOpen history (.write fdno buf size))
    (effect : WriteEffect fdno buf size fs value after) :
    Left garbage (history ++ [⟨.write fdno buf size, ⟨value, buffer⟩⟩]) after := by
  cases effect with
  | failed code =>
      refine ⟨chains_left_recorded left.chains ?_, arrays_built_same left.arrays rfl rfl⟩
      rw [ledger_of_snoc]
      rfl
  | @written fd file desc struct loop sz capped nonempty entry descriptor target present
      rounds =>
      have known := target_of_entry kept.recorded.descriptors passes entry descriptor target
      have successful : (loop.totalWritten : Int) ≠ -1 := by omega
      have content : (ledgerOf (history ++ [⟨.write fdno buf size,
          ⟨loop.totalWritten, buffer⟩⟩])).content =
            Function.update (ledgerOf history).content file (some (buf.take loop.totalWritten)) := by
        rw [ledger_of_snoc]
        simp only [record, recordWrite, if_neg successful, known, Int.toNat_natCast]
      exact ⟨chains_left_write left.chains present rfl content,
        arrays_built_write left.arrays kept.contents.paired rounds rfl rfl⟩

theorem left_delete {filename : String} {value : Int} {buffer : List Byte}
    (left : Left garbage history fs) (effect : DeleteEffect filename fs value after) :
    Left garbage (history ++ [⟨.delete filename, ⟨value, buffer⟩⟩]) after := by
  have content : (ledgerOf (history ++ [⟨.delete filename, ⟨value, buffer⟩⟩])).content =
      (ledgerOf history).content := by
    rw [ledger_of_snoc]
    simp only [record, recordDelete]
    split_ifs <;> rfl
  cases effect with
  | absent missing =>
      exact ⟨chains_left_recorded left.chains content, left.arrays⟩
  | deleted found present =>
      refine ⟨chains_left_same left.chains content ?_, arrays_built_same left.arrays rfl rfl⟩
      intro other struct' read
      exact chains_of_write present read rfl rfl

theorem left_step {call : Call} {reply : Reply} (kept : Kept history fs)
    (left : Left garbage history fs) (unclosed : Unclosed call)
    (performed : perform garbage fs call = .ok (reply, after)) :
    Left garbage (history ++ [⟨call, reply⟩]) after := by
  have safe := safe_of_performed kept.table unclosed performed
  cases perform_effect performed with
  | ofOpen effect => exact left_open left effect
  | ofWrite effect => exact left_write kept left safe.1 effect
  | ofDelete effect => exact left_delete left effect
  | ofRead effect => exact absurd unclosed id
  | ofClose effect => exact absurd unclosed id
  | ofSize effect => exact absurd unclosed id

theorem run_left (run : Run (perform garbage) UnclosedCalls initial history fs) :
    Left garbage history fs := by
  have both : Kept history fs ∧ Left garbage history fs := by
    apply run_invariant (fun history state => Kept history state ∧ Left garbage history state)
      ⟨kept_initial, left_initial⟩ _ run
    intro history before call reply after held unclosed performed
    exact ⟨kept_step held.1 unclosed performed, left_step held.1 held.2 unclosed performed⟩
  exact both.2

/-! ## What a chain from such a pointer holds -/

theorem rest_empty_iff {array buffer size index : Nat} {data : List Byte}
    (inside : index < totalBlocks size) (long : storedLength size ≤ data.length) :
    (data.take (storedLength size)).drop (blockSize * index) = [] ↔
      (builtBlock array buffer size index).occupied = 0 := by
  rw [List.drop_eq_nil_iff, List.length_take_of_le long]
  by_cases notLast : index + 1 < totalBlocks size
  · rw [built_occupied notLast]
    unfold storedLength blockSize
    omega
  · rw [built_occupied_last notLast]
    have last : index = totalBlocks size - 1 := by omega
    unfold storedLength blockSize
    omega

theorem stored_of_deref {start : BlockPointer} {block : Block} (built : ArraysBuilt fs)
    (followed : derefBlock fs (some start) = .ok block) :
    ∃ size data, Stores fs start.array start.array size data ∧ start.index < totalBlocks size ∧
      block = builtBlock start.array start.array size start.index := by
  obtain ⟨blocks, dereferenced, entry⟩ := bind_eq_ok.mp followed
  obtain ⟨array, same, present⟩ := deref_eq_ok.mp dereferenced
  cases same
  obtain ⟨size, data, stores⟩ := built start.array blocks present
  have blocksAre := stores.blockArray
  rw [present] at blocksAre
  cases blocksAre
  have inside : start.index < totalBlocks size := by
    by_contra outside
    have none : (builtBlocks start.array start.array size)[start.index]? = none := by
      rw [List.getElem?_eq_none_iff, built_blocks_length]
      omega
    simp [none] at entry
  have reached := deref_built_block stores inside
  rw [followed] at reached
  exact ⟨size, data, stores, inside, Except.ok.inj reached⟩

/-- The walk from a pointer returns without bytes exactly when the pointer leads
to none. -/
theorem no_bytes_iff {pointer : Option BlockPointer} (built : ArraysBuilt fs) :
    chainContent fs (blockCount fs) pointer = .ok [] ↔ LeadsToNoBytes fs pointer := by
  cases pointer with
  | none => exact iff_of_true (by rw [chainContent]) (.inl rfl)
  | some start =>
      cases followed : derefBlock fs (some start) with
      | error halt =>
          refine iff_of_false ?_ ?_
          · intro walked
            cases fuel : blockCount fs with
            | zero =>
                rw [fuel] at walked
                cases walked
            | succ less =>
                rw [fuel, chainContent, followed] at walked
                cases walked
          · intro none
            rcases none with impossible | ⟨block, reached, _⟩
            · cases impossible
            · rw [followed] at reached
              cases reached
      | ok block =>
          obtain ⟨size, data, stores, inside, rfl⟩ := stored_of_deref built followed
          have enough := total_blocks_le_block_count stores
          have walk := chain_content_from stores inside (Nat.le_add_left_of_le enough)
          rw [show start = ⟨start.array, start.index⟩ from rfl, walk]
          have empty := @rest_empty_iff start.array start.array size start.index data inside
            stores.long
          constructor
          · intro returned
            exact .inr ⟨_, followed, empty.mp (Except.ok.inj returned)⟩
          · intro none
            rcases none with impossible | ⟨block, reached, occupied⟩
            · cases impossible
            · rw [followed] at reached
              cases reached
              rw [empty.mpr occupied]

end Sysprog.Userfs.UnwrittenFiles
