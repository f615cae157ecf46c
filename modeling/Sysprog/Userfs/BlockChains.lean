import Sysprog.Userfs.FileIsolation
import Sysprog.Userfs.WrittenBytes

/-!
# Block chains and the three accounts of a file's size

The chain behind `block_list` is read block by block. In every run without
closes the chain of a written file is the one its last write built, and the
value of that write, the offset it left and `file_size` all count its bytes.
-/

namespace Sysprog.Userfs.BlockChains

open CheckedRuns Memory Blocks Calls CallEffects ClientLedger DescriptorNumbers
open StoredContent RecordedDescriptors FileLifetime UnclosedRuns FileIsolation WrittenBytes

set_option autoImplicit false

variable {garbage : Garbage}

/-- The blocks met along `next`, each with its place. -/
def chainBlocks (fs : FsState) :
    Nat → Option BlockPointer → Except Halt (List (BlockPointer × Block))
  | _, none => .ok []
  | 0, some _ => .error .endlessWalk
  | fuel + 1, some block => do
      let bl ← derefBlock fs (some block)
      let rest ← chainBlocks fs fuel bl.next
      .ok ((block, bl) :: rest)

def occupiedSum (chain : List (BlockPointer × Block)) : Nat :=
  (chain.map fun node => node.2.occupied).sum

/-- What a chain for `size` bytes is: as many blocks as are needed, `next` and
`prev` lead to the neighbours and to NULL at the ends, `last_block` is the last
one and all the others are full. -/
structure WellFormedChain (size : Nat) (lastBlock : Option BlockPointer)
    (chain : List (BlockPointer × Block)) : Prop where
  count : chain.length = (size + blockSize - 1) / blockSize
  next : ∀ index node, chain[index]? = some node →
    node.2.next = (chain[index + 1]?).map Prod.fst
  prev : ∀ index node, chain[index + 1]? = some node →
    node.2.prev = (chain[index]?).map Prod.fst
  first : ∀ node, chain.head? = some node → node.2.prev = none
  last : lastBlock = chain.getLast?.map Prod.fst
  full : ∀ index node, chain[index]? = some node → index + 1 < chain.length →
    node.2.occupied = blockSize
  rest : ∀ node, chain.getLast? = some node → node.2.occupied < blockSize

structure LastWrite where
  fd : Int
  buf : List Byte
  size : Nat
  value : Int

def noteWrite (ledger : Ledger) (writes : Nat → Option LastWrite) (event : Event Call Reply) :
    Nat → Option LastWrite :=
  match event.call with
  | .write fd buf size =>
      if event.result.value = -1 then writes
      else Function.update writes (ledger.target fd) (some ⟨fd, buf, size, event.result.value⟩)
  | _ => writes

def noteEvent (noted : Ledger × (Nat → Option LastWrite)) (event : Event Call Reply) :
    Ledger × (Nat → Option LastWrite) :=
  (record noted.1 event, noteWrite noted.1 noted.2 event)

def noted (history : History) : Ledger × (Nat → Option LastWrite) :=
  history.foldl noteEvent (emptyLedger, fun _ => none)

def lastWrites (history : History) : Nat → Option LastWrite := (noted history).2

/-- The bytes `write_data` passes on of a write of `size` bytes. -/
def cappedSize (size : Nat) : Nat := if maxFileSize < size then maxFileSize else size

/-- The value of the last write on a file, the offset it left and `file_size`
through every descriptor of the file are the sum of the chain, and the bytes
stored are the first ones of the write's. -/
structure AccountsAgree (history : History) (fs : FsState) (file : Nat) (write : LastWrite)
    (chain : List (BlockPointer × Block)) : Prop where
  value : write.value = occupiedSum chain
  offset : ∃ desc, entryOf fs write.fd = .ok desc ∧ desc.offset = occupiedSum chain
  sizes : ∀ fdno ∈ openDescriptors history, (ledgerOf history).target fdno = file →
    fileSize fdno fs = .ok ((occupiedSum chain : Int), fs)
  content : ∃ bytes, contentOf fs file = .ok bytes ∧ bytes.length = occupiedSum chain ∧
    bytes <+: write.buf.take (cappedSize write.size)

theorem noted_ledger (history : History) : (noted history).1 = ledgerOf history := by
  induction history using List.reverseRecOn with
  | nil => rfl
  | append_singleton history event ih =>
      rw [ledger_of_snoc, ← ih]
      simp [noted, noteEvent]

@[simp] theorem last_writes_snoc (history : History) (event : Event Call Reply) :
    lastWrites (history ++ [event]) =
      noteWrite (ledgerOf history) (lastWrites history) event := by
  rw [← noted_ledger]
  simp [lastWrites, noted, noteEvent]

section Chain

variable {array buffer size : Nat}

def builtChain (array buffer size : Nat) : List (BlockPointer × Block) :=
  (List.range (totalBlocks size)).map fun index =>
    (⟨array, index⟩, builtBlock array buffer size index)

theorem built_chain_length : (builtChain array buffer size).length = totalBlocks size := by
  simp [builtChain]

theorem built_chain_entry {index : Nat} (inside : index < totalBlocks size) :
    (builtChain array buffer size)[index]? =
      some (⟨array, index⟩, builtBlock array buffer size index) := by
  simp [builtChain, inside]

theorem built_chain_inside {index : Nat} {node : BlockPointer × Block}
    (entry : (builtChain array buffer size)[index]? = some node) :
    index < totalBlocks size ∧ node = (⟨array, index⟩, builtBlock array buffer size index) := by
  have inside : index < totalBlocks size := by
    rw [← @built_chain_length array buffer size]
    exact (List.getElem?_eq_some_iff.mp entry).1
  rw [built_chain_entry inside] at entry
  exact ⟨inside, (Option.some.inj entry).symm⟩

theorem built_chain_last {steps : Nat} (last : steps + 1 = totalBlocks size) :
    (builtChain array buffer size).getLast? =
      some (⟨array, steps⟩, builtBlock array buffer size steps) := by
  rw [List.getLast?_eq_getElem?, built_chain_length, ← last]
  exact built_chain_entry (by omega)

theorem total_blocks_succ (size : Nat) : ∃ steps, steps + 1 = totalBlocks size :=
  ⟨totalBlocks size - 1, by have positive := total_blocks_pos size; omega⟩

theorem built_chain_well_formed (nonempty : 1 ≤ size) :
    WellFormedChain size (some ⟨array, totalBlocks size - 1⟩) (builtChain array buffer size) := by
  obtain ⟨steps, last⟩ := total_blocks_succ size
  have lastEntry := @built_chain_last array buffer size steps last
  constructor
  · rw [built_chain_length]
    unfold totalBlocks blockSize
    split_ifs <;> omega
  · intro index node entry
    obtain ⟨inside, rfl⟩ := built_chain_inside entry
    by_cases notLast : index + 1 < totalBlocks size
    · rw [built_chain_entry notLast]
      exact built_next notLast
    · have ended : (builtChain array buffer size)[index + 1]? = none := by
        apply List.getElem?_eq_none
        rw [built_chain_length]
        omega
      rw [ended]
      exact built_next_last notLast
  · intro index node entry
    obtain ⟨inside, rfl⟩ := built_chain_inside entry
    rw [built_chain_entry (by omega)]
    rfl
  · intro node entry
    rw [List.head?_eq_getElem?] at entry
    obtain ⟨_, rfl⟩ := built_chain_inside entry
    rfl
  · rw [lastEntry, ← last]
    rfl
  · intro index node entry notLast
    obtain ⟨_, rfl⟩ := built_chain_inside entry
    rw [built_chain_length] at notLast
    exact built_occupied notLast
  · intro node entry
    rw [lastEntry] at entry
    cases entry
    have isLast : ¬ steps + 1 < totalBlocks size := by omega
    rw [built_occupied_last isLast]
    exact Nat.mod_lt _ (by decide)

/-- The blocks but the last are full and the last has the remainder. -/
theorem built_chain_sum : occupiedSum (builtChain array buffer size) = storedLength size := by
  obtain ⟨steps, last⟩ := total_blocks_succ size
  have front : (List.range steps).map (fun index => (builtBlock array buffer size index).occupied) =
      List.replicate steps blockSize := by
    rw [List.eq_replicate_iff]
    refine ⟨by simp, ?_⟩
    intro occupied member
    obtain ⟨index, below, rfl⟩ := List.mem_map.mp member
    have notLast : index + 1 < totalBlocks size := by
      have bound := List.mem_range.mp below
      omega
    exact built_occupied notLast
  have final : (builtBlock array buffer size steps).occupied = size % blockSize :=
    built_occupied_last (by omega)
  unfold occupiedSum builtChain
  rw [List.map_map, ← last, List.range_succ, List.map_append, List.sum_append]
  simp only [Function.comp_def, List.map_cons, List.map_nil, List.sum_singleton]
  rw [front, final, List.sum_replicate_nat, storedLength, ← last, Nat.add_sub_cancel,
    Nat.mul_comm]

theorem chain_blocks_from {fs : FsState} {data : List Byte} {index fuel : Nat}
    (stores : Stores fs array buffer size data) (inside : index < totalBlocks size)
    (enough : totalBlocks size ≤ index + fuel) :
    chainBlocks fs fuel (some ⟨array, index⟩) = .ok ((builtChain array buffer size).drop index) := by
  induction fuel generalizing index with
  | zero => omega
  | succ fuel ih =>
      have bound : index < (builtChain array buffer size).length := by
        rw [built_chain_length]
        exact inside
      have head : (builtChain array buffer size).drop index =
          (⟨array, index⟩, builtBlock array buffer size index) ::
            (builtChain array buffer size).drop (index + 1) := by
        rw [List.drop_eq_getElem_cons bound]
        congr 1
        simp [builtChain]
      rw [chainBlocks, deref_built_block stores inside, ok_bind, head]
      by_cases notLast : index + 1 < totalBlocks size
      · rw [built_next notLast, ih notLast (by omega), ok_bind]
      · have ended : (builtChain array buffer size).drop (index + 1) = [] := by
          apply List.drop_eq_nil_of_le
          rw [built_chain_length]
          omega
        rw [built_next_last notLast, ended, chainBlocks, ok_bind]

theorem chain_blocks_of_stored {fs : FsState} {data : List Byte}
    (stores : Stores fs array buffer size data) :
    chainBlocks fs (blockCount fs) (some ⟨array, 0⟩) = .ok (builtChain array buffer size) := by
  have enough := total_blocks_le_block_count stores
  exact chain_blocks_from stores (total_blocks_pos size) (by omega)

end Chain

structure Account (ledger : Ledger) (fs : FsState) (file : Nat) (write : LastWrite) : Prop where
  nonempty : 1 ≤ write.size
  value : write.value = storedLength (cappedSize write.size)
  member : write.fd ∈ ledger.descriptors
  target : ledger.target write.fd = file
  chain : ∃ struct array buffer, fs.files.read file = some struct ∧
    struct.blockList = some ⟨array, 0⟩ ∧
    struct.lastBlock = some ⟨array, totalBlocks (cappedSize write.size) - 1⟩ ∧
    Stores fs array buffer (cappedSize write.size) write.buf
  offset : ∃ desc, entryOf fs write.fd = .ok desc ∧ desc.file = some file ∧
    desc.offset = write.value

def AccountsKept (history : History) (fs : FsState) : Prop :=
  ∀ file write, lastWrites history file = some write → Account (ledgerOf history) fs file write

section Steps

variable {history : History} {fs after : FsState} {file : Nat} {write : LastWrite}

/-- Structs that keep their chain, blocks and buffers that stay. -/
theorem account_same {recorded : Ledger} (held : Account (ledgerOf history) fs file write)
    (member : write.fd ∈ recorded.descriptors)
    (target : recorded.target write.fd = (ledgerOf history).target write.fd)
    (files : ∀ struct, fs.files.read file = some struct → ∃ struct',
      after.files.read file = some struct' ∧ struct'.blockList = struct.blockList ∧
        struct'.lastBlock = struct.lastBlock)
    (blockArrays : ∀ array blocks, fs.blockArrays.read array = some blocks →
      after.blockArrays.read array = some blocks)
    (buffers : ∀ buffer bytes, fs.buffers.read buffer = some bytes →
      after.buffers.read buffer = some bytes)
    (entry : ∀ desc, desc.file = some file → entryOf fs write.fd = .ok desc →
      entryOf after write.fd = .ok desc) : Account recorded after file write := by
  obtain ⟨struct, array, buffer, present, first, last, stores⟩ := held.chain
  obtain ⟨struct', present', firstKept, lastKept⟩ := files struct present
  obtain ⟨desc, found, leads, offset⟩ := held.offset
  constructor
  · exact held.nonempty
  · exact held.value
  · exact member
  · exact target.trans held.target
  · refine ⟨struct', array, buffer, present', firstKept.trans first, lastKept.trans last, ?_⟩
    exact stores_mono stores (blockArrays array) (buffers buffer)
  · exact ⟨desc, entry desc leads found, leads, offset⟩

theorem account_opened {filename : String} {flags passed : BitVec 32} {value offset : Int}
    {files : Heap File} {opened : Nat} (kept : Kept history fs)
    (held : Account (ledgerOf history) fs file write)
    (effect : Opened garbage fs after files opened offset passed value)
    (chains : ∀ struct, fs.files.read file = some struct → ∃ struct',
      files.read file = some struct' ∧ struct'.blockList = struct.blockList ∧
        struct'.lastBlock = struct.lastBlock) :
    Account (ledgerOf (history ++ [⟨.open filename flags, ⟨value, []⟩⟩])) after file write := by
  have below := (kept.table.members write.fd).mp held.member
  have value_eq := effect.value_eq
  have different : write.fd ≠ value := by omega
  have successful := opened_not_failed effect
  apply account_same held
  · have grown := @descriptors_after_open history filename flags ⟨value, []⟩ successful
    change write.fd ∈ openDescriptors (history ++ [⟨.open filename flags, ⟨value, []⟩⟩])
    rw [grown]
    exact Finset.mem_insert_of_mem held.member
  · rw [ledger_of_snoc]
    simp only [record, recordOpen, if_neg successful]
    split_ifs
    · exact Function.update_of_ne different _ _
    · exact Function.update_of_ne different _ _
  · intro struct present
    obtain ⟨struct', present', first, last⟩ := chains struct present
    obtain ⟨counted, countedPresent, filesAfter⟩ := effect.refs
    rw [filesAfter]
    by_cases here : file = opened
    · subst here
      rw [countedPresent] at present'
      cases present'
      exact ⟨_, Heap.read_write_self _ (Heap.lt_next_of_read countedPresent), first, last⟩
    · exact ⟨struct', (Heap.read_write_of_ne _ here).trans present', first, last⟩
  · intro array blocks there
    rw [effect.blockArrays]
    exact there
  · intro buffer bytes there
    rw [effect.buffers]
    exact there
  · intro desc _ entry
    exact entry_after_opened effect entry below.1 different

theorem chains_after_create {filename : String} {files : Heap File}
    (created : linkOlder (fs.files.alloc (newFile garbage filename fs)) fs.fileList
      fs.files.next = .ok files) (struct : File) (present : fs.files.read file = some struct) :
    ∃ struct', files.read file = some struct' ∧ struct'.blockList = struct.blockList ∧
      struct'.lastBlock = struct.lastBlock := by
  have read := (linkOlder_ok created).2 file
  rw [Heap.read_alloc_of_read _ present] at read
  split_ifs at read with older
  · exact ⟨_, read, rfl, rfl⟩
  · exact ⟨_, read, rfl, rfl⟩

theorem account_elsewhere {fdno : Int} {buf : List Byte} {size fd written : Nat} {value : Int}
    {desc moved : Filedesc} {changed : File}
    (held : Account (ledgerOf history) fs file write) (elsewhere : file ≠ written)
    (descriptor : fs.filedescs.read fd = some desc)
    (target : desc.file = some written) (blocks : List Block) (bytes : List Byte) :
    Account (ledgerOf (history ++ [⟨.write fdno buf size, ⟨value, []⟩⟩])) { fs with
      files := fs.files.write written changed
      filedescs := fs.filedescs.write fd moved
      blockArrays := fs.blockArrays.alloc blocks
      buffers := fs.buffers.alloc bytes } file write := by
  apply account_same held
  · have same := @descriptors_after_write history fdno buf size ⟨value, []⟩
    change write.fd ∈ openDescriptors (history ++ [⟨.write fdno buf size, ⟨value, []⟩⟩])
    rw [same]
    exact held.member
  · rw [ledger_of_snoc]
    simp only [record, recordWrite]
    split_ifs <;> rfl
  · intro found there
    exact ⟨found, (Heap.read_write_of_ne _ elsewhere).trans there, rfl, rfl⟩
  · intro array found there
    exact Heap.read_alloc_of_read _ there
  · intro buffer found there
    exact Heap.read_alloc_of_read _ there
  · intro other leads entry
    apply entry_kept entry
    · rfl
    · intro address _ there
      have apart : address ≠ fd := by
        intro same
        rw [same, descriptor] at there
        cases there
        rw [target] at leads
        exact elsewhere (Option.some.inj leads).symm
      exact (Heap.read_write_of_ne _ apart).trans there

theorem account_written {fdno : Int} {buf : List Byte} {size fd sz : Nat} {desc : Filedesc}
    {struct : File} {loop : AllocateLoop} (passes : fdno ∈ openDescriptors history)
    (known : (ledgerOf history).target fdno = file) (nonempty : 1 ≤ size)
    (capped : sz = cappedSize size) (entry : fileDescriptorAt fs fdno = .ok (some fd))
    (descriptor : fs.filedescs.read fd = some desc) (target : desc.file = some file)
    (present : fs.files.read file = some struct)
    (rounds : allocateRounds buf sz fs.blockArrays.next fs.buffers.next (totalBlocks sz) =
      .ok loop) :
    Account (ledgerOf (history ++ [⟨.write fdno buf size, ⟨loop.totalWritten, []⟩⟩])) { fs with
      files := fs.files.write file { struct with
        blockList := some ⟨fs.blockArrays.next, 0⟩
        lastBlock := some ⟨fs.blockArrays.next, loop.lastBlock⟩ }
      filedescs := fs.filedescs.write fd { desc with offset := loop.totalWritten }
      blockArrays := fs.blockArrays.alloc loop.blockArray
      buffers := fs.buffers.alloc loop.buffer } file ⟨fdno, buf, size, loop.totalWritten⟩ := by
  have built := rounds_built rounds
  rw [capped] at built
  constructor
  · exact nonempty
  · simp only [built.totalWritten]
  · have same := @descriptors_after_write history fdno buf size ⟨loop.totalWritten, []⟩
    change fdno ∈ openDescriptors (history ++ [⟨.write fdno buf size, ⟨loop.totalWritten, []⟩⟩])
    rw [same]
    exact passes
  · rw [ledger_of_snoc, ← known]
    simp only [record, recordWrite]
    split_ifs <;> rfl
  · refine ⟨_, fs.blockArrays.next, fs.buffers.next,
      Heap.read_write_self _ (Heap.lt_next_of_read present), rfl, ?_, ?_⟩
    · rw [← built.lastBlock]
    · exact stores_of_built built rfl rfl
  · have moved : (fs.filedescs.write fd { desc with offset := loop.totalWritten }).read fd =
        some { desc with offset := loop.totalWritten } :=
      Heap.read_write_self _ (Heap.lt_next_of_read descriptor)
    exact ⟨_, entry_eq_ok.mpr ⟨fd, entry, moved⟩, target, rfl⟩

theorem account_unchanged {recorded : Ledger} (held : Account (ledgerOf history) fs file write)
    (descriptors : recorded.descriptors = (ledgerOf history).descriptors)
    (target : recorded.target = (ledgerOf history).target)
    (files : ∀ struct, fs.files.read file = some struct → ∃ struct',
      after.files.read file = some struct' ∧ struct'.blockList = struct.blockList ∧
        struct'.lastBlock = struct.lastBlock)
    (blockArrays : after.blockArrays = fs.blockArrays) (buffers : after.buffers = fs.buffers)
    (entry : ∀ desc, entryOf fs write.fd = .ok desc → entryOf after write.fd = .ok desc) :
    Account recorded after file write := by
  apply account_same held
  · rw [descriptors]
    exact held.member
  · rw [target]
  · exact files
  · intro array blocks there
    rw [blockArrays]
    exact there
  · intro buffer bytes there
    rw [buffers]
    exact there
  · intro desc _ found
    exact entry desc found

theorem accounts_after_open {filename : String} {flags : BitVec 32} {value : Int}
    (kept : Kept history fs) (held : AccountsKept history fs)
    (effect : OpenEffect garbage filename flags fs value after) :
    AccountsKept (history ++ [⟨.open filename flags, ⟨value, []⟩⟩]) after := by
  intro file write last
  rw [last_writes_snoc] at last
  have before := held file write last
  cases effect with
  | failed code =>
      apply account_unchanged before
      · rw [ledger_of_snoc]
        rfl
      · rw [ledger_of_snoc]
        rfl
      · exact fun struct present => ⟨struct, present, rfl, rfl⟩
      · rfl
      · rfl
      · exact fun desc entry => entry_after_failed_open entry
  | created creating absent created opened listed =>
      exact account_opened kept before opened (chains_after_create created)
  | existing opening found opened listed =>
      exact account_opened kept before opened fun struct present => ⟨struct, present, rfl, rfl⟩

theorem accounts_after_write {fdno value : Int} {buf : List Byte} {size : Nat}
    (kept : Kept history fs) (held : AccountsKept history fs) (nonempty : 1 ≤ size)
    (passes : fdno ∈ openDescriptors history) (effect : WriteEffect fdno buf size fs value after) :
    AccountsKept (history ++ [⟨.write fdno buf size, ⟨value, []⟩⟩]) after := by
  intro file write last
  rw [last_writes_snoc] at last
  cases effect with
  | failed code =>
      apply account_unchanged (held file write last)
      · rw [ledger_of_snoc]
        rfl
      · rw [ledger_of_snoc]
        rfl
      · exact fun struct present => ⟨struct, present, rfl, rfl⟩
      · rfl
      · rfl
      · exact fun desc entry => entry
  | @written fd written desc struct loop sz capped _ entry descriptor target present rounds =>
      have known := target_of_entry kept.recorded.descriptors passes entry descriptor target
      have successful : (loop.totalWritten : Int) ≠ -1 := by omega
      simp only [noteWrite, if_neg successful, known] at last
      by_cases here : file = written
      · subst here
        rw [Function.update_self] at last
        cases last
        exact account_written passes known nonempty capped entry descriptor target present rounds
      · rw [Function.update_of_ne here] at last
        exact account_elsewhere (held file write last) here descriptor target _ _

theorem accounts_after_delete {filename : String} {value : Int} (held : AccountsKept history fs)
    (effect : DeleteEffect filename fs value after) :
    AccountsKept (history ++ [⟨.delete filename, ⟨value, []⟩⟩]) after := by
  intro file write last
  rw [last_writes_snoc] at last
  have before := held file write last
  have descriptors : (ledgerOf (history ++ [⟨.delete filename, ⟨value, []⟩⟩])).descriptors =
      (ledgerOf history).descriptors := descriptors_after_delete
  have target : (ledgerOf (history ++ [⟨.delete filename, ⟨value, []⟩⟩])).target =
      (ledgerOf history).target := by
    rw [ledger_of_snoc]
    simp only [record, recordDelete]
    split_ifs <;> rfl
  cases effect with
  | absent missing =>
      exact account_unchanged before descriptors target
        (fun struct present => ⟨struct, present, rfl, rfl⟩) rfl rfl fun desc entry => entry
  | @deleted deleted struct found present =>
      apply account_unchanged before descriptors target
      · intro other there
        by_cases here : file = deleted
        · subst here
          rw [present] at there
          cases there
          exact ⟨_, Heap.read_write_self _ (Heap.lt_next_of_read present), rfl, rfl⟩
        · exact ⟨other, (Heap.read_write_of_ne _ here).trans there, rfl, rfl⟩
      · rfl
      · rfl
      · exact fun desc entry => entry

theorem accounts_step {call : Call} {reply : Reply} (kept : Kept history fs)
    (held : AccountsKept history fs) (unclosed : Unclosed call)
    (performed : perform garbage fs call = .ok (reply, after)) :
    AccountsKept (history ++ [⟨call, reply⟩]) after := by
  have safe := safe_of_performed kept.table unclosed performed
  cases perform_effect performed with
  | ofOpen effect => exact accounts_after_open kept held effect
  | ofWrite effect => exact accounts_after_write kept held unclosed safe.1 effect
  | ofDelete effect => exact accounts_after_delete held effect
  | ofRead effect => exact absurd unclosed id
  | ofClose effect => exact absurd unclosed id
  | ofSize effect => exact absurd unclosed id

end Steps

theorem run_accounts {history : History} {fs : FsState}
    (run : Run (perform garbage) UnclosedCalls initial history fs) :
    Kept history fs ∧ AccountsKept history fs := by
  apply run_invariant (fun history fs => Kept history fs ∧ AccountsKept history fs) _ _ run
  · refine ⟨kept_initial, ?_⟩
    intro file write last
    cases last
  · intro history before call reply after held unclosed performed
    exact ⟨kept_step held.1 unclosed performed,
      accounts_step held.1 held.2 unclosed performed⟩

theorem capped_pos {size : Nat} (nonempty : 1 ≤ size) : 1 ≤ cappedSize size := by
  unfold cappedSize maxFileSize
  split_ifs <;> omega

/-- In every state that a run without closes reaches, the chain of each file
written so far is well formed for the size of its last write, and all accounts
of that size agree. -/
theorem chains_well_formed {history : History} {fs : FsState} {file : Nat} {write : LastWrite}
    (run : Run (perform garbage) UnclosedCalls initial history fs)
    (last : lastWrites history file = some write) :
    ∃ struct chain, fs.files.read file = some struct ∧
      chainBlocks fs (blockCount fs) struct.blockList = .ok chain ∧
      WellFormedChain (cappedSize write.size) struct.lastBlock chain ∧
      AccountsAgree history fs file write chain := by
  obtain ⟨kept, accounts⟩ := run_accounts run
  have account := accounts file write last
  obtain ⟨struct, array, buffer, present, first, lastBlock, stores⟩ := account.chain
  obtain ⟨desc, entry, _, offset⟩ := account.offset
  have summed := @built_chain_sum array buffer (cappedSize write.size)
  refine ⟨struct, builtChain array buffer (cappedSize write.size), present, ?_, ?_, ?_⟩
  · rw [first]
    exact chain_blocks_of_stored stores
  · rw [lastBlock]
    exact built_chain_well_formed (capped_pos account.nonempty)
  · constructor
    · rw [summed]
      exact account.value
    · exact ⟨desc, entry, by rw [summed, offset, account.value]⟩
    · intro fdno isOpen target
      obtain ⟨other, otherEntry, leads⟩ := entry_of_open kept isOpen
      obtain ⟨address, looked, descriptor⟩ := entry_eq_ok.mp otherEntry
      rw [target] at leads
      rw [summed]
      exact file_size_of_stored looked descriptor leads present first stores
    · refine ⟨_, content_of_stored present first stores, ?_, ?_⟩
      · rw [List.length_take_of_le stores.long, summed]
      · have shorter := stored_length_le (cappedSize write.size)
        have prefixes : (write.buf.take (cappedSize write.size)).take
            (storedLength (cappedSize write.size)) =
              write.buf.take (storedLength (cappedSize write.size)) := by
          rw [List.take_take, Nat.min_eq_left shorter]
        rw [← prefixes]
        exact List.take_prefix _ _

def writtenTwice : Option (History × FsState) :=
  replay (perform zeroGarbage) UnclosedCalls
    [.open "a" (ufsCreate ||| ufsReadWrite), .open "a" ufsWriteOnly, .write 0 [1, 2, 3] 3,
      .write 1 (List.replicate 20 7) 20] [] initial

theorem twenty_bytes_in_three_blocks : ∃ history fs chain write, ∃ struct : File,
    Run (perform zeroGarbage) UnclosedCalls initial history fs ∧
      chainBlocks fs (blockCount fs) struct.blockList = .ok chain ∧
      WellFormedChain 20 struct.lastBlock chain ∧ AccountsAgree history fs 0 write chain := by
  have noted : (writtenTwice.bind fun final => (lastWrites final.1 0).map LastWrite.size) =
      some 20 := by decide
  cases replayed : writtenTwice with
  | none => simp [replayed] at noted
  | some final =>
      rcases final with ⟨history, fs⟩
      simp only [replayed, Option.bind_some, Option.map_eq_some_iff] at noted
      obtain ⟨write, last, size⟩ := noted
      have run := run_of_replay .start replayed
      obtain ⟨struct, chain, _, walked, wellFormed, agree⟩ := chains_well_formed run last
      rw [size] at wellFormed
      exact ⟨history, fs, chain, write, struct, run, walked, wellFormed, agree⟩

end Sysprog.Userfs.BlockChains
