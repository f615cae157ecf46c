import Sysprog.Userfs.ClientLedger

/-!
# Descriptor numbers

`ufs_open` hands out the value of `file_descriptor_count`, which every
`ufs_close` lowers, whichever descriptor it closes. The number is free exactly
while the count of open descriptors is not itself the number of one.
-/

namespace Sysprog.Userfs.DescriptorNumbers

open CheckedRuns Memory Blocks Calls CallEffects ClientLedger

set_option autoImplicit false

variable {garbage : Garbage}

abbrev openDescriptors (history : History) : Finset Int := (ledgerOf history).descriptors

def entryOf (fs : FsState) (fdno : Int) : Except Halt Filedesc := do
  let pointer ← fileDescriptorAt fs fdno
  deref fs.filedescs pointer

/-- What is asked of a successful `ufs_open`: a number that is not in use, and
the other open descriptors as they were. -/
def OpensFresh (history : History) (fs after : FsState) (fdno : Int) : Prop :=
  fdno ∉ openDescriptors history ∧
    ∀ other ∈ openDescriptors history, entryOf after other = entryOf fs other

/-- Before an `ufs_open`: the number of open descriptors is not the number of
an open descriptor. -/
def CountUnused (history : History) : Call → Prop
  | .open _ _ => ((openDescriptors history).card : Int) ∉ openDescriptors history
  | _ => True

instance (history : History) : (call : Call) → Decidable (CountUnused history call)
  | .open _ _ => inferInstanceAs
      (Decidable (((openDescriptors history).card : Int) ∉ openDescriptors history))
  | .write _ _ _ => .isTrue trivial
  | .read _ _ _ => .isTrue trivial
  | .close _ => .isTrue trivial
  | .delete _ => .isTrue trivial
  | .size _ => .isTrue trivial

def CountedCalls (history : History) (_ : FsState) (call : Call) : Prop :=
  PassesOpen history call ∧ CountUnused history call

instance (history : History) (fs : FsState) (call : Call) :
    Decidable (CountedCalls history fs call) :=
  inferInstanceAs (Decidable (_ ∧ _))

def TableBelow (table : List Slot) (bound : Nat) : Prop :=
  ∀ (index address : Nat), table[index]? = some (.filedesc address) → address < bound

structure Compact (history : History) (fs : FsState) : Prop where
  count : fs.fileDescriptorCount = (openDescriptors history).card
  nonneg : ∀ fdno ∈ openDescriptors history, 0 ≤ fdno
  below : TableBelow fs.fileDescriptors fs.filedescs.next

theorem compact_initial : Compact [] initial := by
  refine ⟨rfl, ?_, ?_⟩
  · intro fdno absent
    exact absurd absent (Finset.notMem_empty fdno)
  · intro index address entry
    have unset : (initial.fileDescriptors)[index]? = none ∨
        (initial.fileDescriptors)[index]? = some .unset := by
      by_cases inside : index < fileDescriptorCapacity
      · right
        simp [initial, inside]
      · left
        simp [initial, inside]
    rcases unset with unset | unset <;> rw [unset] at entry <;> cases entry

theorem tableBelow_mono {table : List Slot} {bound larger : Nat} (below : TableBelow table bound)
    (grown : bound ≤ larger) : TableBelow table larger :=
  fun index address entry => Nat.lt_of_lt_of_le (below index address entry) grown

theorem tableBelow_set {table : List Slot} {bound index : Nat} (below : TableBelow table bound) :
    TableBelow (table.set index (.filedesc bound)) (bound + 1) := by
  intro other address entry
  by_cases same : index = other
  · subst same
    have inside : index < table.length := by
      have inSet := (List.getElem?_eq_some_iff.mp entry).1
      simpa using inSet
    simp only [List.getElem?_set_self inside, Option.some.injEq, Slot.filedesc.injEq] at entry
    omega
  · rw [List.getElem?_set_ne same] at entry
    exact Nat.lt_succ_of_lt (below other address entry)

theorem pointer_of_opened {fs after : FsState} {files : Heap File} {file : Nat}
    {offset value other : Int} {flags : BitVec 32}
    (opened : Opened garbage fs after files file offset flags value)
    (nonneg : 0 ≤ other) (different : other ≠ value) :
    fileDescriptorAt after other = fileDescriptorAt fs other := by
  have apart : fs.fileDescriptorCount.toNat ≠ other.toNat := by
    have value_eq := opened.value_eq
    have count_nonneg := opened.nonneg
    omega
  have sameSlot : after.fileDescriptors[other.toNat]? = fs.fileDescriptors[other.toNat]? := by
    rw [opened.table, List.getElem?_set_ne apart]
  simp only [fileDescriptorAt, sameSlot]

theorem filedesc_of_opened {fs after : FsState} {files : Heap File} {file address : Nat}
    {offset value : Int} {flags : BitVec 32}
    (opened : Opened garbage fs after files file offset flags value)
    (bound : address < fs.filedescs.next) :
    after.filedescs.read address = fs.filedescs.read address := by
  rw [opened.filedescs, Heap.read_write_of_ne _ (Nat.ne_of_lt bound),
    Heap.read_alloc_of_ne _ (Nat.ne_of_lt bound)]

theorem entry_of_opened {fs after : FsState} {files : Heap File} {file : Nat}
    {offset value other : Int} {flags : BitVec 32}
    (opened : Opened garbage fs after files file offset flags value)
    (below : TableBelow fs.fileDescriptors fs.filedescs.next)
    (nonneg : 0 ≤ other) (different : other ≠ value) :
    entryOf after other = entryOf fs other := by
  unfold entryOf
  rw [pointer_of_opened opened nonneg different]
  cases pointer : fileDescriptorAt fs other with
  | error halt => rfl
  | ok found =>
      cases found with
      | none => rfl
      | some address =>
          have bound := below _ _ (fileDescriptorAt_eq_some.mp pointer).2
          have sameStruct := filedesc_of_opened opened bound
          change deref after.filedescs (some address) = deref fs.filedescs (some address)
          simp only [deref, sameStruct]

theorem opened_not_failed {fs after : FsState} {files : Heap File} {file : Nat}
    {offset value : Int} {flags : BitVec 32}
    (opened : Opened garbage fs after files file offset flags value) : value ≠ -1 := by
  have value_eq := opened.value_eq
  have nonneg := opened.nonneg
  omega

theorem descriptors_after_open {history : History} {filename : String} {flags : BitVec 32}
    {reply : Reply} (successful : reply.value ≠ -1) :
    openDescriptors (history ++ [⟨.open filename flags, reply⟩]) =
      insert reply.value (openDescriptors history) := by
  simp only [openDescriptors, ledger_of_snoc, record, recordOpen, if_neg successful]
  split_ifs <;> rfl

theorem descriptors_after_failed_open {history : History} {filename : String}
    {flags : BitVec 32} {buffer : List Byte} :
    openDescriptors (history ++ [⟨.open filename flags, ⟨-1, buffer⟩⟩]) =
      openDescriptors history := by
  simp [openDescriptors, record, recordOpen]

theorem descriptors_after_write {history : History} {fd : Int} {buf : List Byte} {size : Nat}
    {reply : Reply} :
    openDescriptors (history ++ [⟨.write fd buf size, reply⟩]) = openDescriptors history := by
  simp only [openDescriptors, ledger_of_snoc, record, recordWrite]
  split_ifs <;> rfl

theorem descriptors_after_delete {history : History} {filename : String} {reply : Reply} :
    openDescriptors (history ++ [⟨.delete filename, reply⟩]) = openDescriptors history := by
  simp only [openDescriptors, ledger_of_snoc, record, recordDelete]
  split_ifs <;> rfl

theorem descriptors_after_read {history : History} {fd : Int} {buf : List Byte} {size : Nat}
    {reply : Reply} :
    openDescriptors (history ++ [⟨.read fd buf size, reply⟩]) = openDescriptors history := by
  simp [openDescriptors, record]

theorem descriptors_after_size {history : History} {fd : Int} {reply : Reply} :
    openDescriptors (history ++ [⟨.size fd, reply⟩]) = openDescriptors history := by
  simp [openDescriptors, record]

/-- The open that returns a fresh number keeps the count and the table in step
with the set of open descriptors. -/
theorem opened_compact {history : History} {fs after : FsState} {files : Heap File} {file : Nat}
    {offset value : Int} {flags passed : BitVec 32} {filename : String} {buffer : List Byte}
    (compact : Compact history fs)
    (opened : Opened garbage fs after files file offset passed value)
    (fresh : value ∉ openDescriptors history) :
    Compact (history ++ [⟨.open filename flags, ⟨value, buffer⟩⟩]) after := by
  have recorded : openDescriptors (history ++ [⟨.open filename flags, ⟨value, buffer⟩⟩]) =
      insert value (openDescriptors history) :=
    descriptors_after_open (opened_not_failed opened)
  constructor
  · rw [recorded, Finset.card_insert_of_notMem fresh, opened.count, compact.count]
    push_cast
    rfl
  · intro fdno member
    rw [recorded, Finset.mem_insert] at member
    rcases member with rfl | member
    · have nonneg := opened.nonneg
      rw [← opened.value_eq] at nonneg
      exact nonneg
    · exact compact.nonneg fdno member
  · rw [opened.table, opened.filedescs, Heap.next_write, Heap.next_alloc]
    exact tableBelow_set compact.below

theorem closed_compact {history : History} {fs after : FsState} {fdno : Int}
    {buffer : List Byte} (compact : Compact history fs) (isOpen : fdno ∈ openDescriptors history)
    (table : after.fileDescriptors = fs.fileDescriptors)
    (count : after.fileDescriptorCount = fs.fileDescriptorCount - 1)
    (heap : after.filedescs.next = fs.filedescs.next) :
    Compact (history ++ [⟨.close fdno, ⟨0, buffer⟩⟩]) after := by
  have recorded : openDescriptors (history ++ [⟨.close fdno, ⟨0, buffer⟩⟩]) =
      (openDescriptors history).erase fdno := by
    simp [openDescriptors, record, recordClose]
  have positive : 0 < (openDescriptors history).card := Finset.card_pos.mpr ⟨fdno, isOpen⟩
  constructor
  · rw [recorded, Finset.card_erase_of_mem isOpen, count, compact.count]
    omega
  · intro other member
    rw [recorded] at member
    exact compact.nonneg other (Finset.mem_of_mem_erase member)
  · rw [table, heap]
    exact compact.below

theorem unchanged_compact {history : History} {fs after : FsState} {event : Event Call Reply}
    (compact : Compact history fs)
    (recorded : openDescriptors (history ++ [event]) = openDescriptors history)
    (table : after.fileDescriptors = fs.fileDescriptors)
    (count : after.fileDescriptorCount = fs.fileDescriptorCount)
    (heap : fs.filedescs.next ≤ after.filedescs.next) :
    Compact (history ++ [event]) after := by
  constructor
  · rw [recorded, count]
    exact compact.count
  · rw [recorded]
    exact compact.nonneg
  · rw [table]
    exact tableBelow_mono compact.below heap

/-- One step: every permitted call that returns keeps the count of the table
equal to the number of open descriptors. -/
theorem compact_step (history : History) (fs : FsState) (call : Call) (reply : Reply)
    (after : FsState) (compact : Compact history fs) (permitted : CountedCalls history fs call)
    (performed : perform garbage fs call = .ok (reply, after)) :
    Compact (history ++ [⟨call, reply⟩]) after := by
  rcases permitted with ⟨passes, unused⟩
  cases perform_effect performed with
  | ofOpen effect =>
      have free : fs.fileDescriptorCount ∉ openDescriptors history := by
        rw [compact.count]
        exact unused
      cases effect with
      | failed code =>
          exact unchanged_compact compact descriptors_after_failed_open rfl rfl
            (by simp [openFailure, fail])
      | created creating absent linked opened listed =>
          exact opened_compact compact opened (opened.value_eq ▸ free)
      | existing opening found opened listed =>
          exact opened_compact compact opened (opened.value_eq ▸ free)
  | ofWrite effect =>
      cases effect with
      | failed code => exact unchanged_compact compact descriptors_after_write rfl rfl le_rfl
      | written =>
          exact unchanged_compact compact descriptors_after_write rfl rfl (by simp)
  | ofRead effect =>
      cases effect with
      | failed code => exact unchanged_compact compact descriptors_after_read rfl rfl le_rfl
      | moved => exact unchanged_compact compact descriptors_after_read rfl rfl (by simp)
  | ofClose effect =>
      cases effect with
      | failed code =>
          exact unchanged_compact compact (by simp [openDescriptors, record, recordClose])
            rfl rfl le_rfl
      | kept => exact closed_compact compact passes rfl rfl (by simp)
      | released entry descriptor target present last deallocated =>
          obtain ⟨table, count, heap, _, _⟩ := deallocateFile_frame deallocated
          exact closed_compact compact passes table (by simp [count]) (by simp [heap])
  | ofDelete effect =>
      cases effect <;> exact unchanged_compact compact descriptors_after_delete rfl rfl le_rfl
  | ofSize effect =>
      rcases effect with rfl | rfl <;>
        exact unchanged_compact compact descriptors_after_size rfl rfl le_rfl

theorem run_compact {history : History} {fs : FsState}
    (run : Run (perform garbage) CountedCalls initial history fs) : Compact history fs :=
  run_invariant Compact compact_initial compact_step run

/-- In every run whose opens so far met the condition, the next successful
`ufs_open` returns an unused number and keeps the other descriptors exactly
when it meets the condition too. -/
theorem open_fresh_iff_count_unused {history : History} {fs after : FsState} {filename : String}
    {flags : BitVec 32} {fdno : Int}
    (run : Run (perform garbage) CountedCalls initial history fs)
    (opened : ufsOpen garbage filename flags fs = .ok (fdno, after)) (successful : fdno ≠ -1) :
    OpensFresh history fs after fdno ↔ CountUnused history (.open filename flags) := by
  have compact := run_compact run
  have isCount : ∀ {files : Heap File} {file : Nat} {offset : Int} {passed : BitVec 32},
      Opened garbage fs after files file offset passed fdno →
      (OpensFresh history fs after fdno ↔ CountUnused history (.open filename flags)) := by
    intro files file offset passed effect
    have number : fdno = (openDescriptors history).card := effect.value_eq.trans compact.count
    constructor
    · intro fresh
      change ((openDescriptors history).card : Int) ∉ openDescriptors history
      rw [← number]
      exact fresh.1
    · intro unused
      have free : fdno ∉ openDescriptors history := by
        rw [number]
        exact unused
      refine ⟨free, ?_⟩
      intro other member
      exact entry_of_opened effect compact.below (compact.nonneg other member)
        (fun same => free (same ▸ member))
  cases ufsOpen_effect opened with
  | failed code => exact absurd rfl successful
  | created _ _ _ effect _ => exact isCount effect
  | existing _ _ effect _ => exact isCount effect

/-- What `malloc` leaves when it happens to hand out zeroed memory. -/
def zeroGarbage : Garbage where
  file := fun _ => ⟨none, none, 0, none, none, none⟩
  filedesc := fun _ => ⟨none, 0, 0⟩

def createB (fs : FsState) : Except Halt (Int × FsState) :=
  ufsOpen zeroGarbage "b" (ufsCreate ||| ufsReadWrite) fs

def lastClosed : Option (History × FsState) :=
  replay (perform zeroGarbage) CountedCalls
    [.open "a" (ufsCreate ||| ufsReadWrite), .open "a" ufsReadWrite, .close 1] [] initial

theorem open_fresh_after_last_closed :
    ∃ history fs after, Run (perform zeroGarbage) CountedCalls initial history fs ∧
      openDescriptors history = {0} ∧
      CountUnused history (.open "b" (ufsCreate ||| ufsReadWrite)) ∧
      createB fs = .ok (1, after) ∧ OpensFresh history fs after 1 := by
  have returned : (lastClosed.bind fun final => (createB final.2).toOption.map Prod.fst) =
      some 1 := by decide
  have open0 : (lastClosed.map fun final => openDescriptors final.1) = some {0} := by decide
  have unused : (lastClosed.map fun final =>
      decide (CountUnused final.1 (.open "b" (ufsCreate ||| ufsReadWrite)))) = some true := by
    decide
  cases replayed : lastClosed with
  | none => simp [replayed] at returned
  | some final =>
      rcases final with ⟨history, fs⟩
      simp only [replayed, Option.bind_some, Option.map_some, Option.some.injEq,
        decide_eq_true_eq] at returned open0 unused
      have run := run_of_replay .start replayed
      cases done : createB fs with
      | error halt => simp [done, Except.toOption] at returned
      | ok result =>
          rcases result with ⟨fdno, after⟩
          simp only [done, Except.toOption, Option.map_some, Option.some.injEq] at returned
          subst returned
          exact ⟨history, fs, after, run, open0, unused, done,
            (open_fresh_iff_count_unused run done (by decide)).mpr unused⟩

/-- The calls of a client that passes open descriptors only and never has
more than the table holds. -/
def ClientCalls (history : History) (_ : FsState) (call : Call) : Prop :=
  PassesOpen history call ∧ (openDescriptors history).card < fileDescriptorCapacity

instance (history : History) (fs : FsState) (call : Call) :
    Decidable (ClientCalls history fs call) :=
  inferInstanceAs (Decidable (_ ∧ _))

def firstClosed : Option (History × FsState) :=
  replay (perform zeroGarbage) ClientCalls
    [.open "a" (ufsCreate ||| ufsReadWrite), .open "a" ufsReadWrite, .close 0] [] initial

/-- After the first of two descriptors is closed, creating `b` returns 1 while
descriptor 1 is still open on `a`. -/
theorem open_returns_open_number :
    ∃ history fs after, Run (perform zeroGarbage) ClientCalls initial history fs ∧
      createB fs = .ok (1, after) ∧ ¬ OpensFresh history fs after 1 := by
  have returned : (firstClosed.bind fun final => (createB final.2).toOption.map Prod.fst) =
      some 1 := by decide
  have stillOpen : (firstClosed.map fun final => decide (1 ∈ openDescriptors final.1)) =
      some true := by decide
  cases replayed : firstClosed with
  | none => simp [replayed] at returned
  | some final =>
      rcases final with ⟨history, fs⟩
      simp only [replayed, Option.bind_some, Option.map_some, Option.some.injEq,
        decide_eq_true_eq] at returned stillOpen
      cases done : createB fs with
      | error halt => simp [done, Except.toOption] at returned
      | ok result =>
          rcases result with ⟨fdno, after⟩
          simp only [done, Except.toOption, Option.map_some, Option.some.injEq] at returned
          subst returned
          exact ⟨history, fs, after, run_of_replay .start replayed, done,
            fun fresh => fresh.1 stillOpen⟩

end Sysprog.Userfs.DescriptorNumbers
