import Sysprog.Userfs.FileIsolation
import Sysprog.Userfs.Reads

/-!
# The offset and the assertion of a read

`read_data` asserts that the offset equals the bytes read. In every state that
opens, writes and reads of written files reach, a read passes this assertion
exactly when its descriptor had one particular offset before the call.
-/

namespace Sysprog.Userfs.ReadOffsets

open CheckedRuns Memory Blocks Calls ClientLedger DescriptorNumbers StoredContent
open RecordedDescriptors FileLifetime FileIsolation WrittenBytes Reads

set_option autoImplicit false

variable {garbage : Garbage}

def modeAllows (fs : FsState) (fdno : Int) (bit : BitVec 32) : Bool :=
  match entryOf fs fdno with
  | .error _ => false
  | .ok desc => decide (desc.mode &&& bit ≠ 0 ∨ desc.mode &&& ufsReadWrite ≠ 0)

def currentSize (fs : FsState) (fdno : Int) : Int :=
  match fileSize fdno fs with
  | .error _ => -1
  | .ok result => result.1

/-- Opens, writes that are not empty and reads of written files that ask for
no more than there is, through open descriptors of a suitable mode. -/
def SuitableCalls (history : History) (fs : FsState) : Call → Prop
  | .open _ _ => True
  | .write fd _ size => fd ∈ openDescriptors history ∧ modeAllows fs fd ufsWriteOnly ∧ 1 ≤ size
  | .read fd buf size => fd ∈ openDescriptors history ∧ modeAllows fs fd ufsReadOnly ∧
      (ledgerOf history).content ((ledgerOf history).target fd) ≠ none ∧
      (size : Int) ≤ currentSize fs fd ∧ size ≤ buf.length
  | _ => False

instance (history : History) (fs : FsState) : (call : Call) →
    Decidable (SuitableCalls history fs call)
  | .open _ _ => .isTrue trivial
  | .write _ _ _ => inferInstanceAs (Decidable (_ ∧ _ ∧ _))
  | .read _ _ _ => inferInstanceAs (Decidable (_ ∧ _ ∧ _ ∧ _ ∧ _))
  | .close _ => .isFalse id
  | .delete _ => .isFalse id
  | .size _ => .isFalse id

/-- The offset a read of `size` bytes out of `held` has to start with: 0, but
for a read that ends in the last block after a full one. -/
def neededOffset (held size : Int) : Int :=
  if blockSize ≤ held ∧ size / blockSize = held / blockSize then blockSize - held % blockSize
  else 0

def OffsetFits (fs : FsState) (fdno : Int) (size : Nat) : Prop :=
  ∃ desc, entryOf fs fdno = .ok desc ∧ desc.offset = neededOffset (currentSize fs fdno) size

def AssertionHolds (fs : FsState) (fdno : Int) (buf : List Byte) (size : Nat) : Prop :=
  ufsRead fdno buf size fs ≠ .error .assertionFailed

theorem suitable_safe {history : History} {fs : FsState} {call : Call}
    (suitable : SuitableCalls history fs call) : SafeCloses history fs call := by
  cases call with
  | «open» filename flags => exact ⟨trivial, trivial⟩
  | write fd buf size => exact ⟨suitable.1, trivial⟩
  | read fd buf size => exact ⟨suitable.1, trivial⟩
  | close fd => exact absurd suitable id
  | delete filename => exact absurd suitable id
  | size fd => exact absurd suitable id

theorem reader_of_suitable {history : History} {fs : FsState} {fdno : Int} {buf : List Byte}
    {size : Nat} (run : Run (perform garbage) SuitableCalls initial history fs)
    (suitable : SuitableCalls history fs (.read fdno buf size)) :
    ∃ fd file desc struct array stored data, OpenForReading fs fdno fd file desc ∧
      fs.files.read file = some struct ∧ struct.blockList = some ⟨array, 0⟩ ∧
      Stores fs array array stored data ∧ currentSize fs fdno = storedLength stored := by
  have safe := run_weaken (fun _ _ _ suitable => suitable_safe suitable) run
  obtain ⟨recorded, _, contents⟩ := run_invariants safe
  obtain ⟨isOpen, allowed, written, _, _⟩ := suitable
  obtain ⟨fd, entry, desc, descriptor, target⟩ := recorded.descriptors.leads fdno isOpen
  obtain ⟨struct, present⟩ := recorded.descriptors.allocated fdno isOpen
  obtain ⟨bytes, recordedBytes⟩ := Option.ne_none_iff_exists'.mp written
  obtain ⟨array, stored, data, first, stores, _⟩ :=
    contents.stored _ bytes struct recordedBytes present
  have found : entryOf fs fdno = .ok desc := entry_eq_ok.mpr ⟨fd, entry, descriptor⟩
  have mode : desc.mode &&& ufsReadOnly ≠ 0 ∨ desc.mode &&& ufsReadWrite ≠ 0 := by
    simpa [modeAllows, found] using allowed
  have counted := file_size_of_stored entry descriptor target present first stores
  refine ⟨fd, _, desc, struct, array, stored, data, ⟨entry, descriptor, mode, target⟩, present,
    first, stores, ?_⟩
  rw [currentSize, counted]

theorem needed_offset_advanced {stored size : Nat} (within : size ≤ storedLength stored) :
    neededOffset (storedLength stored) size + advanced stored (size / blockSize) =
      blockSize * (size / blockSize) := by
  obtain ⟨blocks, remainder⟩ := stored_length_parts stored
  have inside : size / blockSize < totalBlocks stored := by
    unfold blockSize at *
    omega
  unfold neededOffset
  by_cases place : size / blockSize + 1 < totalBlocks stored ∨ size / blockSize = 0
  · have elsewhere : ¬ ((blockSize : Int) ≤ storedLength stored ∧
        (size : Int) / blockSize = (storedLength stored : Int) / blockSize) := by
      unfold blockSize at *
      omega
    rw [if_neg elsewhere, (advanced_agrees inside).mpr place]
    unfold blockSize
    omega
  · rw [not_or] at place
    have last : size / blockSize + 1 = totalBlocks stored := by
      exact Nat.le_antisymm inside (Nat.not_lt.mp place.1)
    have behind := advanced_last last (Nat.one_le_iff_ne_zero.mpr place.2)
    have here : (blockSize : Int) ≤ storedLength stored ∧
        (size : Int) / blockSize = (storedLength stored : Int) / blockSize := by
      unfold blockSize at *
      omega
    rw [if_pos here]
    unfold blockSize at *
    omega

/-- In every state reached, a read passes its assertion exactly when the
offset of its descriptor is the one needed, and then it returns. -/
theorem assertion_holds_iff_offset_fits {history : History} {fs : FsState} {fdno : Int}
    {buf : List Byte} {size : Nat} (run : Run (perform garbage) SuitableCalls initial history fs)
    (suitable : SuitableCalls history fs (.read fdno buf size)) :
    (AssertionHolds fs fdno buf size ↔ OffsetFits fs fdno size) ∧
      (OffsetFits fs fdno size → ∃ result, ufsRead fdno buf size fs = .ok result) := by
  obtain ⟨fd, file, desc, struct, array, stored, data, readable, present, first, stores, counted⟩ :=
    reader_of_suitable run suitable
  obtain ⟨_, _, _, within, room⟩ := suitable
  rw [counted] at within
  have short : size ≤ storedLength stored := by omega
  have inside : size / blockSize < totalBlocks stored := by
    have parts := (stored_length_parts stored).1
    unfold blockSize at *
    omega
  obtain ⟨copied, after, result, _⟩ := @read_inside fs fdno fd file array array stored size desc
    struct data buf readable present first stores inside room
  have needed := needed_offset_advanced short
  have entry : entryOf fs fdno = .ok desc :=
    entry_eq_ok.mpr ⟨fd, readable.entry, readable.descriptor⟩
  have fits : OffsetFits fs fdno size ↔
      desc.offset + advanced stored (size / blockSize) = blockSize * (size / blockSize) := by
    constructor
    · intro fits
      obtain ⟨found, foundEntry, offset⟩ := fits
      rw [entry] at foundEntry
      cases foundEntry
      rw [offset, counted]
      exact needed
    · intro agreed
      refine ⟨desc, entry, ?_⟩
      rw [counted]
      omega
  rw [fits]
  constructor
  · constructor
    · intro held
      by_contra apart
      exact held (by rw [result, if_neg apart])
    · intro agreed failed
      rw [result, if_pos agreed] at failed
      cases failed
  · intro agreed
    exact ⟨_, by rw [result, if_pos agreed]⟩

def writtenByOther : Option (History × FsState) :=
  replay (perform zeroGarbage) SuitableCalls
    [.open "a" (ufsCreate ||| ufsReadWrite), .open "a" ufsReadOnly, .write 0 twentyBytes 20]
    [] initial

theorem other_descriptor_reads :
    ∃ history fs, Run (perform zeroGarbage) SuitableCalls initial history fs ∧
      SuitableCalls history fs (.read 1 (List.replicate 12 0) 12) ∧
      AssertionHolds fs 1 (List.replicate 12 0) 12 := by
  have permitted : (writtenByOther.map fun final =>
      decide (SuitableCalls final.1 final.2 (.read 1 (List.replicate 12 0) 12))) = some true := by
    decide
  have start : (writtenByOther.map fun final =>
      ((entryOf final.2 1).toOption.map Filedesc.offset, currentSize final.2 1)) =
      some (some 0, 20) := by decide
  cases replayed : writtenByOther with
  | none => simp [replayed] at permitted
  | some final =>
      rcases final with ⟨history, fs⟩
      simp only [replayed, Option.map_some, Option.some.injEq, decide_eq_true_eq,
        Prod.mk.injEq] at permitted start
      have run := run_of_replay .start replayed
      cases entry : entryOf fs 1 with
      | error halt => simp [entry, Except.toOption] at start
      | ok desc =>
          simp only [entry, Except.toOption, Option.map_some, Option.some.injEq] at start
          refine ⟨history, fs, run, permitted,
            (assertion_holds_iff_offset_fits run permitted).1.mpr ⟨desc, entry, ?_⟩⟩
          rw [start.1, start.2]
          decide

def writtenBySame : Option (History × FsState) :=
  replay (perform zeroGarbage) SuitableCalls
    [.open "a" (ufsCreate ||| ufsReadWrite), .write 0 [1, 2, 3, 4, 5] 5] [] initial

def assertionFails (fs : FsState) (fdno : Int) (buf : List Byte) (size : Nat) : Bool :=
  match ufsRead fdno buf size fs with
  | .error .assertionFailed => true
  | _ => false

theorem same_descriptor_fails :
    ∃ history fs, Run (perform zeroGarbage) SuitableCalls initial history fs ∧
      SuitableCalls history fs (.read 0 [0, 0, 0, 0, 0] 5) ∧
      ¬ AssertionHolds fs 0 [0, 0, 0, 0, 0] 5 := by
  have permitted : (writtenBySame.map fun final =>
      decide (SuitableCalls final.1 final.2 (.read 0 [0, 0, 0, 0, 0] 5))) = some true := by decide
  have fails : (writtenBySame.map fun final => assertionFails final.2 0 [0, 0, 0, 0, 0] 5) =
      some true := by decide
  cases replayed : writtenBySame with
  | none => simp [replayed] at permitted
  | some final =>
      rcases final with ⟨history, fs⟩
      simp only [replayed, Option.map_some, Option.some.injEq, decide_eq_true_eq] at permitted fails
      refine ⟨history, fs, run_of_replay .start replayed, permitted, ?_⟩
      intro holds
      apply holds
      unfold assertionFails at fails
      split at fails
      · assumption
      · cases fails

end Sysprog.Userfs.ReadOffsets
