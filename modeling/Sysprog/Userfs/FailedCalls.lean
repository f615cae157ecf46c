import Sysprog.Userfs.DescriptorNumbers

/-!
# Calls that fail

A call that returns -1 sets the error code and prints its message. `ufs_open`
has then freed the `struct filedesc` it began with, and no other cell of the
memory has changed.
-/

namespace Sysprog.Userfs.FailedCalls

open CheckedRuns Memory Blocks Calls CallEffects
open DescriptorNumbers (opened_not_failed zeroGarbage)

set_option autoImplicit false

variable {garbage : Garbage}

structure SameButError (fs after : FsState) : Prop where
  fileList : after.fileList = fs.fileList
  fileDescriptors : after.fileDescriptors = fs.fileDescriptors
  fileDescriptorCount : after.fileDescriptorCount = fs.fileDescriptorCount
  files : ∀ address, after.files.read address = fs.files.read address
  filedescs : ∀ address, after.filedescs.read address = fs.filedescs.read address
  blockArrays : ∀ address, after.blockArrays.read address = fs.blockArrays.read address
  buffers : ∀ address, after.buffers.read address = fs.buffers.read address

theorem same_of_eq (fs : FsState) : SameButError fs fs := by
  constructor <;> intros <;> rfl

theorem same_after_fail (code : UfsErrorCode) (fs : FsState) : SameButError fs (fail code fs).2 := by
  constructor <;> intros <;> rfl

/-- The `struct filedesc` of a failing `ufs_open` leaves nothing behind. -/
theorem read_alloc_release {Value : Type} (heap : Heap Value) (value : Value) (address : Nat) :
    ((heap.alloc value).release heap.next).read address = heap.read address := by
  by_cases own : address = heap.next
  · rw [own, Heap.read_release_self, Heap.read_of_next_le (Nat.le_refl _)]
  · rw [Heap.read_release_of_ne own, Heap.read_alloc_of_ne value own]

theorem same_after_open_failure (code : UfsErrorCode) (fs : FsState) :
    SameButError fs (openFailure garbage code fs) := by
  constructor
  · rfl
  · rfl
  · rfl
  · exact fun _ => rfl
  · exact fun address => read_alloc_release fs.filedescs _ address
  · exact fun _ => rfl
  · exact fun _ => rfl

/-- The number of bytes read is not negative, so -1 is an error. -/
theorem read_failed {fdno : Int} {buf filled : List Byte} {size : Nat} {fs after : FsState}
    (done : ufsRead fdno buf size fs = .ok (-1, filled, after)) :
    ∃ code, after = (fail code fs).2 := by
  obtain ⟨entry, looked, rest⟩ := bind_eq_ok.mp done
  cases entry with
  | none =>
      cases rest
      exact ⟨_, rfl⟩
  | some fd =>
      obtain ⟨desc, dereferenced, rest⟩ := bind_eq_ok.mp rest
      split_ifs at rest with readable
      · obtain ⟨⟨bytesRead, bytes, middle⟩, copied, rest⟩ := bind_eq_ok.mp rest
        obtain ⟨filedescs, assigned, rest⟩ := bind_eq_ok.mp rest
        have value : (bytesRead : Int) = -1 := (Prod.mk.inj (Except.ok.inj rest)).1
        omega
      · cases rest
        exact ⟨_, rfl⟩

theorem failed_open {filename : String} {flags : BitVec 32} {value : Int} {fs after : FsState}
    (effect : OpenEffect garbage filename flags fs value after) (failed : value = -1) :
    SameButError fs after := by
  cases effect with
  | failed code => exact same_after_open_failure code fs
  | created creating absent linked opened listed => exact absurd failed (opened_not_failed opened)
  | existing opening found opened listed => exact absurd failed (opened_not_failed opened)

theorem failed_write {fdno value : Int} {buf : List Byte} {size : Nat} {fs after : FsState}
    (effect : WriteEffect fdno buf size fs value after) (failed : value = -1) :
    SameButError fs after := by
  cases effect with
  | failed code => exact same_after_fail code fs
  | written capped nonempty entry descriptor target present rounds => omega

theorem failed_close {fdno value : Int} {fs after : FsState}
    (effect : CloseEffect fdno fs value after) (failed : value = -1) : SameButError fs after := by
  cases effect with
  | failed entry => exact same_after_fail .noFile fs
  | kept entry descriptor target present remaining => cases failed
  | released entry descriptor target present last deallocated => cases failed

theorem failed_delete {filename : String} {value : Int} {fs after : FsState}
    (effect : DeleteEffect filename fs value after) (failed : value = -1) :
    SameButError fs after := by
  cases effect with
  | absent missing => exact same_of_eq fs
  | deleted found present => cases failed

/-- In every state, a call that returns -1 has changed nothing but the error
code. -/
theorem failed_call_changes_nothing {fs after : FsState} {call : Call} {reply : Reply}
    (performed : perform garbage fs call = .ok (reply, after)) (failed : reply.value = -1) :
    SameButError fs after := by
  cases call with
  | «open» filename flags =>
      cases perform_effect performed with
      | ofOpen effect => exact failed_open effect failed
  | write fd buf size =>
      cases perform_effect performed with
      | ofWrite effect => exact failed_write effect failed
  | read fd buf size =>
      obtain ⟨⟨value, filled, state⟩, done, rest⟩ := bind_eq_ok.mp performed
      cases rest
      dsimp only at failed
      rw [failed] at done
      obtain ⟨code, reported⟩ := read_failed done
      rw [reported]
      exact same_after_fail code fs
  | close fd =>
      cases perform_effect performed with
      | ofClose effect => exact failed_close effect failed
  | delete filename =>
      cases perform_effect performed with
      | ofDelete effect => exact failed_delete effect failed
  | size fd =>
      cases perform_effect performed with
      | ofSize effect =>
          cases effect with
          | inl same =>
              rw [same]
              exact same_of_eq fs
          | inr reported =>
              rw [reported]
              exact same_after_fail .noFile fs

def writtenA : Option FsState :=
  (replay (perform zeroGarbage) (fun _ _ _ => True)
    [.open "a" (ufsCreate ||| ufsReadWrite), .write 0 [1, 2, 3] 3] [] initial).map Prod.snd

/-- Creating the file once more is refused, and its chain and descriptor stay. -/
theorem failed_create_changes_nothing :
    ∃ fs after, writtenA = some fs ∧ fs.files.inUse = 1 ∧ fs.blockArrays.inUse = 1 ∧
      fs.filedescs.inUse = 1 ∧
      perform zeroGarbage fs (.open "a" (ufsCreate ||| ufsReadWrite)) = .ok (⟨-1, []⟩, after) ∧
      ufsErrno after = .noPermission ∧ SameButError fs after := by
  have counts : (writtenA.map fun fs =>
      (fs.files.inUse, fs.blockArrays.inUse, fs.filedescs.inUse)) = some (1, 1, 1) := by decide
  have refused : (writtenA.bind fun fs =>
      (perform zeroGarbage fs (.open "a" (ufsCreate ||| ufsReadWrite))).toOption.map fun result =>
        (result.1, ufsErrno result.2)) = some (⟨-1, []⟩, .noPermission) := by decide
  cases written : writtenA with
  | none => simp [written] at counts
  | some fs =>
      simp only [written, Option.map_some, Option.bind_some, Option.some.injEq,
        Prod.mk.injEq] at counts refused
      cases done : perform zeroGarbage fs (.open "a" (ufsCreate ||| ufsReadWrite)) with
      | error halt => simp [done, Except.toOption] at refused
      | ok result =>
          rcases result with ⟨reply, after⟩
          simp only [done, Except.toOption, Option.map_some, Option.some.injEq,
            Prod.mk.injEq] at refused
          obtain ⟨rfl, code⟩ := refused
          exact ⟨fs, after, rfl, counts.1, counts.2.1, counts.2.2, done, code,
            failed_call_changes_nothing done rfl⟩

end Sysprog.Userfs.FailedCalls
