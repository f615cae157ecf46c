import Sysprog.Userfs.FailedCalls

/-!
# What is reported of failed calls

`ufs_errno` and stderr after any run of calls, on any numbers. No entry of the
table is ever NULL, so the tests for a closed descriptor never succeed: what
the calls report are the two failures of `ufs_open` and missing permissions,
and a failed `ufs_delete` reports nothing.
-/

namespace Sysprog.Userfs.ReportedErrors

open CheckedRuns Memory Blocks Calls CallEffects
open ClientLedger (History)
open DescriptorNumbers (opened_not_failed zeroGarbage)

set_option autoImplicit false

variable {garbage : Garbage}

/-- What a call that has returned -1 reports: a failed `ufs_delete` sets no code
and prints nothing. -/
def codeOf : Call → Option UfsErrorCode
  | .open _ flags => some (if flags &&& ufsCreate ≠ 0 then .noPermission else .noFile)
  | .write _ _ _ => some .noPermission
  | .read _ _ _ => some .noPermission
  | .close _ => none
  | .delete _ => none
  | .size _ => none

def failureOf (event : Event Call Reply) : Option UfsErrorCode :=
  if event.result.value = -1 then codeOf event.call else none

def failures (history : History) : List UfsErrorCode := history.filterMap failureOf

/-- A failure sets the code and prints its line; anything else leaves both. -/
def Reports (fs after : FsState) : Option UfsErrorCode → Prop
  | none => after.ufsErrCode = fs.ufsErrCode ∧ after.stderr = fs.stderr
  | some code => after.ufsErrCode = code ∧ after.stderr = fs.stderr ++ [printErrMsg code]

/-! ## One call -/

def NeverNull (fs : FsState) : Prop := ∀ slot ∈ fs.fileDescriptors, slot ≠ .null

theorem entry_of_never_null {fs : FsState} {fdno : Int} {entry : Option Nat}
    (never : NeverNull fs) (looked : fileDescriptorAt fs fdno = .ok entry) :
    ∃ fd, entry = some fd := by
  unfold fileDescriptorAt at looked
  split_ifs at looked
  cases present : fs.fileDescriptors[fdno.toNat]? with
  | none => simp [present] at looked
  | some slot =>
      cases slot with
      | unset => simp [present] at looked
      | null => exact absurd rfl (never .null (List.mem_of_getElem? present))
      | filedesc address =>
          simp only [present] at looked
          cases looked
          exact ⟨address, rfl⟩

theorem store_keeps_errors {fdno : Int} {fd : Nat} {before after : FsState}
    (done : storeFileDescriptor fdno fd before = .ok after) :
    after.ufsErrCode = before.ufsErrCode ∧ after.stderr = before.stderr := by
  unfold storeFileDescriptor at done
  split_ifs at done
  cases done
  exact ⟨rfl, rfl⟩

theorem install_keeps_errors {base after : FsState} {fd file : Nat} {offset value : Int}
    {flags : BitVec 32} (done : installFiledesc fd file offset flags base = .ok (value, after)) :
    after.ufsErrCode = base.ufsErrCode ∧ after.stderr = base.stderr := by
  obtain ⟨files, _, rest⟩ := bind_eq_ok.mp done
  obtain ⟨stored, tableDone, rest⟩ := bind_eq_ok.mp rest
  obtain ⟨filedescs, _, rest⟩ := bind_eq_ok.mp rest
  cases rest
  have kept := store_keeps_errors tableDone
  exact kept

theorem install_reports {fs base after : FsState} {file : Nat} {offset value : Int}
    {flags : BitVec 32}
    (installed : installFiledesc fs.filedescs.next file offset flags base = .ok (value, after))
    (fresh : base.filedescs = fs.filedescs.alloc (garbage.filedesc fs.filedescs.next))
    (code : base.ufsErrCode = fs.ufsErrCode) (messages : base.stderr = fs.stderr) :
    value ≠ -1 ∧ Reports fs after none := by
  have kept := install_keeps_errors installed
  have opened := (@installFiledesc_ok garbage { base with filedescs := fs.filedescs } base after
    file offset value flags installed fresh rfl rfl rfl rfl).1
  exact ⟨opened_not_failed opened, kept.1.trans code, kept.2.trans messages⟩

theorem open_reports {filename : String} {flags : BitVec 32} {fs after : FsState} {value : Int}
    (done : ufsOpen garbage filename flags fs = .ok (value, after)) :
    Reports fs after
      (if value = -1 then some (if flags &&& ufsCreate ≠ 0 then .noPermission else .noFile)
        else none) := by
  obtain ⟨file, _, rest⟩ := bind_eq_ok.mp done
  by_cases creating : flags &&& ufsCreate ≠ 0
  · simp only [if_pos creating] at rest ⊢
    cases file with
    | some file =>
        cases rest
        exact ⟨rfl, rfl⟩
    | none =>
        obtain ⟨⟨file, base⟩, allocated, installed⟩ := bind_eq_ok.mp rest
        obtain ⟨_, files, _, rfl⟩ := allocFileStruct_ok allocated
        obtain ⟨other, reports⟩ := install_reports installed rfl rfl rfl
        rwa [if_neg other]
  · simp only [if_neg creating] at rest ⊢
    cases file with
    | none =>
        cases rest
        exact ⟨rfl, rfl⟩
    | some file =>
        obtain ⟨ffd, _, rest⟩ := bind_eq_ok.mp rest
        cases ffd with
        | none => cases rest
        | some ffd =>
            obtain ⟨oldest, _, installed⟩ := bind_eq_ok.mp rest
            obtain ⟨other, reports⟩ := install_reports installed rfl rfl rfl
            rwa [if_neg other]

theorem write_reports {fdno value : Int} {buf : List Byte} {size : Nat} {fs after : FsState}
    (never : NeverNull fs) (done : ufsWrite fdno buf size fs = .ok (value, after)) :
    Reports fs after (if value = -1 then some .noPermission else none) := by
  obtain ⟨entry, looked, rest⟩ := bind_eq_ok.mp done
  obtain ⟨fd, rfl⟩ := entry_of_never_null never looked
  cases ufsWrite_effect done with
  | written =>
      rw [if_neg (by omega)]
      exact ⟨rfl, rfl⟩
  | failed code =>
      obtain ⟨desc, _, rest⟩ := bind_eq_ok.mp rest
      split_ifs at rest with writable
      · obtain ⟨⟨written, middle⟩, _, rest⟩ := bind_eq_ok.mp rest
        have same : (written : Int) = -1 := (Prod.mk.inj (Except.ok.inj rest)).1
        omega
      · have same := (Prod.mk.inj (Except.ok.inj rest)).2
        rw [← same]
        exact ⟨rfl, rfl⟩

theorem read_reports {fdno value : Int} {buf filled : List Byte} {size : Nat} {fs after : FsState}
    (never : NeverNull fs) (done : ufsRead fdno buf size fs = .ok (value, filled, after)) :
    Reports fs after (if value = -1 then some .noPermission else none) := by
  obtain ⟨entry, looked, rest⟩ := bind_eq_ok.mp done
  obtain ⟨fd, rfl⟩ := entry_of_never_null never looked
  obtain ⟨desc, _, rest⟩ := bind_eq_ok.mp rest
  split_ifs at rest with readable
  · obtain ⟨⟨bytesRead, bytes, middle⟩, copied, rest⟩ := bind_eq_ok.mp rest
    obtain ⟨filedescs, _, rest⟩ := bind_eq_ok.mp rest
    have kept : middle.ufsErrCode = fs.ufsErrCode ∧ middle.stderr = fs.stderr := by
      obtain ⟨_, _, rest⟩ := bind_eq_ok.mp copied
      obtain ⟨_, _, rest⟩ := bind_eq_ok.mp rest
      obtain ⟨_, _, rest⟩ := bind_eq_ok.mp rest
      obtain ⟨_, _, rest⟩ := bind_eq_ok.mp rest
      split_ifs at rest
      cases rest
      exact ⟨rfl, rfl⟩
    cases rest
    rw [if_neg (by omega)]
    exact kept
  · cases rest
    exact ⟨rfl, rfl⟩

/-- A close that returns has found an entry, and no error is reported. -/
theorem close_reports {fdno value : Int} {fs after : FsState} (never : NeverNull fs)
    (done : ufsClose fdno fs = .ok (value, after)) : value = 0 ∧ Reports fs after none := by
  cases ufsClose_effect done with
  | failed entry =>
      obtain ⟨fd, found⟩ := entry_of_never_null never entry
      cases found
  | kept => exact ⟨rfl, rfl, rfl⟩
  | @released fd file desc struct freed entry descriptor target present last deallocated =>
      obtain ⟨found, _, effect⟩ := deallocateFile_ok deallocated
      have kept : freed.ufsErrCode = fs.ufsErrCode ∧ freed.stderr = fs.stderr := by
        cases chain : found.blockList with
        | none =>
            rw [chain] at effect
            rw [effect]
            exact ⟨rfl, rfl⟩
        | some first =>
            rw [chain] at effect
            obtain ⟨_, _, rfl⟩ := effect
            exact ⟨rfl, rfl⟩
      exact ⟨rfl, kept⟩

theorem delete_reports {filename : String} {value : Int} {fs after : FsState}
    (done : ufsDelete filename fs = .ok (value, after)) : Reports fs after none := by
  cases ufsDelete_effect done with
  | absent => exact ⟨rfl, rfl⟩
  | deleted => exact ⟨rfl, rfl⟩

theorem size_reports {fdno value : Int} {fs after : FsState} (never : NeverNull fs)
    (done : fileSize fdno fs = .ok (value, after)) : Reports fs after none := by
  obtain ⟨entry, looked, rest⟩ := bind_eq_ok.mp done
  obtain ⟨fd, rfl⟩ := entry_of_never_null never looked
  obtain ⟨_, _, rest⟩ := bind_eq_ok.mp rest
  obtain ⟨_, _, rest⟩ := bind_eq_ok.mp rest
  obtain ⟨_, _, rest⟩ := bind_eq_ok.mp rest
  cases rest
  exact ⟨rfl, rfl⟩

theorem perform_reports {fs after : FsState} {call : Call} {reply : Reply} (never : NeverNull fs)
    (performed : perform garbage fs call = .ok (reply, after)) :
    Reports fs after (failureOf ⟨call, reply⟩) := by
  cases call with
  | «open» filename flags =>
      obtain ⟨⟨value, state⟩, done, rest⟩ := bind_eq_ok.mp performed
      cases rest
      exact open_reports done
  | write fd buf size =>
      obtain ⟨⟨value, state⟩, done, rest⟩ := bind_eq_ok.mp performed
      cases rest
      exact write_reports never done
  | read fd buf size =>
      obtain ⟨⟨value, filled, state⟩, done, rest⟩ := bind_eq_ok.mp performed
      cases rest
      exact read_reports never done
  | close fd =>
      obtain ⟨⟨value, state⟩, done, rest⟩ := bind_eq_ok.mp performed
      cases rest
      obtain ⟨rfl, reports⟩ := close_reports never done
      exact reports
  | delete filename =>
      obtain ⟨⟨value, state⟩, done, rest⟩ := bind_eq_ok.mp performed
      cases rest
      unfold failureOf codeOf
      rw [ite_self]
      exact delete_reports done
  | size fd =>
      obtain ⟨⟨value, state⟩, done, rest⟩ := bind_eq_ok.mp performed
      cases rest
      unfold failureOf codeOf
      rw [ite_self]
      exact size_reports never done

theorem never_null_same {fs after : FsState} (never : NeverNull fs)
    (slots : after.fileDescriptors = fs.fileDescriptors) : NeverNull after := by
  intro slot member
  rw [slots] at member
  exact never slot member

theorem never_null_step {fs after : FsState} {call : Call} {reply : Reply} (never : NeverNull fs)
    (effect : CallEffect garbage fs call reply after) : NeverNull after := by
  have opens : ∀ {files : Heap File} {file : Nat} {offset value : Int} {flags : BitVec 32},
      Opened garbage fs after files file offset flags value → NeverNull after := by
    intro files file offset value flags opened slot member
    rw [opened.table] at member
    rcases List.mem_or_eq_of_mem_set member with old | new
    · exact never slot old
    · rw [new]
      intro same
      cases same
  cases effect with
  | ofOpen effect =>
      cases effect with
      | failed code => exact never_null_same never rfl
      | created _ _ _ opened _ => exact opens opened
      | existing _ _ opened _ => exact opens opened
  | ofWrite effect => cases effect <;> exact never_null_same never rfl
  | ofRead effect => cases effect <;> exact never_null_same never rfl
  | ofClose effect =>
      cases effect with
      | failed entry => exact never_null_same never rfl
      | kept => exact never_null_same never rfl
      | released _ _ _ _ _ deallocated =>
          exact never_null_same never (deallocateFile_frame deallocated).1
  | ofDelete effect => cases effect <;> exact never_null_same never rfl
  | ofSize effect => rcases effect with rfl | rfl <;> exact never_null_same never rfl

/-! ## Runs -/

def AnyCalls (_ : History) (_ : FsState) (_ : Call) : Prop := True

instance (history : History) (fs : FsState) (call : Call) : Decidable (AnyCalls history fs call) :=
  .isTrue trivial

theorem failures_snoc (history : History) (event : Event Call Reply) :
    failures (history ++ [event]) = failures history ++ (failureOf event).toList := by
  unfold failures
  rw [List.filterMap_append]
  congr 1

structure ErrorsRecorded (history : History) (fs : FsState) : Prop where
  messages : fs.stderr = (failures history).map printErrMsg
  errno : ufsErrno fs = (failures history).getLastD .noErr
  closes : ∀ event ∈ history, ∀ fd, event.call = .close fd → event.result.value = 0

theorem errors_recorded_step {history : History} {fs after : FsState} {call : Call} {reply : Reply}
    (held : ErrorsRecorded history fs) (never : NeverNull fs)
    (performed : perform garbage fs call = .ok (reply, after)) :
    ErrorsRecorded (history ++ [⟨call, reply⟩]) after := by
  have reports := perform_reports never performed
  have messages := held.messages
  have errno := held.errno
  constructor
  · rw [failures_snoc]
    cases failure : failureOf ⟨call, reply⟩ with
    | none =>
        rw [failure] at reports
        rw [reports.2, messages]
        simp
    | some code =>
        rw [failure] at reports
        rw [reports.2, messages]
        simp
  · rw [failures_snoc]
    cases failure : failureOf ⟨call, reply⟩ with
    | none =>
        rw [failure] at reports
        simp only [Option.toList_none, List.append_nil]
        rw [← errno]
        exact reports.1
    | some code =>
        rw [failure] at reports
        simp only [Option.toList_some, List.getLastD_concat]
        exact reports.1
  · intro event member fd isClose
    rcases List.mem_append.mp member with old | new
    · exact held.closes event old fd isClose
    · rw [List.mem_singleton] at new
      subst new
      dsimp only at isClose ⊢
      subst isClose
      obtain ⟨⟨value, state⟩, done, rest⟩ := bind_eq_ok.mp performed
      cases rest
      exact (close_reports never done).1

def failingCalls : Option (History × FsState) :=
  replay (perform zeroGarbage) AnyCalls
    [.open "a" ufsReadOnly, .open "a" (ufsCreate ||| ufsReadOnly),
      .open "a" (ufsCreate ||| ufsReadOnly), .delete "b", .close 0] [] initial

end Sysprog.Userfs.ReportedErrors
