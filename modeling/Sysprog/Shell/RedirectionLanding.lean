import Sysprog.Shell.PipelineWiring

/-!
# Where redirections land

A redirection closes its descriptor and relies on `open` to take this number,
but goes on when `open` fails. The chain is followed from the redirection tried
first, which is the outermost one, for every pattern of successes.
-/

namespace Sysprog.Shell.RedirectionLanding

open Processes DescriptorTable Commands Interpreter Pipelines CommandRuns PipelineWiring

set_option autoImplicit false

variable {Inherited : Type}

/-! The lists below are in the order written: the head is tried last, after as
many calls of `open` as the list behind it is long. `opens` says which of the
calls succeed. -/

def zeroOpen (opens : Nat → Bool) : List Redirection → Bool
  | [] => true
  | redirection :: rest =>
      if redirection.output then opens rest.length || zeroOpen opens rest else opens rest.length

/-- The last `<` that is tried, if there is one, succeeds. -/
def inputOpens (opens : Nat → Bool) : List Redirection → Bool
  | [] => true
  | redirection :: rest =>
      if redirection.output then inputOpens opens rest else opens rest.length

/-- The last `>` that is tried, if there is one, succeeds and finds descriptor
0 open. -/
def outputLands (opens : Nat → Bool) : List Redirection → Bool
  | [] => true
  | redirection :: rest =>
      if redirection.output then opens rest.length && zeroOpen opens rest
      else outputLands opens rest

/-- A number has a file of one of the redirections for it, or what it had at
the start when there are none. -/
def Settled (start : Table (Description Inherited)) (redirections : List Redirection) (number : Nat)
    (entry : Option (Description Inherited)) : Prop :=
  if ∃ redirection ∈ redirections, redirection.fd = number then
    ∃ redirection ∈ redirections, redirection.fd = number ∧
      ∃ opened, entry = some (.file redirection.file redirection.mode opened)
  else entry = lookup start number

def OnOwnDescriptors (start : Table (Description Inherited)) (redirections : List Redirection)
    (table : Table (Description Inherited)) : Prop :=
  ∀ number, Settled start redirections number (lookup table number)

/-- Every process that reaches `execv` has its redirections on their own
descriptors. -/
def LandsOrNotRun (kernel : Kernel) (argv : List Text) (redirections : List Redirection)
    (position : Position) (process : Process Inherited) : Prop :=
  ∀ outcome ∈ (runCmd kernel (wrap (.exec argv) redirections) position).run process,
    outcome.1.attempts ≠ process.attempts →
      OnOwnDescriptors process.table redirections outcome.1.table

/-! ## One redirection -/

@[simp] theorem fd_input (file : Text) : (Redirection.mk false file).fd = 0 := rfl

@[simp] theorem fd_output (file : Text) : (Redirection.mk true file).fd = 1 := rfl

theorem fd_of_mode {first second : Redirection} (mode : first.mode = second.mode) :
    first.fd = second.fd := by
  rcases first with ⟨_ | _, firstFile⟩ <;> rcases second with ⟨_ | _, secondFile⟩
  · rfl
  · cases mode
  · cases mode
  · rfl

theorem redirected_opens (kernel : Kernel) (redirections : List Redirection)
    (process : Process Inherited) :
    (redirectedAll kernel redirections process).opens = process.opens + redirections.length := by
  induction redirections with
  | nil => rfl
  | cons redirection redirections ih =>
      have step : (redirectedAll kernel (redirection :: redirections) process).opens =
          (redirectedAll kernel redirections process).opens + 1 := by
        simp only [redirectedAll, List.foldr_cons, redirected]
        split_ifs
        all_goals rfl
      rw [step, ih, List.length_cons, Nat.add_assoc]

def opensOf (kernel : Kernel) (process : Process Inherited) (count : Nat) : Bool :=
  kernel.opens process.pid (process.opens + count)

theorem redirected_table (kernel : Kernel) (redirection : Redirection)
    (redirections : List Redirection) (process : Process Inherited) :
    (redirectedAll kernel (redirection :: redirections) process).table =
      if opensOf kernel process redirections.length then
        (openLowest (close (redirectedAll kernel redirections process).table redirection.fd)
          (.file redirection.file redirection.mode
            (process.pid, process.opens + redirections.length))).2
      else close (redirectedAll kernel redirections process).table redirection.fd := by
  have pid := (same_record_redirected kernel redirections process).pid
  have count := redirected_opens kernel redirections process
  have whole : redirectedAll kernel (redirection :: redirections) process =
      redirected kernel redirection.file redirection.mode redirection.fd
        (redirectedAll kernel redirections process) := rfl
  rw [whole, redirected, pid, count, opensOf]
  split_ifs
  · rw [← pid, ← count]
    rfl
  · rfl

/-! ## The chain -/

section Settling

variable {start : Table (Description Inherited)} {redirection : Redirection}
  {redirections : List Redirection} {number : Nat}

theorem settled_other (other : redirection.fd ≠ number)
    (entry : Option (Description Inherited)) :
    Settled start (redirection :: redirections) number entry ↔
      Settled start redirections number entry := by
  simp only [Settled, List.exists_mem_cons_iff, other, false_and, false_or]

theorem settled_own (opened : Made) :
    Settled start (redirection :: redirections) redirection.fd
      (some (.file redirection.file redirection.mode opened)) := by
  have present : ∃ other ∈ redirection :: redirections, other.fd = redirection.fd :=
    ⟨redirection, List.mem_cons_self, rfl⟩
  rw [Settled, if_pos present]
  exact ⟨redirection, List.mem_cons_self, rfl, opened, rfl⟩

theorem not_settled_closed :
    ¬ Settled start (redirection :: redirections) redirection.fd
      (none : Option (Description Inherited)) := by
  have present : ∃ other ∈ redirection :: redirections, other.fd = redirection.fd :=
    ⟨redirection, List.mem_cons_self, rfl⟩
  rw [Settled, if_pos present]
  intro settled
  obtain ⟨_, _, _, _, closed⟩ := settled
  cases closed

theorem settled_open (startOpen : lookup start number ≠ none) :
    ¬ Settled start redirections number none := by
  unfold Settled
  split_ifs
  · intro settled
    obtain ⟨_, _, _, _, closed⟩ := settled
    cases closed
  · exact fun same => startOpen same.symm

end Settling

structure Landing (opens : Nat → Bool) (start : Table (Description Inherited))
    (redirections : List Redirection) (table : Table (Description Inherited)) : Prop where
  others : ∀ number, 2 ≤ number → lookup table number = lookup start number
  zero : zeroOpen opens redirections = true ↔ lookup table 0 ≠ none
  input : inputOpens opens redirections = true ↔ Settled start redirections 0 (lookup table 0)
  output : outputLands opens redirections = true ↔ Settled start redirections 1 (lookup table 1)

section Steps

variable {opens : Nat → Bool} {start table : Table (Description Inherited)}
  {redirections : List Redirection} {file : Text}

theorem landing_input (held : Landing opens start redirections table) (made : Made)
    (succeeds : opens redirections.length = true) :
    Landing opens start (⟨false, file⟩ :: redirections)
      (openLowest (close table 0) (.file file oRdonly made)).2 := by
  have look := @lookup_opened Inherited table 0 (.file file oRdonly made)
    (fun number below => absurd below (Nat.not_lt_zero number))
  constructor
  · intro number above
    rw [look, if_neg (by omega)]
    exact held.others number above
  · rw [look, if_pos rfl]
    simp [zeroOpen, succeeds]
  · rw [look, if_pos rfl]
    exact iff_of_true (by simp [inputOpens, succeeds])
      (@settled_own Inherited start ⟨false, file⟩ redirections made)
  · rw [look, if_neg (by decide), settled_other (by simp)]
    exact held.output

theorem landing_input_failed (held : Landing opens start redirections table)
    (fails : opens redirections.length = false) :
    Landing opens start (⟨false, file⟩ :: redirections) (close table 0) := by
  constructor
  · intro number above
    rw [lookup_close, if_neg (by omega)]
    exact held.others number above
  · rw [lookup_close, if_pos rfl]
    simp [zeroOpen, fails]
  · rw [lookup_close, if_pos rfl]
    exact iff_of_false (by simp [inputOpens, fails])
      (@not_settled_closed Inherited start ⟨false, file⟩ redirections)
  · rw [lookup_close, if_neg (by decide), settled_other (by simp)]
    exact held.output

theorem landing_output (held : Landing opens start redirections table) (made : Made)
    (succeeds : opens redirections.length = true) (isOpen : lookup table 0 ≠ none) :
    Landing opens start (⟨true, file⟩ :: redirections)
      (openLowest (close table 1) (.file file (Redirection.mk true file).mode made)).2 := by
  have look := @lookup_opened Inherited table 1 (.file file (Redirection.mk true file).mode made)
    (by
      intro number below
      rw [show number = 0 by omega]
      exact isOpen)
  constructor
  · intro number above
    rw [look, if_neg (by omega)]
    exact held.others number above
  · rw [look, if_neg (by decide)]
    simp [zeroOpen, succeeds, isOpen]
  · rw [look, if_neg (by decide), settled_other (by simp)]
    exact held.input
  · rw [look, if_pos rfl]
    exact iff_of_true (by simp [outputLands, succeeds, held.zero.mpr isOpen])
      (@settled_own Inherited start ⟨true, file⟩ redirections made)

theorem input_opens_without (none : ¬ ∃ redirection ∈ redirections, redirection.fd = 0) :
    inputOpens opens redirections = true := by
  induction redirections with
  | nil => rfl
  | cons redirection redirections ih =>
      rw [List.exists_mem_cons_iff, not_or] at none
      rcases redirection with ⟨output, file⟩
      cases output with
      | false => exact absurd rfl none.1
      | true => exact ih none.2

/-- Once the last `<` has failed, a file opened by `>` is not what is asked
for on descriptor 0. -/
theorem not_settled_by_output (failed : inputOpens opens redirections = false) (made : Made) :
    ¬ Settled start redirections 0 (some (.file file (Redirection.mk true file).mode made)) := by
  unfold Settled
  split_ifs with present
  · intro settled
    obtain ⟨redirection, _, own, opened, same⟩ := settled
    have fd := fd_of_mode (Description.file.inj (Option.some.inj same)).2.1
    rw [own] at fd
    cases fd
  · rw [input_opens_without present] at failed
    cases failed

/-- With descriptor 0 closed `>` takes it and leaves 1 closed. -/
theorem landing_output_on_zero (startOpen : lookup start 0 ≠ none)
    (held : Landing opens start redirections table) (made : Made)
    (succeeds : opens redirections.length = true) (isClosed : lookup table 0 = none) :
    Landing opens start (⟨true, file⟩ :: redirections)
      (openLowest (close table 1) (.file file (Redirection.mk true file).mode made)).2 := by
  have lowest : lowestFree (close table 1) = 0 := by
    apply lowest_free_eq
    · rw [lookup_close, if_neg (by decide)]
      exact isClosed
    · intro number below
      exact absurd below (Nat.not_lt_zero number)
  have look : ∀ number, lookup
      (openLowest (close table 1) (.file file (Redirection.mk true file).mode made)).2 number =
        if number = 0 then some (.file file (Redirection.mk true file).mode made)
        else if number = 1 then none else lookup table number := by
    intro number
    rw [openLowest, lowest, lookup_place, lookup_close]
  have notSettled : ¬ Settled start redirections 0 (lookup table 0) := by
    rw [isClosed]
    exact settled_open startOpen
  have notInput : inputOpens opens redirections = false :=
    Bool.eq_false_iff.mpr (mt held.input.mp notSettled)
  constructor
  · intro number above
    rw [look, if_neg (by omega), if_neg (by omega)]
    exact held.others number above
  · rw [look, if_pos rfl]
    simp [zeroOpen, succeeds]
  · rw [look, if_pos rfl, settled_other (by simp)]
    exact iff_of_false (by simp [inputOpens, notInput]) (not_settled_by_output notInput made)
  · rw [look, if_neg (by decide), if_pos rfl]
    have zeroClosed : zeroOpen opens redirections = false :=
      Bool.eq_false_iff.mpr (mt held.zero.mp (not_not.mpr isClosed))
    exact iff_of_false (by simp [outputLands, zeroClosed])
      (@not_settled_closed Inherited start ⟨true, file⟩ redirections)

theorem landing_output_failed (held : Landing opens start redirections table)
    (fails : opens redirections.length = false) :
    Landing opens start (⟨true, file⟩ :: redirections) (close table 1) := by
  constructor
  · intro number above
    rw [lookup_close, if_neg (by omega)]
    exact held.others number above
  · rw [lookup_close, if_neg (by decide)]
    simpa [zeroOpen, fails] using held.zero
  · rw [lookup_close, if_neg (by decide), settled_other (by simp)]
    exact held.input
  · rw [lookup_close, if_pos rfl]
    exact iff_of_false (by simp [outputLands, fails])
      (@not_settled_closed Inherited start ⟨true, file⟩ redirections)

end Steps

theorem landing_redirected (kernel : Kernel) (redirections : List Redirection)
    {process : Process Inherited} (startOpen : lookup process.table 0 ≠ none) :
    Landing (opensOf kernel process) process.table redirections
      (redirectedAll kernel redirections process).table := by
  induction redirections with
  | nil =>
      constructor
      · exact fun number above => rfl
      · exact iff_of_true rfl startOpen
      · exact iff_of_true rfl (by simp [Settled, redirectedAll])
      · exact iff_of_true rfl (by simp [Settled, redirectedAll])
  | cons redirection redirections ih =>
      rw [redirected_table]
      rcases redirection with ⟨output, file⟩
      cases succeeds : opensOf kernel process redirections.length with
      | false =>
          cases output with
          | false => exact landing_input_failed ih succeeds
          | true => exact landing_output_failed ih succeeds
      | true =>
          cases output with
          | false => exact landing_input ih _ succeeds
          | true =>
              by_cases isOpen : lookup (redirectedAll kernel redirections process).table 0 = none
              · exact landing_output_on_zero startOpen ih _ succeeds isOpen
              · exact landing_output ih _ succeeds isOpen

theorem on_own_iff {opens : Nat → Bool} {start table : Table (Description Inherited)}
    {redirections : List Redirection} (landing : Landing opens start redirections table) :
    OnOwnDescriptors start redirections table ↔
      inputOpens opens redirections = true ∧ outputLands opens redirections = true := by
  rw [landing.input, landing.output]
  constructor
  · intro own
    exact ⟨own 0, own 1⟩
  · intro settled number
    match number with
    | 0 => exact settled.1
    | 1 => exact settled.2
    | number + 2 =>
        have none : ¬ ∃ redirection ∈ redirections, redirection.fd = number + 2 := by
          intro present
          obtain ⟨redirection, _, own⟩ := present
          rcases redirection_fd redirection with fd | fd
          · omega
          · omega
        rw [Settled, if_neg none]
        exact landing.others (number + 2) (by omega)

/-- The redirections of a command land on their own descriptors or it is not
run, exactly when there is no command or the last `<` that is tried succeeds
and so does the last `>`, which finds descriptor 0 open. -/
theorem lands_iff (kernel : Kernel) (argv : List Text) (redirections : List Redirection)
    (position : Position) {process : Process Inherited}
    (standard : StandardOpen (lookup process.table)) :
    LandsOrNotRun kernel argv redirections position process ↔
      argv = [] ∨ (inputOpens (opensOf kernel process) redirections = true ∧
        outputLands (opensOf kernel process) redirections = true) := by
  have landing := landing_redirected kernel redirections standard.1
  have record := same_record_redirected kernel redirections process
  rw [← on_own_iff landing, LandsOrNotRun, run_wrap]
  cases argv with
  | nil =>
      refine iff_of_true ?_ (.inl rfl)
      intro outcome member reached
      have ended : outcome = (redirectedAll kernel redirections process,
          .error (.exited 0)) := List.mem_singleton.mp member
      rw [ended] at reached
      exact absurd record.attempts reached
  | cons name arguments =>
      obtain ⟨after, ran, tried⟩ := run_exec kernel name arguments
        (List.replicate redirections.length .inner ++ position)
        (redirectedAll kernel redirections process)
      rw [ran]
      constructor
      · intro lands
        have reached : after.attempts ≠ process.attempts := by
          rw [tried.attempts, record.attempts]
          simp
        have own := lands _ (List.mem_singleton_self _) reached
        rw [tried.table] at own
        exact .inr own
      · intro either outcome member _
        rw [List.mem_singleton.mp member, tried.table]
        rcases either with empty | own
        · cases empty
        · exact own

def firstOpenFails : Kernel where
  forks _ _ := true
  pipes _ _ := true
  opens _ count := count != 0
  execs _ _ := true

def standardCaller : Process Nat := caller [some 0, some 1, some 2]

theorem standard_caller_open : StandardOpen (lookup standardCaller.table) := by
  simp [StandardOpen, lookup, standardCaller, caller]

/-- `a <x <z` where `z`, which is tried first, is missing. -/
theorem lands_after_failure :
    LandsOrNotRun firstOpenFails [[97]] [⟨false, [120]⟩, ⟨false, [122]⟩] [] standardCaller :=
  (lands_iff firstOpenFails [[97]] _ [] standard_caller_open).mpr (.inr (by decide))

/-- What each process tries to execute with on 0 and 1. -/
def inputAndOutput (outcomes : List (Outcome (Process Nat) Ending Unit)) :
    List (List Position × Option (Description Nat) × Option (Description Nat)) :=
  outcomes.map fun outcome =>
    (outcome.1.attempts, lookup outcome.1.table 0, lookup outcome.1.table 1)

/-- `a >y <x` where `x` is missing: `a` is run with `y` on 0 and nothing on 1. -/
theorem output_lands_on_input :
    inputAndOutput ((runCmd firstOpenFails
      (wrap (.exec [[97]]) [⟨true, [121]⟩, ⟨false, [120]⟩]) []).run standardCaller) =
        [([[.inner, .inner]],
          some (.file [121] (oWronly ||| oCreat ||| oTrunc) ([], 1)), none)] ∧
      ¬ LandsOrNotRun firstOpenFails [[97]] [⟨true, [121]⟩, ⟨false, [120]⟩] [] standardCaller := by
  have ran : inputAndOutput ((runCmd firstOpenFails
      (wrap (.exec [[97]]) [⟨true, [121]⟩, ⟨false, [120]⟩]) []).run standardCaller) =
        [([[.inner, .inner]],
          some (.file [121] (oWronly ||| oCreat ||| oTrunc) ([], 1)), none)] := by rfl
  refine ⟨ran, ?_⟩
  intro lands
  have present : ([[.inner, .inner]],
      some (.file [121] (oWronly ||| oCreat ||| oTrunc) ([], 1)), none) ∈
      inputAndOutput ((runCmd firstOpenFails
        (wrap (.exec [[97]]) [⟨true, [121]⟩, ⟨false, [120]⟩]) []).run standardCaller) := by
    rw [ran]
    exact List.mem_singleton_self _
  obtain ⟨outcome, member, same⟩ := List.mem_map.mp present
  have attempts : outcome.1.attempts = [[.inner, .inner]] := (Prod.mk.inj same).1
  have closed : lookup outcome.1.table 1 = none := (Prod.mk.inj (Prod.mk.inj same).2).2
  have own := lands outcome member (by rw [attempts]; exact List.cons_ne_nil _ _) 1
  rw [closed] at own
  exact settled_open standard_caller_open.2.1 own

end Sysprog.Shell.RedirectionLanding
