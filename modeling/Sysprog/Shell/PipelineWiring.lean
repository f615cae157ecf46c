import Sysprog.Shell.CommandRuns

/-!
# The wiring of a pipeline

Which descriptors each command of a pipeline is executed with. The tables are
followed number by number along the recursion of `run_cmd`.
-/

namespace Sysprog.Shell.PipelineWiring

open Processes DescriptorTable Commands Interpreter Pipelines CommandRuns

set_option autoImplicit false

variable {Inherited : Type}

def execed (outcomes : List (Outcome (Process Inherited) Ending Unit)) :
    List (Process Inherited × List Text) :=
  outcomes.filterMap fun outcome =>
    match outcome.2 with
    | .error (.replaced _ argv) => some (outcome.1, argv)
    | _ => none

/-- What the numbers refer to when 0 and 1 are taken by pipe ends. -/
def wiredBase (start : Nat → Option (Description Inherited)) (input output : Option Made) :
    Nat → Option (Description Inherited)
  | 0 => match input with
      | some pipe => some (.readEnd pipe)
      | none => start 0
  | 1 => match output with
      | some pipe => some (.writeEnd pipe)
      | none => start 1
  | number => start number

/-- The redirections of a stage stand on their own descriptors; of several for
one descriptor, it is the first. -/
def Redirected (base : Nat → Option (Description Inherited)) (redirections : List Redirection)
    (table : Table (Description Inherited)) : Prop :=
  ∀ number, match redirections.find? fun redirection => redirection.fd = number with
    | some redirection => ∃ opened, lookup table number =
        some (.file redirection.file redirection.mode opened)
    | none => lookup table number = base number

/-- No other end of any pipe is open. -/
def HoldsOnly (input output : Option Made) (table : Table (Description Inherited)) : Prop :=
  ∀ number pipe, (lookup table number = some (.readEnd pipe) → number = 0 ∧ input = some pipe) ∧
    (lookup table number = some (.writeEnd pipe) → number = 1 ∧ output = some pipe)

/-- A command is executed with its own words and between these pipes. -/
structure ExecedBetween (start : Nat → Option (Description Inherited)) (input output : Option Made)
    (stage : Stage) (one : Process Inherited × List Text) : Prop where
  words : one.2 = wordsOf stage.items
  table : Redirected (wiredBase start input output) (redirectionsOf stage.items) one.1.table
  only : HoldsOnly input output one.1.table

def Wired (start : Nat → Option (Description Inherited)) :
    Option Made → List Made → Stage → List Stage → List (Process Inherited × List Text) → Prop
  | input, [], stage, [], [one] => ExecedBetween start input none stage one
  | input, pipe :: pipes, stage, next :: rest, one :: others =>
      ExecedBetween start input (some pipe) stage one ∧
        Wired start (some pipe) pipes next rest others
  | _, _, _, _, _ => False

/-- The pipes of a pipeline, each made by the right child of the process that
made the one before. -/
def pipesMade : Pid → Nat → Nat → Nat → List Made
  | _, _, _, 0 => []
  | pid, forks, pipes, count + 1 =>
      (pid, pipes) :: pipesMade ((forks + 1) :: pid) 0 0 count

/-! ## Redirections -/

theorem redirection_fd (redirection : Redirection) : redirection.fd = 0 ∨ redirection.fd = 1 := by
  unfold Redirection.fd
  split_ifs
  · exact .inr rfl
  · exact .inl rfl

/-- `close` and `open` put the file on the number that was closed, since the
numbers below it are open. -/
theorem lookup_opened {table : Table (Description Inherited)} {fd : Nat} (item : Description Inherited)
    (below : ∀ number < fd, lookup table number ≠ none) (number : Nat) :
    lookup (openLowest (close table fd) item).2 number =
      if number = fd then some item else lookup table number := by
  have lowest : lowestFree (close table fd) = fd := by
    apply lowest_free_eq
    · rw [lookup_close, if_pos rfl]
    · intro other less
      rw [lookup_close, if_neg (Nat.ne_of_lt less)]
      exact below other less
  rw [openLowest, lowest, lookup_place, lookup_close]
  split_ifs
  · rfl
  · rfl

theorem redirected_open {base : Nat → Option (Description Inherited)}
    {redirections : List Redirection} {table : Table (Description Inherited)}
    (redirected : Redirected base redirections table) {number : Nat} (inBase : base number ≠ none) :
    lookup table number ≠ none := by
  have here := redirected number
  cases found : redirections.find? fun redirection => redirection.fd = number with
  | none =>
      rw [found] at here
      rw [here]
      exact inBase
  | some redirection =>
      rw [found] at here
      obtain ⟨opened, file⟩ := here
      rw [file]
      exact Option.some_ne_none _

theorem redirected_all_lookup {kernel : Kernel}
    (succeed : ∀ pid count, kernel.opens pid count = true) (redirections : List Redirection)
    {process : Process Inherited}
    {base : Nat → Option (Description Inherited)} (zero : base 0 ≠ none)
    (same : ∀ number, lookup process.table number = base number) :
    Redirected base redirections (redirectedAll kernel redirections process).table := by
  induction redirections with
  | nil => exact same
  | cons redirection redirections ih =>
      have opens := succeed (redirectedAll kernel redirections process).pid
        (redirectedAll kernel redirections process).opens
      have below : ∀ number < redirection.fd,
          lookup (redirectedAll kernel redirections process).table number ≠ none := by
        intro number less
        have isZero : number = 0 := by
          rcases redirection_fd redirection with fd | fd <;> omega
        rw [isZero]
        exact redirected_open ih zero
      intro number
      have step := lookup_opened (.file redirection.file redirection.mode
        ((redirectedAll kernel redirections process).pid,
          (redirectedAll kernel redirections process).opens)) below number
      have table : (redirectedAll kernel (redirection :: redirections) process).table =
          (openLowest (close (redirectedAll kernel redirections process).table redirection.fd)
            (.file redirection.file redirection.mode
              ((redirectedAll kernel redirections process).pid,
                (redirectedAll kernel redirections process).opens))).2 := by
        have whole : redirectedAll kernel (redirection :: redirections) process =
            redirected kernel redirection.file redirection.mode redirection.fd
              (redirectedAll kernel redirections process) := rfl
        rw [whole, redirected, if_pos opens]
        rfl
      rw [table, step, List.find?_cons]
      by_cases own : redirection.fd = number
      · simp only [own, decide_true, if_true]
        exact ⟨_, rfl⟩
      · have other : ¬ number = redirection.fd := fun same => own same.symm
        simp only [own, decide_false, other, if_false]
        exact ih number

/-! ## The ends of a pipe -/

theorem pipe_table (process : Process Inherited) :
    lookup process.table (pipeNumbers process).1 = none ∧
      lookup process.table (pipeNumbers process).2 = none ∧
      (pipeNumbers process).1 ≠ (pipeNumbers process).2 ∧
      ∀ number, lookup (pipedProcess process).table number =
        if number = (pipeNumbers process).2 then some (.writeEnd (process.pid, process.pipes))
        else if number = (pipeNumbers process).1 then some (.readEnd (process.pid, process.pipes))
        else lookup process.table number := by
  have first := lookup_lowest_free process.table
  have second := lookup_lowest_free
    (place process.table (lowestFree process.table) (.readEnd (process.pid, process.pipes)))
  rw [lookup_place] at second
  have apart : lowestFree (place process.table (lowestFree process.table)
      (.readEnd (process.pid, process.pipes))) ≠ lowestFree process.table := by
    intro same
    rw [if_pos same] at second
    cases second
  rw [if_neg apart] at second
  refine ⟨first, second, Ne.symm apart, ?_⟩
  intro number
  have whole : (pipedProcess process).table =
      place (place process.table (lowestFree process.table) (.readEnd (process.pid, process.pipes)))
        (lowestFree (place process.table (lowestFree process.table)
          (.readEnd (process.pid, process.pipes)))) (.writeEnd (process.pid, process.pipes)) := rfl
  rw [whole, lookup_place, lookup_place]
  rfl

def StandardOpen {Item : Type} (entries : Nat → Option Item) : Prop :=
  entries 0 ≠ none ∧ entries 1 ≠ none ∧ entries 2 ≠ none

theorem lookup_wire_left {process : Process Inherited}
    (standard : StandardOpen (lookup process.table)) (number : Nat) :
    lookup (wireLeft (pipeNumbers process).1 (pipeNumbers process).2
        (childOf (pipedProcess process))).table number =
      if number = 1 then some (.writeEnd (process.pid, process.pipes))
      else lookup process.table number := by
  obtain ⟨freeRead, freeWrite, _, piped⟩ := pipe_table process
  have notOne : (pipeNumbers process).2 ≠ 1 := fun one => standard.2.1 (one ▸ freeWrite)
  have readNotOne : (pipeNumbers process).1 ≠ 1 := fun one => standard.2.1 (one ▸ freeRead)
  have present : lookup (pipedProcess process).table (pipeNumbers process).2 =
      some (.writeEnd (process.pid, process.pipes)) := by
    rw [piped, if_pos rfl]
  have whole : (wireLeft (pipeNumbers process).1 (pipeNumbers process).2
      (childOf (pipedProcess process))).table =
      close (close (dup2 (pipedProcess process).table (pipeNumbers process).2 1)
        (pipeNumbers process).2) (pipeNumbers process).1 := by
    simp only [wireLeft, childOf, if_pos notOne]
  rw [whole]
  apply lookup_moved freeWrite freeRead notOne readNotOne present
  intro other notUsed notUnused
  rw [piped, if_neg notUsed, if_neg notUnused]

theorem lookup_wire_right {process : Process Inherited}
    (standard : StandardOpen (lookup process.table)) (number : Nat) :
    lookup (wireRight (pipeNumbers process).1 (pipeNumbers process).2
        (childOf (countFork (pipedProcess process)))).table number =
      if number = 0 then some (.readEnd (process.pid, process.pipes))
      else lookup process.table number := by
  obtain ⟨freeRead, freeWrite, apart, piped⟩ := pipe_table process
  have notZero : (pipeNumbers process).1 ≠ 0 := fun zero => standard.1 (zero ▸ freeRead)
  have writeNotZero : (pipeNumbers process).2 ≠ 0 := fun zero => standard.1 (zero ▸ freeWrite)
  have present : lookup (pipedProcess process).table (pipeNumbers process).1 =
      some (.readEnd (process.pid, process.pipes)) := by
    rw [piped, if_neg apart, if_pos rfl]
  have whole : (wireRight (pipeNumbers process).1 (pipeNumbers process).2
      (childOf (countFork (pipedProcess process)))).table =
      close (close (dup2 (pipedProcess process).table (pipeNumbers process).1 0)
        (pipeNumbers process).1) (pipeNumbers process).2 := by
    simp only [wireRight, childOf, countFork, if_pos notZero]
  rw [whole]
  apply lookup_moved freeRead freeWrite notZero writeNotZero present
  intro other notUsed notUnused
  rw [piped, if_neg notUnused, if_neg notUsed]

/-! ## The commands of a pipeline -/

theorem execed_append (outcomes others : List (Outcome (Process Inherited) Ending Unit)) :
    execed (outcomes ++ others) = execed outcomes ++ execed others :=
  List.filterMap_append

theorem execed_close_returned (fd0 fd1 : Nat)
    (outcomes : List (Outcome (Process Inherited) Ending Unit)) :
    execed (outcomes.map (closeReturned fd0 fd1)) = execed outcomes := by
  rw [execed, List.filterMap_map]
  apply congrArg (fun choose => outcomes.filterMap choose)
  exact same_of_close_returned _ fd0 fd1 fun _ => rfl

def NoEnds (entries : Nat → Option (Description Inherited)) : Prop :=
  ∀ number pipe, entries number ≠ some (.readEnd pipe) ∧ entries number ≠ some (.writeEnd pipe)

theorem holds_only_of_redirected {start : Nat → Option (Description Inherited)}
    {input output : Option Made} {redirections : List Redirection}
    {table : Table (Description Inherited)} (noEnds : NoEnds start)
    (redirected : Redirected (wiredBase start input output) redirections table) :
    HoldsOnly input output table := by
  have base : ∀ number pipe,
      (wiredBase start input output number = some (.readEnd pipe) → number = 0 ∧ input = some pipe) ∧
      (wiredBase start input output number = some (.writeEnd pipe) →
        number = 1 ∧ output = some pipe) := by
    intro number pipe
    match number with
    | 0 =>
        cases input with
        | none => exact ⟨fun isEnd => absurd isEnd (noEnds 0 pipe).1,
            fun isEnd => absurd isEnd (noEnds 0 pipe).2⟩
        | some made => simp [wiredBase]
    | 1 =>
        cases output with
        | none => exact ⟨fun isEnd => absurd isEnd (noEnds 1 pipe).1,
            fun isEnd => absurd isEnd (noEnds 1 pipe).2⟩
        | some made => simp [wiredBase]
    | number + 2 =>
        exact ⟨fun isEnd => absurd isEnd (noEnds (number + 2) pipe).1,
          fun isEnd => absurd isEnd (noEnds (number + 2) pipe).2⟩
  intro number pipe
  have here := redirected number
  cases found : redirections.find? fun redirection => redirection.fd = number with
  | none =>
      rw [found] at here
      rw [here]
      exact base number pipe
  | some redirection =>
      rw [found] at here
      obtain ⟨opened, file⟩ := here
      rw [file]
      simp

theorem execed_stage {kernel : Kernel} (succeed : AllSucceed kernel) (stage : Stage)
    (position : Position) {process : Process Inherited}
    {start : Nat → Option (Description Inherited)} {input output : Option Made}
    (standard : StandardOpen start) (noEnds : NoEnds start)
    (wired : ∀ number, lookup process.table number = wiredBase start input output number) :
    ∃ after path, (runCmd kernel (stageTree stage.items) position).run process =
        [(after, .error (.replaced path (wordsOf stage.items)))] ∧
      ExecedBetween start input output stage (after, wordsOf stage.items) := by
  obtain ⟨after, ran, tried⟩ := run_stage kernel stage position process
  obtain ⟨path, ended⟩ := exec_end_succeeds succeed process.pid process.execs stage
  rw [ended] at ran
  have zero : wiredBase start input output 0 ≠ none := by
    cases input with
    | none => exact standard.1
    | some pipe => exact Option.some_ne_none _
  have redirected := redirected_all_lookup succeed.opens (redirectionsOf stage.items) zero wired
  rw [← tried.table] at redirected
  exact ⟨after, path, ran, rfl, redirected, holds_only_of_redirected noEnds redirected⟩

theorem wired_pipeline {kernel : Kernel} (succeed : AllSucceed kernel) (stage : Stage)
    (rest : List Stage) (position : Position) {process : Process Inherited}
    {start : Nat → Option (Description Inherited)} {input : Option Made}
    (standard : StandardOpen start) (noEnds : NoEnds start)
    (wired : ∀ number, lookup process.table number = wiredBase start input none number) :
    Wired start input (pipesMade process.pid process.forks process.pipes rest.length) stage rest
      (execed ((runCmd kernel (pipelineTree stage rest) position).run process)) := by
  induction rest generalizing stage position process input with
  | nil =>
      obtain ⟨after, path, ran, between⟩ := execed_stage succeed stage position standard noEnds wired
      rw [pipelineTree, ran]
      exact between
  | cons next rest ih =>
      have processStandard : StandardOpen (lookup process.table) := by
        rw [StandardOpen, wired, wired, wired]
        cases input with
        | none => exact standard
        | some pipe => exact ⟨Option.some_ne_none _, standard.2⟩
      have left : ∀ number, lookup (wireLeft (pipeNumbers process).1 (pipeNumbers process).2
          (childOf (pipedProcess process))).table number =
          wiredBase start input (some (process.pid, process.pipes)) number := by
        intro number
        rw [lookup_wire_left processStandard, wired]
        match number with
        | 0 => rfl
        | 1 => rfl
        | number + 2 => rw [if_neg (by omega)]; rfl
      have right : ∀ number, lookup (wireRight (pipeNumbers process).1 (pipeNumbers process).2
          (childOf (countFork (pipedProcess process)))).table number =
          wiredBase start (some (process.pid, process.pipes)) none number := by
        intro number
        rw [lookup_wire_right processStandard, wired]
        match number with
        | 0 => rfl
        | 1 => rfl
        | number + 2 => rw [if_neg (by omega)]; rfl
      obtain ⟨after, path, ran, between⟩ :=
        execed_stage succeed stage (.left :: position) standard noEnds left
      have others := ih next (.right :: position) right
      rw [pipelineTree, run_pipe succeed.pipesAndForks, ran, List.flatMap_singleton, continued,
        right_half_run, execed_append, execed_append, execed_close_returned]
      have last : execed [(closeBoth (pipeNumbers process).1 (pipeNumbers process).2
          (countFork (countFork (pipedProcess process))), (.ok () : Except Ending Unit))] = [] := rfl
      rw [last, List.append_nil]
      exact ⟨between, others⟩

theorem length_pipes_made (pid : Pid) (forks pipes count : Nat) :
    (pipesMade pid forks pipes count).length = count := by
  induction count generalizing pid forks pipes with
  | zero => rfl
  | succ count ih => rw [pipesMade, List.length_cons, ih]

theorem pipes_made_longer {pid : Pid} {forks pipes count : Nat} :
    ∀ made ∈ pipesMade pid forks pipes count, pid.length ≤ made.1.length := by
  induction count generalizing pid forks pipes with
  | zero =>
      intro made member
      cases member
  | succ count ih =>
      intro made member
      rcases List.mem_cons.mp member with first | member
      · rw [first]
      · exact Nat.le_of_succ_le (ih made member)

theorem pipes_made_distinct (pid : Pid) (forks pipes count : Nat) :
    (pipesMade pid forks pipes count).Nodup := by
  induction count generalizing pid forks pipes with
  | zero => exact List.nodup_nil
  | succ count ih =>
      apply List.nodup_cons.mpr
      constructor
      · intro member
        have longer := pipes_made_longer _ member
        simp only [List.length_cons] at longer
        omega
      · exact ih _ _ _

theorem lookup_inherited (table : Table Inherited) (number : Nat) :
    lookup (caller table).table number = (lookup table number).map .inherited := by
  simp only [lookup, caller, List.getElem?_map]
  cases table[number]? with
  | none => rfl
  | some entry => rfl

/-- Each stage is executed once, in order, with the pipes before and after it on
0 and 1 and everything else as it was inherited. -/
theorem stages_execed_between_pipes {kernel : Kernel} (succeed : AllSucceed kernel) (stage : Stage)
    (rest : List Stage) (table : Table Inherited) (standard : StandardOpen (lookup table)) :
    ∃ pipes : List Made, pipes.Nodup ∧ pipes.length = rest.length ∧
      Wired (lookup (caller table).table) none pipes stage rest
        (execed ((runCmd kernel (pipelineTree stage rest) []).run (caller table))) := by
  have callerStandard : StandardOpen (lookup (caller table).table) := by
    simpa only [StandardOpen, lookup_inherited, ne_eq, Option.map_eq_none_iff] using standard
  have noEnds : NoEnds (lookup (caller table).table) := by
    intro number pipe
    rw [lookup_inherited]
    cases lookup table number <;> simp
  have wired : ∀ number, lookup (caller table).table number =
      wiredBase (lookup (caller table).table) none none number := by
    intro number
    match number with
    | 0 => rfl
    | 1 => rfl
    | number + 2 => rfl
  exact ⟨pipesMade [] 0 0 rest.length, pipes_made_distinct _ _ _ _, length_pipes_made _ _ _ _,
    wired_pipeline succeed stage rest [] callerStandard noEnds wired⟩

theorem two_stages_wired :
    ∃ pipes : List Made, pipes.Nodup ∧ pipes.length = 1 ∧
      Wired (lookup (caller [some (), some (), some ()]).table) none pipes stageA [stageB]
        (execed ((runCmd allSucceed (pipelineTree stageA [stageB]) []).run
          (caller [some (), some (), some ()]))) :=
  stages_execed_between_pipes all_succeed stageA [stageB] [some (), some (), some ()]
    (by simp [StandardOpen, lookup])

end Sysprog.Shell.PipelineWiring
