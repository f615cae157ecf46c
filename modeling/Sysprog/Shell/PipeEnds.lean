import Sysprog.Shell.PipelineWiring

/-!
# Who holds the ends of the pipes

Once every process of a pipeline has been replaced or has come back, the write
end of each pipe is open in the process of the stage before it alone. Its read
end is open in that of the stage after it, and in the child that came back from
running the stages after it.
-/

namespace Sysprog.Shell.PipeEnds

open Processes DescriptorTable Commands Interpreter Pipelines CommandRuns PipelineWiring

set_option autoImplicit false

variable {Inherited : Type}

def endOf (writing : Bool) (pipe : Made) : Description Inherited :=
  if writing then .writeEnd pipe else .readEnd pipe

def isEnd (writing : Bool) (pipe : Made) : Option (Description Inherited) → Bool
  | some (.writeEnd made) => writing && made = pipe
  | some (.readEnd made) => !writing && made = pipe
  | _ => false

abbrev Outcomes (Inherited : Type) := List (Outcome (Process Inherited) Ending Unit)

def holders (writing : Bool) (pipe : Made) (outcomes : Outcomes Inherited) : List Pid :=
  (outcomes.filter fun outcome => outcome.1.table.any (isEnd writing pipe)).map
    fun outcome => outcome.1.pid

def redirects (fd : Nat) (redirections : List Redirection) : Bool :=
  (redirections.find? fun redirection => redirection.fd = fd).isSome

/-- The processes that can write to a pipe made by `pid`: its left child. -/
def writersOf (pid : Pid) (redirected : Bool) : List Pid :=
  if redirected then [] else [0 :: pid]

/-- The processes that can read from the pipe that `pid` was given, when it runs
a stage and so many after it: that of the stage, and `pid` itself when it came
back. -/
def readersOf (pid : Pid) (later : Nat) (redirected : Bool) : List Pid :=
  (if redirected then [] else [if later = 0 then pid else 0 :: pid]) ++
    if later = 0 then [] else [pid]

/-! ## Entries of a table -/

theorem is_end_iff {writing : Bool} {pipe : Made} {entry : Option (Description Inherited)} :
    isEnd writing pipe entry = true ↔ entry = some (endOf writing pipe) := by
  cases entry with
  | none => simp [isEnd]
  | some item => cases item <;> cases writing <;> simp [isEnd, endOf]

theorem holds_iff {writing : Bool} {pipe : Made} {table : Table (Description Inherited)} :
    table.any (isEnd writing pipe) = true ↔
      ∃ number, lookup table number = some (endOf writing pipe) := by
  rw [List.any_eq_true]
  constructor
  · intro some
    obtain ⟨entry, member, holds⟩ := some
    obtain ⟨number, inside, rfl⟩ := List.getElem_of_mem member
    refine ⟨number, ?_⟩
    rw [lookup, List.getElem?_eq_getElem inside]
    exact is_end_iff.mp holds
  · intro some
    obtain ⟨number, found⟩ := some
    have present := Option.join_eq_some_iff.mp found
    exact ⟨_, List.mem_of_getElem? present, is_end_iff.mpr rfl⟩

theorem holds_congr {writing : Bool} {pipe : Made} {table other : Table (Description Inherited)}
    (same : ∀ number, lookup table number = lookup other number) :
    table.any (isEnd writing pipe) = other.any (isEnd writing pipe) := by
  rw [Bool.eq_iff_iff, holds_iff, holds_iff]
  simp only [same]

theorem holders_append (writing : Bool) (pipe : Made) (outcomes others : Outcomes Inherited) :
    holders writing pipe (outcomes ++ others) =
      holders writing pipe outcomes ++ holders writing pipe others := by
  rw [holders, List.filter_append, List.map_append]
  rfl

theorem holders_single {writing : Bool} {pipe : Made} {process : Process Inherited}
    {result : Except Ending Unit} :
    holders writing pipe [(process, result)] =
      if process.table.any (isEnd writing pipe) then [process.pid] else [] := by
  rw [holders, List.filter_singleton]
  cases process.table.any (isEnd writing pipe) with
  | true => rfl
  | false => rfl

/-- The pipe ends that stand on 0 and 1 when nothing is redirected. -/
def given (writing : Bool) (input output : Option Made) : Option Made :=
  if writing then output else input

theorem holders_wired {writing : Bool} {pipe : Made} {start : Nat → Option (Description Inherited)}
    (noEnds : NoEnds start) {input output : Option Made} {redirections : List Redirection}
    {process : Process Inherited} {result : Except Ending Unit}
    (wired : Redirected (wiredBase start input output) redirections process.table) :
    holders writing pipe [(process, result)] =
      if given writing input output = some pipe ∧ redirects writing.toNat redirections = false then
        [process.pid] else [] := by
  have only := holds_only_of_redirected noEnds wired
  have here := wired writing.toNat
  rw [holders_single]
  apply if_congr _ rfl rfl
  rw [holds_iff]
  constructor
  · intro holds
    obtain ⟨number, found⟩ := holds
    have own : number = writing.toNat ∧ given writing input output = some pipe := by
      cases writing with
      | true => exact (only number pipe).2 found
      | false => exact (only number pipe).1 found
    refine ⟨own.2, ?_⟩
    rw [own.1] at found
    rw [redirects]
    cases redirection : redirections.find? fun redirection => redirection.fd = writing.toNat with
    | none => rfl
    | some redirection =>
        rw [redirection] at here
        obtain ⟨opened, file⟩ := here
        rw [found] at file
        cases writing <;> cases file
  · intro both
    obtain ⟨isGiven, notRedirected⟩ := both
    rw [redirects, Option.isSome_eq_false_iff, Option.isNone_iff_eq_none] at notRedirected
    rw [notRedirected] at here
    refine ⟨writing.toNat, here.trans ?_⟩
    cases writing with
    | true =>
        have outputs : output = some pipe := isGiven
        rw [outputs]
        rfl
    | false =>
        have inputs : input = some pipe := isGiven
        rw [inputs]
        rfl

/-! ## The processes that come back -/

/-- Nothing but the pipe it reads from has been put into the table. -/
def WiredTo (start : Nat → Option (Description Inherited)) (input : Option Made)
    (process : Process Inherited) : Prop :=
  ∀ number, lookup process.table number = wiredBase start input none number

theorem wired_standard {start : Nat → Option (Description Inherited)} (standard : StandardOpen start)
    {input : Option Made} {process : Process Inherited} (wired : WiredTo start input process) :
    StandardOpen (lookup process.table) := by
  rw [StandardOpen, wired, wired, wired]
  cases input with
  | none => exact standard
  | some pipe => exact ⟨Option.some_ne_none _, standard.2⟩

def rightChild (process : Process Inherited) : Process Inherited :=
  wireRight (pipeNumbers process).1 (pipeNumbers process).2
    (childOf (countFork (pipedProcess process)))

theorem wired_right {start : Nat → Option (Description Inherited)} (standard : StandardOpen start)
    {input : Option Made} {process : Process Inherited} (wired : WiredTo start input process) :
    WiredTo start (some (process.pid, process.pipes)) (rightChild process) := by
  intro number
  rw [rightChild, lookup_wire_right (wired_standard standard wired), wired]
  match number with
  | 0 => rfl
  | 1 => rfl
  | number + 2 =>
      rw [if_neg (Nat.succ_ne_zero _)]
      rfl

theorem wired_left {start : Nat → Option (Description Inherited)} (standard : StandardOpen start)
    {input : Option Made} {process : Process Inherited} (wired : WiredTo start input process)
    (number : Nat) :
    lookup (wireLeft (pipeNumbers process).1 (pipeNumbers process).2
        (childOf (pipedProcess process))).table number =
      wiredBase start input (some (process.pid, process.pipes)) number := by
  rw [lookup_wire_left (wired_standard standard wired), wired]
  match number with
  | 0 => rfl
  | 1 => rfl
  | number + 2 =>
      rw [if_neg (by omega)]
      rfl

/-- Both numbers of a pipe were free, and are free in what the process has
inherited. -/
theorem pipe_numbers_free {start : Nat → Option (Description Inherited)}
    (standard : StandardOpen start) {input : Option Made} {process : Process Inherited}
    (wired : WiredTo start input process) {number : Nat}
    (free : lookup process.table number = none) (other : Option Made) :
    wiredBase start other none number = none := by
  have open012 := wired_standard standard wired
  match number with
  | 0 => exact absurd free open012.1
  | 1 => exact absurd free open012.2.1
  | number + 2 => exact (wired (number + 2)).symm.trans free

theorem wired_closed {start : Nat → Option (Description Inherited)} {input : Option Made}
    {process : Process Inherited} (wired : WiredTo start input process) {fd0 fd1 : Nat}
    (first : wiredBase start input none fd0 = none) (second : wiredBase start input none fd1 = none) :
    WiredTo start input (closeBoth fd0 fd1 process) := by
  intro number
  have closed : (closeBoth fd0 fd1 process).table = close (close process.table fd0) fd1 := rfl
  rw [closed, lookup_close, lookup_close]
  split_ifs with isSecond isFirst
  · rw [isSecond, second]
  · rw [isFirst, first]
  · exact wired number

theorem wired_maker {start : Nat → Option (Description Inherited)} {input : Option Made}
    {process : Process Inherited} (wired : WiredTo start input process) :
    WiredTo start input (closeBoth (pipeNumbers process).1 (pipeNumbers process).2
      (countFork (countFork (pipedProcess process)))) := by
  obtain ⟨freeRead, freeWrite, _, piped⟩ := pipe_table process
  intro number
  have closed : (closeBoth (pipeNumbers process).1 (pipeNumbers process).2
      (countFork (countFork (pipedProcess process)))).table =
      close (close (pipedProcess process).table (pipeNumbers process).1)
        (pipeNumbers process).2 := rfl
  rw [closed, lookup_close, lookup_close, piped, ← wired]
  split_ifs with isWrite isRead
  · rw [isWrite, freeWrite]
  · rw [isRead, freeRead]
  · rfl

/-! ## A whole pipeline -/

def ReturnedWired (start : Nat → Option (Description Inherited))
    (outcomes : Outcomes Inherited) : Prop :=
  ∀ outcome ∈ outcomes, outcome.2 = .ok () → ∃ input, WiredTo start input outcome.1

theorem execed_pid {kernel : Kernel} {stage : Stage} {position : Position}
    {process after : Process Inherited} {result : Except Ending Unit}
    (ran : (runCmd kernel (stageTree stage.items) position).run process = [(after, result)]) :
    after.pid = process.pid := by
  obtain ⟨tried, triedRan, record⟩ := run_stage kernel stage position process
  have same := List.head_eq_of_cons_eq (ran.symm.trans triedRan)
  rw [(Prod.mk.inj same).1]
  exact record.pid

/-- The processes of a pipeline: that of the first stage, those of the others
with both numbers closed once more where they come back, and the caller. -/
theorem pipeline_outcomes {kernel : Kernel} (succeed : AllSucceed kernel) (stage next : Stage)
    (rest : List Stage) (position : Position) {process : Process Inherited}
    {start : Nat → Option (Description Inherited)} {input : Option Made}
    (standard : StandardOpen start) (noEnds : NoEnds start) (wired : WiredTo start input process) :
    ∃ after path, (runCmd kernel (pipelineTree stage (next :: rest)) position).run process =
        [(after, .error (.replaced path (wordsOf stage.items)))] ++
          (((runCmd kernel (pipelineTree next rest) (.right :: position)).run
            (rightChild process)).map (closeReturned (pipeNumbers process).1
              (pipeNumbers process).2) ++ [(closeBoth (pipeNumbers process).1 (pipeNumbers process).2
            (countFork (countFork (pipedProcess process))), .ok ())]) ∧
      after.pid = process.forks :: process.pid ∧
      Redirected (wiredBase start input (some (process.pid, process.pipes)))
        (redirectionsOf stage.items) after.table := by
  obtain ⟨after, path, ran, between⟩ := execed_stage succeed stage (.left :: position) standard
    noEnds (wired_left standard wired)
  refine ⟨after, path, ?_, ?_, between.table⟩
  · rw [pipelineTree, run_pipe succeed.pipesAndForks, ran, List.flatMap_singleton, continued,
      right_half_run]
    rfl
  · exact execed_pid ran

theorem returned_wired {kernel : Kernel} (succeed : AllSucceed kernel) (stage : Stage)
    (rest : List Stage) (position : Position) {process : Process Inherited}
    {start : Nat → Option (Description Inherited)} {input : Option Made}
    (standard : StandardOpen start) (noEnds : NoEnds start) (wired : WiredTo start input process) :
    ReturnedWired start ((runCmd kernel (pipelineTree stage rest) position).run process) := by
  induction rest generalizing stage position process input with
  | nil =>
      obtain ⟨after, path, ran, _⟩ := execed_stage succeed stage position standard noEnds wired
      intro outcome member isReturned
      rw [pipelineTree, ran, List.mem_singleton] at member
      rw [member] at isReturned
      cases isReturned
  | cons next rest ih =>
      obtain ⟨freeRead, freeWrite, _, _⟩ := pipe_table process
      obtain ⟨after, path, ran, _, _⟩ :=
        pipeline_outcomes succeed stage next rest position standard noEnds wired
      have inner := ih next (.right :: position) (wired_right standard wired)
      intro outcome member isReturned
      rw [ran, List.mem_append, List.mem_append, List.mem_singleton, List.mem_singleton] at member
      rcases member with first | others | last
      · rw [first] at isReturned
        cases isReturned
      · obtain ⟨⟨before, result⟩, present, rfl⟩ := List.mem_map.mp others
        cases result with
        | error ending => cases isReturned
        | ok value =>
            obtain ⟨other, otherWired⟩ := inner _ present rfl
            exact ⟨other, wired_closed otherWired (pipe_numbers_free standard wired freeRead other)
              (pipe_numbers_free standard wired freeWrite other)⟩
      · rw [last]
        exact ⟨input, wired_maker wired⟩

theorem holders_closed {start : Nat → Option (Description Inherited)} {outcomes : Outcomes Inherited}
    (returned : ReturnedWired start outcomes) {fd0 fd1 : Nat}
    (first : ∀ input, wiredBase start input none fd0 = none)
    (second : ∀ input, wiredBase start input none fd1 = none) (writing : Bool) (pipe : Made) :
    holders writing pipe (outcomes.map (closeReturned fd0 fd1)) = holders writing pipe outcomes := by
  induction outcomes with
  | nil => rfl
  | cons outcome outcomes ih =>
      have later := ih fun other member => returned other (List.mem_cons_of_mem _ member)
      have own : holders writing pipe [closeReturned fd0 fd1 outcome] =
          holders writing pipe [outcome] := by
        rcases outcome with ⟨process, result⟩
        cases result with
        | error ending => rfl
        | ok value =>
            obtain ⟨input, wired⟩ := returned _ List.mem_cons_self rfl
            have closed := wired_closed wired (first input) (second input)
            rw [closeReturned, holders_single, holders_single]
            rw [holds_congr fun number => (closed number).trans (wired number).symm]
            rfl
      rw [List.map_cons, ← List.singleton_append, holders_append, own, later, ← holders_append]
      rfl

theorem holders_pipeline {kernel : Kernel} (succeed : AllSucceed kernel) (stage next : Stage)
    (rest : List Stage) (position : Position) {process : Process Inherited}
    {start : Nat → Option (Description Inherited)} {input : Option Made}
    (standard : StandardOpen start) (noEnds : NoEnds start) (wired : WiredTo start input process)
    (writing : Bool) (pipe : Made) :
    holders writing pipe
        ((runCmd kernel (pipelineTree stage (next :: rest)) position).run process) =
      (if given writing input (some (process.pid, process.pipes)) = some pipe ∧
          redirects writing.toNat (redirectionsOf stage.items) = false then
        [process.forks :: process.pid] else []) ++
      (holders writing pipe
        ((runCmd kernel (pipelineTree next rest) (.right :: position)).run (rightChild process)) ++
      if given writing input none = some pipe then [process.pid] else []) := by
  obtain ⟨freeRead, freeWrite, _, _⟩ := pipe_table process
  obtain ⟨after, path, ran, pid, redirected⟩ :=
    pipeline_outcomes succeed stage next rest position standard noEnds wired
  have inner := returned_wired succeed next rest (.right :: position) standard noEnds
    (wired_right standard wired)
  have last : Redirected (wiredBase start input none) [] (closeBoth (pipeNumbers process).1
      (pipeNumbers process).2 (countFork (countFork (pipedProcess process)))).table :=
    wired_maker wired
  have noRedirection : redirects writing.toNat [] = false := rfl
  rw [ran, holders_append, holders_append, holders_wired noEnds redirected, pid,
    holders_closed inner (pipe_numbers_free standard wired freeRead)
      (pipe_numbers_free standard wired freeWrite),
    holders_wired noEnds last]
  simp only [noRedirection, and_true]
  rfl

/-- A pipe made further up can be read from at its end, and not written to. -/
theorem holders_of_given {kernel : Kernel} (succeed : AllSucceed kernel) (stage : Stage)
    (rest : List Stage) (position : Position) {process : Process Inherited}
    {start : Nat → Option (Description Inherited)} {input : Option Made}
    (standard : StandardOpen start) (noEnds : NoEnds start) (wired : WiredTo start input process)
    (fresh : process.forks = 0) (writing : Bool) {pipe : Made}
    (above : pipe.1.length < process.pid.length) :
    holders writing pipe ((runCmd kernel (pipelineTree stage rest) position).run process) =
      if given writing input none = some pipe then
        readersOf process.pid rest.length (redirects 0 (redirectionsOf stage.items)) else [] := by
  induction rest generalizing stage position process input with
  | nil =>
      obtain ⟨after, path, ran, between⟩ :=
        execed_stage succeed stage position standard noEnds wired
      rw [pipelineTree, ran, holders_wired noEnds between.table, execed_pid ran]
      cases writing with
      | true => rfl
      | false =>
          cases redirected : redirects 0 (redirectionsOf stage.items) with
          | true => simp [redirected, readersOf]
          | false => simp [redirected, readersOf]
  | cons next rest ih =>
      have notOwn : (some (process.pid, process.pipes) : Option Made) ≠ some pipe := by
        intro same
        rw [← Option.some.inj same] at above
        exact Nat.lt_irrefl _ above
      have inner := ih next (.right :: position) (wired_right standard wired) rfl
        (Nat.lt_succ_of_lt above)
      rw [holders_pipeline succeed stage next rest position standard noEnds wired, inner]
      cases writing with
      | true => simp [given, notOwn]
      | false =>
          by_cases isInput : input = some pipe
          · cases redirected : redirects 0 (redirectionsOf stage.items) with
            | true => simp [given, notOwn, isInput, redirected, readersOf]
            | false => simp [given, notOwn, isInput, redirected, readersOf, fresh]
          · simp [given, notOwn, isInput]

/-! ## The pipes of a pipeline -/

/-- The process that makes the pipe after so many others, and that pipe. -/
def makerPid (pid : Pid) (count : Nat) : Pid := List.replicate count 1 ++ pid

def pipeAfter (pid : Pid) (count : Nat) : Made := (makerPid pid count, 0)

theorem maker_pid_succ (pid : Pid) (count : Nat) :
    makerPid (1 :: pid) count = makerPid pid (count + 1) := by
  rw [makerPid, makerPid, List.replicate_succ', List.append_assoc, List.singleton_append]

theorem maker_pid_length (pid : Pid) (count : Nat) :
    (makerPid pid count).length = count + pid.length := by
  rw [makerPid, List.length_append, List.length_replicate]

/-- The induction is on the stages; at the stage before the pipe what the stages
after it hold is what they were given. -/
theorem holders_of_made {kernel : Kernel} (succeed : AllSucceed kernel) {stage before after : Stage}
    {rest : List Stage} {position : Position} {process : Process Inherited}
    {start : Nat → Option (Description Inherited)} {input : Option Made}
    (standard : StandardOpen start) (noEnds : NoEnds start) (wired : WiredTo start input process)
    (freshForks : process.forks = 0) (freshPipes : process.pipes = 0)
    (above : ∀ made ∈ input, made.1.length < process.pid.length) {count : Nat}
    (writes : (stage :: rest)[count]? = some before) (reads : rest[count]? = some after)
    (writing : Bool) :
    holders writing (pipeAfter process.pid count)
        ((runCmd kernel (pipelineTree stage rest) position).run process) =
      if writing then
        writersOf (makerPid process.pid count) (redirects 1 (redirectionsOf before.items))
      else readersOf (makerPid process.pid (count + 1)) (rest.length - (count + 1))
        (redirects 0 (redirectionsOf after.items)) := by
  induction rest generalizing stage position process input count with
  | nil => cases reads
  | cons next rest ih =>
      have inputAbove : input ≠ some (pipeAfter process.pid count) := by
        intro same
        have less := above _ same
        rw [pipeAfter, maker_pid_length] at less
        omega
      have rightWired := wired_right standard wired
      have rightPid : (rightChild process).pid = 1 :: process.pid := by
        have pid : (rightChild process).pid = (process.forks + 1) :: process.pid := rfl
        rw [pid, freshForks]
      have notLast : given writing input none ≠ some (pipeAfter process.pid count) := by
        cases writing with
        | true => exact (Option.some_ne_none _).symm
        | false => exact inputAbove
      rw [holders_pipeline succeed stage next rest position standard noEnds wired, if_neg notLast,
        List.append_nil]
      cases count with
      | zero =>
          have isStage : stage = before := Option.some.inj writes
          have isNext : next = after := Option.some.inj reads
          have own : pipeAfter process.pid 0 = (process.pid, process.pipes) := by
            rw [freshPipes]
            rfl
          have below : (pipeAfter process.pid 0).1.length < (rightChild process).pid.length := by
            rw [rightPid]
            exact Nat.lt_succ_self _
          rw [holders_of_given succeed next rest (.right :: position) standard noEnds rightWired rfl
            writing below, own, rightPid, isStage, isNext, freshForks]
          cases writing with
          | true =>
              cases redirected : redirects 1 (redirectionsOf before.items) with
              | true => simp [given, redirected, writersOf]
              | false => simp [given, redirected, writersOf, makerPid]
          | false =>
              have noInput : input ≠ some (process.pid, process.pipes) := own ▸ inputAbove
              simp [given, noInput, makerPid]
      | succ count =>
          have inner := @ih next (.right :: position) (rightChild process)
            (some (process.pid, process.pipes)) rightWired rfl rfl (by
              intro made isInput
              rw [← Option.some.inj isInput, rightPid]
              exact Nat.lt_succ_self _) count writes reads
          have notHere : given writing input (some (process.pid, process.pipes)) ≠
              some (pipeAfter process.pid (count + 1)) := by
            cases writing with
            | true =>
                intro same
                have lengths := congrArg (fun made : Made => made.1.length) (Option.some.inj same)
                simp only [pipeAfter, maker_pid_length] at lengths
                omega
            | false => exact inputAbove
          have shifted : pipeAfter (1 :: process.pid) count = pipeAfter process.pid (count + 1) := by
            rw [pipeAfter, maker_pid_succ, pipeAfter]
          rw [rightPid, shifted, maker_pid_succ, maker_pid_succ] at inner
          rw [if_neg fun both => notHere both.1, List.nil_append, inner, List.length_cons,
            Nat.add_sub_add_right]

theorem caller_standard {table : Table Inherited} (standard : StandardOpen (lookup table)) :
    StandardOpen (lookup (caller table).table) := by
  simpa only [StandardOpen, lookup_inherited, ne_eq, Option.map_eq_none_iff] using standard

theorem caller_no_ends (table : Table Inherited) : NoEnds (lookup (caller table).table) := by
  intro number pipe
  rw [lookup_inherited]
  cases lookup table number with
  | none => simp
  | some item => simp

theorem caller_wired (table : Table Inherited) :
    WiredTo (lookup (caller table).table) none (caller table) := by
  intro number
  match number with
  | 0 => rfl
  | 1 => rfl
  | number + 2 => rfl

theorem pipe_ends_held {kernel : Kernel} (succeed : AllSucceed kernel) {stage before after : Stage}
    {rest : List Stage} {table : Table Inherited} (standard : StandardOpen (lookup table))
    {count : Nat} (writes : (stage :: rest)[count]? = some before)
    (reads : rest[count]? = some after) :
    holders true (pipeAfter [] count)
        ((runCmd kernel (pipelineTree stage rest) []).run (caller table)) =
      writersOf (makerPid [] count) (redirects 1 (redirectionsOf before.items)) ∧
    holders false (pipeAfter [] count)
        ((runCmd kernel (pipelineTree stage rest) []).run (caller table)) =
      readersOf (makerPid [] (count + 1)) (rest.length - (count + 1))
        (redirects 0 (redirectionsOf after.items)) := by
  have both := @holders_of_made _ _ succeed stage before after rest [] (caller table) _ none
    (caller_standard standard) (caller_no_ends table) (caller_wired table) rfl rfl
    (fun made impossible => nomatch impossible) count writes reads
  exact ⟨both true, both false⟩

/-- Of three stages: the second child runs the third and stays behind with the
read end of the first pipe. -/
theorem three_stages_hold :
    holders true ([], 0) ((runCmd allSucceed (pipelineTree stageA [stageB, stageA]) []).run
        (caller [some (), some (), some ()])) = [[0]] ∧
      holders false ([], 0) ((runCmd allSucceed (pipelineTree stageA [stageB, stageA]) []).run
        (caller [some (), some (), some ()])) = [[0, 1], [1]] :=
  @pipe_ends_held _ _ all_succeed stageA stageA stageB [stageB, stageA] [some (), some (), some ()]
    (by simp [StandardOpen, lookup]) 0 rfl rfl

end Sysprog.Shell.PipeEnds
