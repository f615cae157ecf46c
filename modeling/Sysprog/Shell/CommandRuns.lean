import Sysprog.Shell.Interpreter
import Sysprog.Shell.Pipelines

/-!
# Runs of commands

What each call does to the processes, and from it what `run_cmd` makes of a
pipe and of a stage when every `pipe` and `fork` succeeds.
-/

namespace Sysprog.Shell.CommandRuns

open Processes DescriptorTable Commands Interpreter Pipelines

set_option autoImplicit false

variable {Inherited : Type} {Next : Type}

/-- What all `pipe` and `fork` calls that succeed have in common. -/
def PipesAndForks (kernel : Kernel) : Prop :=
  (∀ pid count, kernel.pipes pid count = true) ∧ ∀ pid count, kernel.forks pid count = true

structure AllSucceed (kernel : Kernel) : Prop where
  pipesAndForks : PipesAndForks kernel
  opens : ∀ pid count, kernel.opens pid count = true
  execs : ∀ pid count, kernel.execs pid count = true

def allSucceed : Kernel where
  forks _ _ := true
  pipes _ _ := true
  opens _ _ := true
  execs _ _ := true

theorem all_succeed : AllSucceed allSucceed :=
  ⟨⟨fun _ _ => rfl, fun _ _ => rfl⟩, fun _ _ => rfl, fun _ _ => rfl⟩

theorem fork_call_run {kernel : Kernel} (forks : ∀ pid count, kernel.forks pid count = true)
    (next : Bool → InProcess Inherited Next) (process : Process Inherited) :
    (forkCall kernel >>= next).run process =
      (next true).run (childOf process) ++ (next false).run (countFork process) := by
  rw [forkCall, bind_assoc, get_run, if_pos (forks _ _), fork_run]

def pipeNumbers (process : Process Inherited) : Nat × Nat :=
  let first := openLowest process.table (.readEnd (process.pid, process.pipes))
  (first.1, (openLowest first.2 (.writeEnd (process.pid, process.pipes))).1)

theorem pipe_call_run {kernel : Kernel} (pipes : ∀ pid count, kernel.pipes pid count = true)
    (next : Option (Nat × Nat) → InProcess Inherited Next) (process : Process Inherited) :
    (pipeCall kernel >>= next).run process =
      (next (some (pipeNumbers process))).run (pipedProcess process) := by
  rw [pipeCall, bind_assoc, get_run, if_pos (pipes _ _), bind_assoc, modify_run, pure_bind_run]
  rfl

@[simp] theorem close_call_run (number : Nat) (next : Unit → InProcess Inherited Next)
    (process : Process Inherited) :
    (closeCall number >>= next).run process = (next ()).run (closedProcess number process) :=
  modify_run _ next process

@[simp] theorem dup2_call_run (old new : Nat) (next : Unit → InProcess Inherited Next)
    (process : Process Inherited) :
    (dup2Call old new >>= next).run process = (next ()).run (dupedProcess old new process) :=
  modify_run _ next process

@[simp] theorem fprintf_run (format : String) (argument : Text)
    (next : Unit → InProcess Inherited Next) (process : Process Inherited) :
    (fprintf format argument >>= next).run process =
      (next ()).run (printedProcess format argument process) :=
  modify_run _ next process

def wireLeft (fd0 fd1 : Nat) (process : Process Inherited) : Process Inherited :=
  { process with
    table := close (if fd1 ≠ 1 then close (dup2 process.table fd1 1) fd1 else process.table) fd0 }

def wireRight (fd0 fd1 : Nat) (process : Process Inherited) : Process Inherited :=
  { process with
    table := close (if fd0 ≠ 0 then close (dup2 process.table fd0 0) fd0 else process.table) fd1 }

def closeBoth (fd0 fd1 : Nat) (process : Process Inherited) : Process Inherited :=
  closedProcess fd1 (closedProcess fd0 process)

def closing (fd0 fd1 : Nat) : InProcess Inherited Unit :=
  ⟨fun process => [(closeBoth fd0 fd1 process, .ok ())]⟩

def rightHalf (kernel : Kernel) (right : Command) (position : Position) (fd0 fd1 : Nat) :
    InProcess Inherited Unit := ⟨fun process =>
  ((runCmd kernel right (.right :: position)).run (wireRight fd0 fd1 (childOf process))).flatMap
      (continued fun _ => closing fd0 fd1) ++
    [(closeBoth fd0 fd1 (countFork process), .ok ())]⟩

theorem closing_eq (fd0 fd1 : Nat) :
    (do closeCall fd0; closeCall fd1; wait; wait : InProcess Inherited Unit) = closing fd0 fd1 := by
  apply Program.ext
  funext process
  rw [close_call_run, close_call_run, wait, pure_bind_run, pure_run, closing]
  rfl

theorem wire_run (used onto unused : Nat) (rest : InProcess Inherited Next)
    (process : Process Inherited) :
    (do
      if used ≠ onto then
        dup2Call used onto
        closeCall used
      closeCall unused
      rest : InProcess Inherited Next).run process =
      rest.run { process with
        table := close (if used ≠ onto then close (dup2 process.table used onto) used
          else process.table) unused } := by
  by_cases apart : used ≠ onto
  · rw [if_pos apart, dup2_call_run, close_call_run, close_call_run, if_pos apart]
    rfl
  · rw [if_neg apart, close_call_run, if_neg apart]
    rfl

theorem right_half_eq {kernel : Kernel} (forks : ∀ pid count, kernel.forks pid count = true)
    (right : Command) (position : Position) (fd0 fd1 : Nat) :
    (do
      if ← forkCall kernel then
        if fd0 ≠ 0 then
          dup2Call fd0 0
          closeCall fd0
        closeCall fd1
        runCmd kernel right (.right :: position)
      closeCall fd0
      closeCall fd1
      wait
      wait) = @rightHalf Inherited kernel right position fd0 fd1 := by
  apply Program.ext
  funext process
  rw [fork_call_run forks, rightHalf]
  simp only [if_true, Bool.false_eq_true, if_false, closing_eq]
  rw [wire_run, bind_run, closing]
  rfl

/-- A left child that comes back from its command goes on as its parent does. -/
theorem run_pipe {kernel : Kernel} (succeed : PipesAndForks kernel) (left right : Command)
    (position : Position) (process : Process Inherited) :
    (runCmd kernel (.pipe left right) position).run process =
      ((runCmd kernel left (.left :: position)).run
          (wireLeft (pipeNumbers process).1 (pipeNumbers process).2
            (childOf (pipedProcess process)))).flatMap
        (continued fun _ => rightHalf kernel right position (pipeNumbers process).1
          (pipeNumbers process).2) ++
      (rightHalf kernel right position (pipeNumbers process).1 (pipeNumbers process).2).run
        (countFork (pipedProcess process)) := by
  rw [runCmd, pipe_call_run succeed.1]
  simp only [right_half_eq succeed.2]
  rw [fork_call_run succeed.2]
  simp only [if_true, Bool.false_eq_true, if_false]
  rw [wire_run, bind_run]
  rfl

/-! ## A stage -/

def redirected (kernel : Kernel) (file : Text) (mode fd : Nat) (process : Process Inherited) :
    Process Inherited :=
  if kernel.opens process.pid process.opens then openedProcess file mode (closedProcess fd process)
  else printedProcess "open %s failed\n" file (countOpen (closedProcess fd process))

theorem run_redirect (kernel : Kernel) (cmd : Command) (file : Text) (mode fd : Nat)
    (position : Position) (process : Process Inherited) :
    (runCmd kernel (.redirect cmd file mode fd) position).run process =
      (runCmd kernel cmd (.inner :: position)).run (redirected kernel file mode fd process) := by
  rw [runCmd, close_call_run, openCall, bind_assoc, get_run, redirected]
  by_cases succeeds : kernel.opens process.pid process.opens = true
  · have same : kernel.opens (closedProcess fd process).pid (closedProcess fd process).opens = true :=
      succeeds
    rw [if_pos succeeds, if_pos same, bind_assoc, modify_run, pure_bind_run]
    rfl
  · have same : ¬ kernel.opens (closedProcess fd process).pid (closedProcess fd process).opens = true :=
      succeeds
    rw [if_neg succeeds, if_neg same, bind_assoc, modify_run, pure_bind_run]
    simp only [Bool.not_false, if_true]
    rw [fprintf_run]

/-- The last redirection written is the first that is tried. -/
def redirectedAll (kernel : Kernel) (redirections : List Redirection) (process : Process Inherited) :
    Process Inherited :=
  redirections.foldr
    (fun redirection => redirected kernel redirection.file redirection.mode redirection.fd) process

theorem run_wrap (kernel : Kernel) (command : Command) (redirections : List Redirection)
    (position : Position) (process : Process Inherited) :
    (runCmd kernel (wrap command redirections) position).run process =
      (runCmd kernel command (List.replicate redirections.length .inner ++ position)).run
        (redirectedAll kernel redirections process) := by
  induction redirections generalizing command with
  | nil => rfl
  | cons redirection redirections ih =>
      have step := ih (.redirect command redirection.file redirection.mode redirection.fd)
      rw [run_redirect] at step
      exact step

structure SameRecord (before after : Process Inherited) : Prop where
  pid : after.pid = before.pid
  forks : after.forks = before.forks
  pipes : after.pipes = before.pipes
  execs : after.execs = before.execs
  attempts : after.attempts = before.attempts

theorem same_record_redirected (kernel : Kernel) (redirections : List Redirection)
    (process : Process Inherited) :
    SameRecord process (redirectedAll kernel redirections process) := by
  induction redirections with
  | nil => exact ⟨rfl, rfl, rfl, rfl, rfl⟩
  | cons redirection redirections ih =>
      have step : SameRecord (redirectedAll kernel redirections process)
          (redirectedAll kernel (redirection :: redirections) process) := by
        simp only [redirectedAll, List.foldr_cons, redirected]
        split_ifs
        all_goals exact ⟨rfl, rfl, rfl, rfl, rfl⟩
      exact ⟨step.pid.trans ih.pid, step.forks.trans ih.forks, step.pipes.trans ih.pipes,
        step.execs.trans ih.execs, step.attempts.trans ih.attempts⟩

def execEnd (kernel : Kernel) (pid : Pid) (execs : Nat) : List Text → Except Ending Unit
  | [] => .error (.exited 0)
  | name :: arguments =>
      if kernel.execs pid execs then .error (.replaced name (name :: arguments))
      else if str1.length + name.length < 100 then
        if kernel.execs pid (execs + 1) then
          .error (.replaced (str1 ++ name) (name :: arguments))
        else if str2.length + name.length < 100 then
          if kernel.execs pid (execs + 1 + 1) then
            .error (.replaced (str2 ++ name) (name :: arguments))
          else .ok ()
        else .error .overrun
      else .error .overrun

@[simp] theorem count_exec_pid (process : Process Inherited) :
    (countExec process).pid = process.pid := rfl

@[simp] theorem count_exec_execs (process : Process Inherited) :
    (countExec process).execs = process.execs + 1 := rfl

@[simp] theorem attempted_pid (position : Position) (process : Process Inherited) :
    (attemptedProcess position process).pid = process.pid := rfl

@[simp] theorem attempted_execs (position : Position) (process : Process Inherited) :
    (attemptedProcess position process).execs = process.execs := rfl

theorem execv_run (kernel : Kernel) (path : Text) (argv : List Text)
    (next : Unit → InProcess Inherited Next) (process : Process Inherited) :
    (execv kernel path argv >>= next).run process =
      if kernel.execs process.pid process.execs then
        [(countExec process, .error (.replaced path argv))]
      else (next ()).run (countExec process) := by
  rw [execv, bind_assoc, get_run, bind_assoc, modify_run]
  split_ifs
  · rw [finish_run]
  · rw [pure_bind_run]

theorem strcat_run (size : Nat) (dest src : Text) (next : Text → InProcess Inherited Next)
    (process : Process Inherited) :
    (strcat size dest src >>= next).run process =
      if dest.length + src.length < size then (next (dest ++ src)).run process
      else [(process, .error .overrun)] := by
  rw [strcat]
  split_ifs
  · rw [pure_bind_run]
  · rw [finish_run]

/-- What becomes of a process that tries to run a command, whether or not one of
its `execv` calls succeeds. -/
structure Tried (position : Position) (before after : Process Inherited) : Prop where
  pid : after.pid = before.pid
  forks : after.forks = before.forks
  table : after.table = before.table
  attempts : after.attempts = before.attempts ++ [position]

theorem run_exec (kernel : Kernel) (name : Text) (arguments : List Text) (position : Position)
    (process : Process Inherited) :
    ∃ after, (runCmd kernel (.exec (name :: arguments)) position).run process =
        [(after, execEnd kernel process.pid process.execs (name :: arguments))] ∧
      Tried position process after := by
  rw [runCmd, attempt, modify_run, execv_run, attempted_pid, attempted_execs, execEnd]
  by_cases first : kernel.execs process.pid process.execs = true
  · rw [if_pos first, if_pos first]
    exact ⟨_, rfl, rfl, rfl, rfl, rfl⟩
  rw [if_neg first, if_neg first, strcat_run]
  by_cases room : str1.length + name.length < 100
  · rw [if_pos room, if_pos room, execv_run, count_exec_pid, count_exec_execs, attempted_pid,
      attempted_execs]
    by_cases second : kernel.execs process.pid (process.execs + 1) = true
    · rw [if_pos second, if_pos second]
      exact ⟨_, rfl, rfl, rfl, rfl, rfl⟩
    rw [if_neg second, if_neg second, strcat_run]
    by_cases more : str2.length + name.length < 100
    · rw [if_pos more, if_pos more, execv_run, count_exec_pid, count_exec_execs, count_exec_pid,
        count_exec_execs, attempted_pid, attempted_execs]
      by_cases third : kernel.execs process.pid (process.execs + 1 + 1) = true
      · rw [if_pos third, if_pos third]
        exact ⟨_, rfl, rfl, rfl, rfl, rfl⟩
      · rw [if_neg third, if_neg third]
        exact ⟨_, rfl, rfl, rfl, rfl, rfl⟩
    · rw [if_neg more, if_neg more]
      exact ⟨_, rfl, rfl, rfl, rfl, rfl⟩
  · rw [if_neg room, if_neg room]
    exact ⟨_, rfl, rfl, rfl, rfl, rfl⟩

theorem words_of_stage (stage : Stage) :
    ∃ name arguments, wordsOf stage.items = name :: arguments := by
  obtain ⟨text, rest, first⟩ := stage.wordFirst
  exact ⟨text, wordsOf rest, by rw [first]; rfl⟩

theorem exec_end_succeeds {kernel : Kernel} (succeed : AllSucceed kernel) (pid : Pid) (execs : Nat)
    (stage : Stage) : ∃ path, execEnd kernel pid execs (wordsOf stage.items) =
      .error (.replaced path (wordsOf stage.items)) := by
  obtain ⟨name, arguments, words⟩ := words_of_stage stage
  rw [words]
  exact ⟨name, if_pos (succeed.execs pid execs)⟩

def stagePosition (stage : Stage) (position : Position) : Position :=
  List.replicate (redirectionsOf stage.items).length .inner ++ position

theorem run_stage (kernel : Kernel) (stage : Stage) (position : Position)
    (process : Process Inherited) :
    ∃ after, (runCmd kernel (stageTree stage.items) position).run process =
        [(after, execEnd kernel process.pid process.execs (wordsOf stage.items))] ∧
      Tried (stagePosition stage position)
        { process with table := (redirectedAll kernel (redirectionsOf stage.items) process).table }
        after := by
  obtain ⟨name, arguments, words⟩ := words_of_stage stage
  have record := same_record_redirected kernel (redirectionsOf stage.items) process
  obtain ⟨after, ran, tried⟩ := run_exec kernel name arguments (stagePosition stage position)
    (redirectedAll kernel (redirectionsOf stage.items) process)
  refine ⟨after, ?_, ?_⟩
  · rw [stageTree, run_wrap, words]
    rw [record.pid, record.execs] at ran
    exact ran
  · exact ⟨tried.pid.trans record.pid, tried.forks.trans record.forks, tried.table,
      by rw [tried.attempts, record.attempts]⟩

/-! ## After a command -/

/-- Every process that comes back closes both ends. -/
def closeReturned (fd0 fd1 : Nat) :
    Outcome (Process Inherited) Ending Unit → Outcome (Process Inherited) Ending Unit
  | (process, .ok _) => (closeBoth fd0 fd1 process, .ok ())
  | (process, .error ending) => (process, .error ending)

/-- What depends on no descriptor does not see the ends being closed. -/
theorem same_of_close_returned {Observed : Type}
    (observe : Outcome (Process Inherited) Ending Unit → Observed) (fd0 fd1 : Nat)
    (unseen : ∀ process, observe (closeBoth fd0 fd1 process, .ok ()) = observe (process, .ok ())) :
    observe ∘ closeReturned fd0 fd1 = observe := by
  funext outcome
  rcases outcome with ⟨process, result⟩
  cases result with
  | error ending => rfl
  | ok value => exact unseen process

theorem right_half_run (kernel : Kernel) (right : Command) (position : Position) (fd0 fd1 : Nat)
    (process : Process Inherited) :
    (rightHalf kernel right position fd0 fd1).run process =
      ((runCmd kernel right (.right :: position)).run (wireRight fd0 fd1 (childOf process))).map
          (closeReturned fd0 fd1) ++ [(closeBoth fd0 fd1 (countFork process), .ok ())] := by
  have each : (continued fun _ => closing fd0 fd1) = fun outcome : Outcome (Process Inherited) _ _ =>
      [closeReturned fd0 fd1 outcome] := by
    funext outcome
    rcases outcome with ⟨after, result⟩
    cases result with
    | error ending => rfl
    | ok value => rfl
  rw [rightHalf, each, List.map_eq_flatMap]

/-! ## What every process of a command keeps -/

/-- What no call but the record of an attempt can change. -/
structure CallsKeep (invariant : Process Inherited → Prop) : Prop where
  child : ∀ process, invariant process → invariant (childOf process)
  forked : ∀ process, invariant process → invariant (countFork process)
  piped : ∀ process, invariant process → invariant (pipedProcess process)
  notPiped : ∀ process, invariant process → invariant (countPipe process)
  closed : ∀ number process, invariant process → invariant (closedProcess number process)
  duped : ∀ old new process, invariant process → invariant (dupedProcess old new process)
  opened : ∀ name mode process, invariant process → invariant (openedProcess name mode process)
  notOpened : ∀ process, invariant process → invariant (countOpen process)
  tried : ∀ process, invariant process → invariant (countExec process)
  printed : ∀ format argument process, invariant process →
    invariant (printedProcess format argument process)

section Executing

variable {invariant : Process Inherited → Prop} (kernel : Kernel)

theorem keeps_execv (tried : ∀ process, invariant process → invariant (countExec process))
    (path : Text) (argv : List Text) : Keeps invariant (execv kernel path argv) := by
  refine keeps_bind keeps_get ?_
  intro process
  refine keeps_bind (keeps_modify tried) ?_
  intro _
  split_ifs
  · exact keeps_finish _
  · exact keeps_pure ()

theorem keeps_strcat (size : Nat) (dest src : Text) : Keeps invariant (strcat size dest src) := by
  rw [strcat]
  split_ifs
  · exact keeps_pure _
  · exact keeps_finish _

theorem exec_keeps (tried : ∀ process, invariant process → invariant (countExec process))
    (printed : ∀ format argument process, invariant process →
      invariant (printedProcess format argument process)) {position : Position}
    (attempted : ∀ process, invariant process → invariant (attemptedProcess position process))
    (argv : List Text) : Keeps invariant (runCmd kernel (.exec argv) position) := by
  cases argv with
  | nil => exact keeps_finish _
  | cons name arguments =>
      refine keeps_bind (keeps_modify attempted) ?_
      intro _
      refine keeps_bind (keeps_execv kernel tried _ _) ?_
      intro _
      refine keeps_bind (keeps_strcat _ _ _) ?_
      intro path1
      refine keeps_bind (keeps_execv kernel tried _ _) ?_
      intro _
      refine keeps_bind (keeps_strcat _ _ _) ?_
      intro path2
      refine keeps_bind (keeps_execv kernel tried _ _) ?_
      intro _
      exact keeps_modify (printed _ _)

end Executing

section Keeping

variable {invariant : Process Inherited → Prop} (calls : CallsKeep invariant) (kernel : Kernel)

include calls

theorem keeps_fork_call : Keeps invariant (forkCall kernel) := by
  refine keeps_bind keeps_get ?_
  intro process
  split_ifs
  · exact keeps_fork calls.child calls.forked
  · exact keeps_bind (keeps_modify calls.forked) fun _ => keeps_pure false

theorem keeps_pipe_call : Keeps invariant (pipeCall kernel) := by
  refine keeps_bind keeps_get ?_
  intro process
  split_ifs
  · exact keeps_bind (keeps_modify calls.piped) fun _ => keeps_pure _
  · exact keeps_bind (keeps_modify calls.notPiped) fun _ => keeps_pure none

theorem keeps_close_call (number : Nat) : Keeps invariant (closeCall number) :=
  keeps_modify (calls.closed number)

theorem keeps_dup2_call (old new : Nat) : Keeps invariant (dup2Call old new) :=
  keeps_modify (calls.duped old new)

theorem keeps_open_call (name : Text) (mode : Nat) : Keeps invariant (openCall kernel name mode) := by
  refine keeps_bind keeps_get ?_
  intro process
  split_ifs
  · exact keeps_bind (keeps_modify (calls.opened name mode)) fun _ => keeps_pure true
  · exact keeps_bind (keeps_modify calls.notOpened) fun _ => keeps_pure false

theorem keeps_closing (fd0 fd1 : Nat) :
    Keeps invariant (do closeCall fd0; closeCall fd1; wait; wait : InProcess Inherited Unit) := by
  refine keeps_bind (keeps_close_call calls fd0) ?_
  intro _
  refine keeps_bind (keeps_close_call calls fd1) ?_
  intro _
  exact keeps_bind (keeps_pure ()) fun _ => keeps_pure ()

theorem keeps_wired {condition : Prop} [Decidable condition] (old new other : Nat)
    {rest : InProcess Inherited Next} (keepsRest : Keeps invariant rest) :
    Keeps invariant (do
      if condition then
        dup2Call old new
        closeCall old
      closeCall other
      rest : InProcess Inherited Next) := by
  have last : Keeps invariant (closeCall other >>= fun _ => rest) :=
    keeps_bind (keeps_close_call calls other) fun _ => keepsRest
  split_ifs
  · apply keeps_bind (keeps_dup2_call calls old new)
    intro _
    exact keeps_bind (keeps_close_call calls old) fun _ => last
  · exact last

/-- The induction is on the command; `root` is where it began. -/
theorem run_cmd_keeps {root : Position}
    (attempted : ∀ position, root <:+ position → ∀ process, invariant process →
      invariant (attemptedProcess position process))
    (command : Command) (position : Position) (below : root <:+ position) :
    Keeps invariant (runCmd kernel command position) := by
  induction command generalizing position with
  | exec argv => exact exec_keeps kernel calls.tried calls.printed (attempted position below) argv
  | pipe left right leftKeeps rightKeeps =>
      have atLeft := leftKeeps (.left :: position) (below.trans (List.suffix_cons _ _))
      have atRight := rightKeeps (.right :: position) (below.trans (List.suffix_cons _ _))
      refine keeps_bind (keeps_pipe_call calls kernel) ?_
      intro numbers
      cases numbers with
      | none => exact keeps_finish _
      | some numbers =>
          rcases numbers with ⟨fd0, fd1⟩
          have last := keeps_closing calls fd0 fd1
          have second : Keeps invariant (do
              if ← forkCall kernel then
                if fd0 ≠ 0 then
                  dup2Call fd0 0
                  closeCall fd0
                closeCall fd1
                runCmd kernel right (.right :: position)
              closeCall fd0
              closeCall fd1
              wait
              wait) := by
            refine keeps_bind (keeps_fork_call calls kernel) ?_
            intro child
            cases child with
            | true => exact keeps_wired calls fd0 0 fd1 (keeps_bind atRight fun _ => last)
            | false => exact last
          refine keeps_bind (keeps_fork_call calls kernel) ?_
          intro child
          cases child with
          | true => exact keeps_wired calls fd1 1 fd0 (keeps_bind atLeft fun _ => second)
          | false => exact second
  | redirect cmd file mode fd ih =>
      have inside := ih (.inner :: position) (below.trans (List.suffix_cons _ _))
      refine keeps_bind (keeps_close_call calls fd) ?_
      intro _
      refine keeps_bind (keeps_open_call calls kernel file mode) ?_
      intro opened
      cases opened with
      | true => exact inside
      | false => exact keeps_bind (keeps_modify (calls.printed _ _)) fun _ => inside

end Keeping

end Sysprog.Shell.CommandRuns
