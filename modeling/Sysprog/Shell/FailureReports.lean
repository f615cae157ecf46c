import Mathlib.Data.List.Forall2
import Sysprog.Shell.CommandRuns

/-!
# What a process reports

Whatever the kernel decides, the lines on `stderr` of each process name just
the commands it reached and could not run, and one line stands for each of its
`open` calls that failed; a `fork` or `pipe` that fails prints nothing. A
process exits only where the tree has an empty command or after a `pipe` of its
own failed.
-/

namespace Sysprog.Shell.FailureReports

open Processes DescriptorTable Commands Interpreter CommandRuns

set_option autoImplicit false

variable {Inherited : Type}

/-- The CMD_EXEC nodes of a command with their words. -/
def commandsOf : Command → Position → List (Position × List Text)
  | .exec argv, position => [(position, argv)]
  | .pipe left right, position =>
      commandsOf left (.left :: position) ++ commandsOf right (.right :: position)
  | .redirect cmd _ _ _, position => commandsOf cmd (.inner :: position)

def execFailed : String := "exec %s failed\n"
def openFailed : String := "open %s failed\n"

def failedNames (stderr : List (String × Text)) : List Text :=
  stderr.filterMap fun line => if line.1 = execFailed then some line.2 else none

def failedOpens (stderr : List (String × Text)) : Nat :=
  stderr.countP fun line => line.1 = openFailed

def opensFailing (kernel : Kernel) (pid : Pid) (opens : Nat) : Nat :=
  (List.range opens).countP fun count => !kernel.opens pid count

def Named (nodes : List (Position × List Text)) (node : Position) (name : Text) : Prop :=
  ∃ arguments, (node, name :: arguments) ∈ nodes

/-- The process was at these nodes, none of them could be run, and its lines
say so. -/
structure Reported (kernel : Kernel) (nodes : List (Position × List Text)) (done : List Position)
    (process : Process Inherited) : Prop where
  names : List.Forall₂ (Named nodes) done (failedNames process.stderr)
  opens : failedOpens process.stderr = opensFailing kernel process.pid process.opens

/-- It is at the last of these nodes, whose command has this name. -/
def Trying (kernel : Kernel) (nodes : List (Position × List Text)) (name : Text)
    (arguments : List Text) (process : Process Inherited) : Prop :=
  ∃ done node, process.attempts = done ++ [node] ∧ (node, name :: arguments) ∈ nodes ∧
    Reported kernel nodes done process

/-- How a process can have ended. With 0 it exits at an empty command, so the
tree has one. -/
def EndedBy (kernel : Kernel) (nodes : List (Position × List Text)) (ending : Ending)
    (process : Process Inherited) : Prop :=
  match ending with
  | .exited status => Reported kernel nodes process.attempts process ∧
      (status = 0 ∧ (∃ node, (node, []) ∈ nodes) ∨
        status = 100 ∧ ∃ count, process.pipes = count + 1 ∧
          kernel.pipes process.pid count = false)
  | .replaced path argv => ∃ name arguments, argv = name :: arguments ∧
      Trying kernel nodes name arguments process ∧ path ∈ [name, str1 ++ name, str2 ++ name] ∧
      ∃ count, process.execs = count + 1 ∧ kernel.execs process.pid count = true
  | .overrun => ∃ name arguments, Trying kernel nodes name arguments process ∧ 91 ≤ name.length

def Accounted (kernel : Kernel) (nodes : List (Position × List Text)) (process : Process Inherited) :
    Prop :=
  Reported kernel nodes process.attempts process

section Calls

variable {kernel : Kernel} {nodes : List (Position × List Text)}

theorem failed_names_append (stderr lines : List (String × Text)) :
    failedNames (stderr ++ lines) = failedNames stderr ++ failedNames lines :=
  List.filterMap_append

theorem failed_opens_append (stderr lines : List (String × Text)) :
    failedOpens (stderr ++ lines) = failedOpens stderr + failedOpens lines :=
  List.countP_append

theorem opens_failing_succ (pid : Pid) (opens : Nat) :
    opensFailing kernel pid (opens + 1) =
      opensFailing kernel pid opens + if kernel.opens pid opens = true then 0 else 1 := by
  rw [opensFailing, List.range_succ, List.countP_append, opensFailing, List.countP_singleton]
  cases kernel.opens pid opens with
  | true => rfl
  | false => rfl

theorem accounted_child (process : Process Inherited) : Accounted kernel nodes (childOf process) :=
  ⟨List.Forall₂.nil, rfl⟩

/-- What neither reaches a command nor prints nor opens. -/
structure Quiet (change : Process Inherited → Process Inherited) : Prop where
  pid : ∀ process, (change process).pid = process.pid
  opens : ∀ process, (change process).opens = process.opens
  stderr : ∀ process, (change process).stderr = process.stderr
  attempts : ∀ process, (change process).attempts = process.attempts

theorem reported_quiet {change : Process Inherited → Process Inherited} (quiet : Quiet change)
    {done : List Position} {process : Process Inherited}
    (reported : Reported kernel nodes done process) :
    Reported kernel nodes done (change process) := by
  constructor
  · rw [quiet.stderr]
    exact reported.names
  · rw [quiet.stderr, quiet.pid, quiet.opens]
    exact reported.opens

theorem accounted_quiet {change : Process Inherited → Process Inherited} (quiet : Quiet change)
    {process : Process Inherited} (accounted : Accounted kernel nodes process) :
    Accounted kernel nodes (change process) := by
  rw [Accounted, quiet.attempts]
  exact reported_quiet quiet accounted

theorem quiet_fork : Quiet (@countFork Inherited) :=
  ⟨fun _ => rfl, fun _ => rfl, fun _ => rfl, fun _ => rfl⟩

theorem quiet_pipe : Quiet (@countPipe Inherited) :=
  ⟨fun _ => rfl, fun _ => rfl, fun _ => rfl, fun _ => rfl⟩

theorem quiet_piped : Quiet (@pipedProcess Inherited) :=
  ⟨fun _ => rfl, fun _ => rfl, fun _ => rfl, fun _ => rfl⟩

theorem quiet_closed (number : Nat) : Quiet (@closedProcess Inherited number) :=
  ⟨fun _ => rfl, fun _ => rfl, fun _ => rfl, fun _ => rfl⟩

theorem quiet_duped (old new : Nat) : Quiet (@dupedProcess Inherited old new) :=
  ⟨fun _ => rfl, fun _ => rfl, fun _ => rfl, fun _ => rfl⟩

theorem quiet_exec : Quiet (@countExec Inherited) :=
  ⟨fun _ => rfl, fun _ => rfl, fun _ => rfl, fun _ => rfl⟩

theorem ensures_quiet {change : Process Inherited → Process Inherited} (quiet : Quiet change) :
    Ensures (Accounted kernel nodes) (modify change : InProcess Inherited Unit)
      (fun _ => Accounted kernel nodes) (EndedBy kernel nodes) :=
  ensures_modify fun _ accounted => accounted_quiet quiet accounted

/-! ## The calls -/

theorem ensures_fork_call :
    Ensures (Accounted kernel nodes) (forkCall kernel : InProcess Inherited Bool)
      (fun _ => Accounted kernel nodes) (EndedBy kernel nodes) := by
  apply ensures_get
  intro read holds
  split_ifs
  · apply ensures_fork
    · intro process _
      exact accounted_child process
    · intro process same
      rw [same]
      exact accounted_quiet quiet_fork holds
  · refine ensures_bind (ensures_modify ?_) fun _ => ensures_pure fun _ kept => kept
    intro process same
    rw [same]
    exact accounted_quiet quiet_fork holds

def Piped (kernel : Kernel) (nodes : List (Position × List Text)) (process : Process Inherited) :
    Option (Nat × Nat) → Prop
  | none => EndedBy kernel nodes (.exited 100) process
  | some _ => Accounted kernel nodes process

theorem ensures_pipe_call :
    Ensures (Accounted kernel nodes) (pipeCall kernel : InProcess Inherited (Option (Nat × Nat)))
      (fun numbers process => Piped kernel nodes process numbers) (EndedBy kernel nodes) := by
  apply ensures_get
  intro read holds
  split_ifs with succeeds
  · refine ensures_bind (ensures_modify ?_) fun _ => ensures_pure fun _ kept => kept
    intro process same
    rw [same]
    exact accounted_quiet quiet_piped holds
  · refine ensures_bind (ensures_modify ?_) fun _ => ensures_pure fun _ kept => kept
    intro process same
    rw [same]
    exact ⟨accounted_quiet quiet_pipe holds, .inr ⟨rfl, read.pipes, rfl, eq_false_of_ne_true succeeds⟩⟩

def Opened (kernel : Kernel) (nodes : List (Position × List Text)) (process : Process Inherited)
    (opened : Bool) : Prop :=
  opened = true ∧ Accounted kernel nodes process ∨
    opened = false ∧ ∀ file, Accounted kernel nodes (printedProcess openFailed file process)

theorem ensures_open_call (file : Text) (mode : Nat) :
    Ensures (Accounted kernel nodes) (openCall kernel file mode : InProcess Inherited Bool)
      (fun opened process => Opened kernel nodes process opened) (EndedBy kernel nodes) := by
  apply ensures_get
  intro read holds
  split_ifs with succeeds
  · refine ensures_bind (ensures_modify ?_) fun _ => ensures_pure fun _ kept => kept
    intro process same
    rw [same]
    refine .inl ⟨rfl, holds.names, ?_⟩
    have counted := @opens_failing_succ kernel read.pid read.opens
    rw [if_pos succeeds, Nat.add_zero] at counted
    exact holds.opens.trans counted.symm
  · refine ensures_bind (ensures_modify ?_) fun _ => ensures_pure fun _ kept => kept
    intro process same
    rw [same]
    refine .inr ⟨rfl, fun name => ⟨?_, ?_⟩⟩
    · have names : failedNames (printedProcess openFailed name (countOpen read)).stderr =
          failedNames read.stderr := by
        have printed := failed_names_append read.stderr [(openFailed, name)]
        exact printed.trans (List.append_nil _)
      rw [names]
      exact holds.names
    · have counted := @opens_failing_succ kernel read.pid read.opens
      rw [if_neg succeeds, ← holds.opens] at counted
      have printed := failed_opens_append read.stderr [(openFailed, name)]
      exact printed.trans counted.symm

/-! ## The `execv` lines -/

variable {name : Text} {arguments : List Text}

theorem trying_quiet {change : Process Inherited → Process Inherited} (quiet : Quiet change)
    {process : Process Inherited} (trying : Trying kernel nodes name arguments process) :
    Trying kernel nodes name arguments (change process) := by
  obtain ⟨done, node, attempts, present, reported⟩ := trying
  exact ⟨done, node, (quiet.attempts process).trans attempts, present,
    reported_quiet quiet reported⟩

theorem ensures_attempt {position : Position} (present : (position, name :: arguments) ∈ nodes) :
    Ensures (Accounted kernel nodes) (attempt position : InProcess Inherited Unit)
      (fun _ => Trying kernel nodes name arguments) (EndedBy kernel nodes) := by
  apply ensures_modify
  intro process accounted
  exact ⟨process.attempts, position, rfl, present, accounted.names, accounted.opens⟩

theorem ensures_execv {path : Text} (onPath : path ∈ [name, str1 ++ name, str2 ++ name]) :
    Ensures (Trying kernel nodes name arguments)
      (execv kernel path (name :: arguments) : InProcess Inherited Unit)
      (fun _ => Trying kernel nodes name arguments) (EndedBy kernel nodes) := by
  apply ensures_get
  intro read trying
  have counted : Ensures (fun process => process = read)
      (modify countExec : InProcess Inherited Unit)
      (fun _ process => process = countExec read) (EndedBy kernel nodes) :=
    ensures_modify fun process same => by rw [same]
  refine ensures_bind counted ?_
  intro _
  split_ifs with succeeds
  · apply ensures_finish
    intro process same
    rw [same]
    exact ⟨name, arguments, rfl, trying_quiet quiet_exec trying, onPath, read.execs, rfl, succeeds⟩
  · apply ensures_pure
    intro process same
    rw [same]
    exact trying_quiet quiet_exec trying

/-- A name of at most 90 bytes fits behind both directories. -/
theorem ensures_strcat {dest : Text} (short : dest.length ≤ str2.length) :
    Ensures (Trying kernel nodes name arguments)
      (strcat 100 dest name : InProcess Inherited Text)
      (fun text process => text = dest ++ name ∧ Trying kernel nodes name arguments process)
      (EndedBy kernel nodes) := by
  rw [strcat]
  split_ifs with room
  · exact ensures_pure fun process trying => ⟨rfl, trying⟩
  · apply ensures_finish
    intro process trying
    have length : str2.length = 9 := rfl
    exact ⟨name, arguments, trying, by omega⟩

theorem ensures_report :
    Ensures (Trying kernel nodes name arguments)
      (fprintf execFailed name : InProcess Inherited Unit)
      (fun _ => Accounted kernel nodes) (EndedBy kernel nodes) := by
  apply ensures_modify
  intro process trying
  obtain ⟨done, node, attempts, present, reported⟩ := trying
  have names := failed_names_append process.stderr [(execFailed, name)]
  have opens := failed_opens_append process.stderr [(execFailed, name)]
  have all : List.Forall₂ (Named nodes) (done ++ [node]) (failedNames process.stderr ++ [name]) :=
    List.rel_append reported.names (.cons ⟨arguments, present⟩ .nil)
  constructor
  · rw [← attempts] at all
    exact names ▸ all
  · exact opens.trans reported.opens

theorem ensures_exec {argv : List Text} {position : Position} (present : (position, argv) ∈ nodes) :
    Ensures (Accounted kernel nodes) (runCmd kernel (.exec argv) position : InProcess Inherited Unit)
      (fun _ => Accounted kernel nodes) (EndedBy kernel nodes) := by
  cases argv with
  | nil =>
      apply ensures_finish
      intro process accounted
      exact ⟨accounted, .inl ⟨rfl, position, present⟩⟩
  | cons name arguments =>
      refine ensures_bind (ensures_attempt present) ?_
      intro _
      refine ensures_bind (ensures_execv List.mem_cons_self) ?_
      intro _
      refine ensures_bind (ensures_strcat (by decide)) ?_
      intro path1
      apply ensures_knowing
      rintro rfl
      refine ensures_bind (ensures_execv (by simp)) ?_
      intro _
      refine ensures_bind (ensures_strcat (Nat.le_refl _)) ?_
      intro path2
      apply ensures_knowing
      rintro rfl
      refine ensures_bind (ensures_execv (by simp)) ?_
      intro _
      exact ensures_report

/-! ## A whole command -/

theorem ensures_closing (fd0 fd1 : Nat) :
    Ensures (Accounted kernel nodes)
      (do closeCall fd0; closeCall fd1; wait; wait : InProcess Inherited Unit)
      (fun _ => Accounted kernel nodes) (EndedBy kernel nodes) := by
  refine ensures_bind (ensures_quiet (quiet_closed fd0)) ?_
  intro _
  refine ensures_bind (ensures_quiet (quiet_closed fd1)) ?_
  intro _
  exact ensures_bind (ensures_pure fun _ kept => kept) fun _ => ensures_pure fun _ kept => kept

theorem ensures_wired {Next : Type} {after : Next → Process Inherited → Prop} {condition : Prop}
    [Decidable condition] (old new other : Nat) {rest : InProcess Inherited Next}
    (ensuresRest : Ensures (Accounted kernel nodes) rest after (EndedBy kernel nodes)) :
    Ensures (Accounted kernel nodes) (do
      if condition then
        dup2Call old new
        closeCall old
      closeCall other
      rest : InProcess Inherited Next) after (EndedBy kernel nodes) := by
  have last : Ensures (Accounted kernel nodes) (closeCall other >>= fun _ => rest) after
      (EndedBy kernel nodes) :=
    ensures_bind (ensures_quiet (quiet_closed other)) fun _ => ensuresRest
  split_ifs
  · refine ensures_bind (ensures_quiet (quiet_duped old new)) ?_
    intro _
    exact ensures_bind (ensures_quiet (quiet_closed old)) fun _ => last
  · exact last

/-- The induction is on the command; its nodes are among those of the command
that was to be run. -/
theorem ensures_run_cmd {command : Command} {position : Position}
    (inside : ∀ one ∈ commandsOf command position, one ∈ nodes) :
    Ensures (Accounted kernel nodes) (runCmd kernel command position : InProcess Inherited Unit)
      (fun _ => Accounted kernel nodes) (EndedBy kernel nodes) := by
  induction command generalizing position with
  | exec argv => exact ensures_exec (inside _ (List.mem_singleton.mpr rfl))
  | pipe left right leftEnsures rightEnsures =>
      have atLeft := @leftEnsures (.left :: position) fun one member =>
        inside one (List.mem_append_left _ member)
      have atRight := @rightEnsures (.right :: position) fun one member =>
        inside one (List.mem_append_right _ member)
      refine ensures_bind ensures_pipe_call ?_
      intro numbers
      cases numbers with
      | none => exact ensures_finish fun _ failed => failed
      | some numbers =>
          rcases numbers with ⟨fd0, fd1⟩
          have last := @ensures_closing Inherited kernel nodes fd0 fd1
          have second : Ensures (Accounted kernel nodes) (do
              if ← forkCall kernel then
                if fd0 ≠ 0 then
                  dup2Call fd0 0
                  closeCall fd0
                closeCall fd1
                runCmd kernel right (.right :: position)
              closeCall fd0
              closeCall fd1
              wait
              wait : InProcess Inherited Unit) (fun _ => Accounted kernel nodes)
              (EndedBy kernel nodes) := by
            refine ensures_bind ensures_fork_call ?_
            intro child
            cases child with
            | true => exact ensures_wired fd0 0 fd1 (ensures_bind atRight fun _ => last)
            | false => exact last
          refine ensures_bind ensures_fork_call ?_
          intro child
          cases child with
          | true => exact ensures_wired fd1 1 fd0 (ensures_bind atLeft fun _ => second)
          | false => exact second
  | redirect cmd file mode fd ih =>
      have below := @ih (.inner :: position) inside
      refine ensures_bind (ensures_quiet (quiet_closed fd)) ?_
      intro _
      refine ensures_bind (ensures_open_call file mode) ?_
      intro opened
      cases opened with
      | true =>
          intro process either
          rcases either with ⟨_, accounted⟩ | ⟨impossible, _⟩
          · exact below process accounted
          · cases impossible
      | false =>
          refine ensures_bind (ensures_modify ?_) fun _ => below
          intro process either
          rcases either with ⟨impossible, _⟩ | ⟨_, accounted⟩
          · cases impossible
          · exact accounted file

end Calls

theorem failures_reported (kernel : Kernel) (command : Command) (table : Table Inherited) :
    ∀ outcome ∈ (runCmd kernel command []).run (caller table),
      Meets (fun _ => Accounted kernel (commandsOf command []))
        (EndedBy kernel (commandsOf command [])) outcome :=
  ensures_run_cmd (fun _ member => member) (caller table) ⟨List.Forall₂.nil, rfl⟩

def nothingFound : Kernel where
  forks _ _ := true
  pipes _ _ := true
  opens _ _ := true
  execs _ _ := false

/-- The command `a`, looked for in three places. -/
def notFound : Process Unit :=
  { caller [some (), some (), some ()] with
    execs := 3
    stderr := [(execFailed, [97])]
    attempts := [[]] }

theorem not_found_reported : Accounted nothingFound (commandsOf (.exec [[97]]) []) notFound :=
  failures_reported nothingFound (.exec [[97]]) [some (), some (), some ()] (notFound, .ok ())
    (List.mem_singleton.mpr rfl)

end Sysprog.Shell.FailureReports
