import Sysprog.Library.Processes
import Sysprog.Library.DescriptorTable
import Sysprog.Shell.Commands

/-!
# The interpreter

`run_cmd` of `shell.c` over command trees, run from one process. What the
kernel decides is a function of the process and of how many calls of that
kind it has made, so that every order in which the processes can take turns is
covered by some kernel. `wait` returns when a child has ended, or has none to
wait for, and changes nothing here.
-/

namespace Sysprog.Shell.Interpreter

open Processes DescriptorTable Commands

set_option autoImplicit false

/-- The numbers of the forks that led to the process, latest first. -/
abbrev Pid := List Nat

/-- A pipe or an open file, by the process that made it and the count of its
calls of that kind. -/
abbrev Made := Pid × Nat

inductive Description (Inherited : Type) where
  | inherited (item : Inherited)
  | readEnd (pipe : Made)
  | writeEnd (pipe : Made)
  | file (name : Text) (mode : Nat) (opened : Made)
  deriving DecidableEq

structure Kernel where
  forks : Pid → Nat → Bool
  pipes : Pid → Nat → Bool
  opens : Pid → Nat → Bool
  execs : Pid → Nat → Bool

inductive Turn where
  | left
  | right
  | inner
  deriving DecidableEq

/-- A node of the tree, by the turns taken to it, latest first. -/
abbrev Position := List Turn

/-- How a process ends: by `exit`, replaced by another program, or lost by
writing past the end of `str1` or `str2`. -/
inductive Ending where
  | exited (status : Nat)
  | replaced (path : Text) (argv : List Text)
  | overrun
  deriving DecidableEq

/-- `stderr` holds each `fprintf` as its format and argument; `attempts` holds
the CMD_EXEC nodes whose `execv` lines this process has reached. -/
structure Process (Inherited : Type) where
  pid : Pid
  forks : Nat
  pipes : Nat
  opens : Nat
  execs : Nat
  table : Table (Description Inherited)
  stderr : List (String × Text)
  attempts : List Position
  deriving DecidableEq

variable {Inherited : Type}

/-- The process that calls `run_cmd`, with what it has inherited. -/
def caller (table : Table Inherited) : Process Inherited where
  pid := []
  forks := 0
  pipes := 0
  opens := 0
  execs := 0
  table := table.map (Option.map .inherited)
  stderr := []
  attempts := []

abbrev InProcess (Inherited Value : Type) := Program (Process Inherited) Ending Value

/-- The state of a new process: a copy, with its own record. -/
def childOf (process : Process Inherited) : Process Inherited where
  pid := process.forks :: process.pid
  forks := 0
  pipes := 0
  opens := 0
  execs := 0
  table := process.table
  stderr := []
  attempts := []

def countFork (process : Process Inherited) : Process Inherited :=
  { process with forks := process.forks + 1 }

def forkCall (kernel : Kernel) : InProcess Inherited Bool := do
  let process ← get
  if kernel.forks process.pid process.forks then fork childOf countFork
  else do
    modify countFork
    pure false

def countPipe (process : Process Inherited) : Process Inherited :=
  { process with pipes := process.pipes + 1 }

def pipedProcess (process : Process Inherited) : Process Inherited :=
  let made : Made := (process.pid, process.pipes)
  { countPipe process with
    table := (openLowest (openLowest process.table (.readEnd made)).2 (.writeEnd made)).2 }

/-- The two numbers `pipe` stores, or none when it fails. -/
def pipeCall (kernel : Kernel) : InProcess Inherited (Option (Nat × Nat)) := do
  let process ← get
  if kernel.pipes process.pid process.pipes then do
    let first := openLowest process.table (.readEnd (process.pid, process.pipes))
    let second := openLowest first.2 (.writeEnd (process.pid, process.pipes))
    modify pipedProcess
    pure (some (first.1, second.1))
  else do
    modify countPipe
    pure none

def closedProcess (number : Nat) (process : Process Inherited) : Process Inherited :=
  { process with table := close process.table number }

def closeCall (number : Nat) : InProcess Inherited Unit := modify (closedProcess number)

def dupedProcess (old new : Nat) (process : Process Inherited) : Process Inherited :=
  { process with table := dup2 process.table old new }

def dup2Call (old new : Nat) : InProcess Inherited Unit := modify (dupedProcess old new)

def countOpen (process : Process Inherited) : Process Inherited :=
  { process with opens := process.opens + 1 }

def openedProcess (name : Text) (mode : Nat) (process : Process Inherited) : Process Inherited :=
  { countOpen process with
    table := (openLowest process.table (.file name mode (process.pid, process.opens))).2 }

def openCall (kernel : Kernel) (name : Text) (mode : Nat) : InProcess Inherited Bool := do
  let process ← get
  if kernel.opens process.pid process.opens then do
    modify (openedProcess name mode)
    pure true
  else do
    modify countOpen
    pure false

def countExec (process : Process Inherited) : Process Inherited :=
  { process with execs := process.execs + 1 }

/-- `execv` comes back only when it fails. -/
def execv (kernel : Kernel) (path : Text) (argv : List Text) : InProcess Inherited Unit := do
  let process ← get
  modify countExec
  if kernel.execs process.pid process.execs then finish (.replaced path argv) else pure ()

def printedProcess (format : String) (argument : Text) (process : Process Inherited) :
    Process Inherited :=
  { process with stderr := process.stderr ++ [(format, argument)] }

def fprintf (format : String) (argument : Text) : InProcess Inherited Unit :=
  modify (printedProcess format argument)

def wait : InProcess Inherited Unit := pure ()

/-- `strcat` onto an array of that many characters. -/
def strcat (size : Nat) (dest src : Text) : InProcess Inherited Text :=
  if dest.length + src.length < size then pure (dest ++ src) else finish .overrun

def attemptedProcess (position : Position) (process : Process Inherited) : Process Inherited :=
  { process with attempts := process.attempts ++ [position] }

def attempt (position : Position) : InProcess Inherited Unit := modify (attemptedProcess position)

/-! `"/bin/"` and `"/usr/bin/"`. -/

def str1 : Text := [47, 98, 105, 110, 47]
def str2 : Text := [47, 117, 115, 114, 47, 98, 105, 110, 47]

def runCmd (kernel : Kernel) : Command → Position → InProcess Inherited Unit
  | .exec [], _ => finish (.exited 0)
  | .exec (name :: arguments), position => do
      attempt position
      execv kernel name (name :: arguments)
      let path1 ← strcat 100 str1 name
      execv kernel path1 (name :: arguments)
      let path2 ← strcat 100 str2 name
      execv kernel path2 (name :: arguments)
      fprintf "exec %s failed\n" name
  | .pipe left right, position => do
      match ← pipeCall kernel with
      | none => finish (.exited 100)
      | some (fd0, fd1) => do
          if ← forkCall kernel then
            if fd1 ≠ 1 then
              dup2Call fd1 1
              closeCall fd1
            closeCall fd0
            runCmd kernel left (.left :: position)
          if ← forkCall kernel then
            if fd0 ≠ 0 then
              dup2Call fd0 0
              closeCall fd0
            closeCall fd1
            runCmd kernel right (.right :: position)
          closeCall fd0
          closeCall fd1
          wait
          wait
  | .redirect cmd file mode fd, position => do
      closeCall fd
      let opened ← openCall kernel file mode
      if !opened then
        fprintf "open %s failed\n" file
      runCmd kernel cmd (.inner :: position)

end Sysprog.Shell.Interpreter
