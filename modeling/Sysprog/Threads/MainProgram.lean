import Sysprog.Threads.Accesses
import Sysprog.Threads.TaskExecute

/-!
# The program of the thread pool

`main` of `thread_pool.c`, statement by statement, with the accesses of the
workers between its own. It looks at no result of a call: a call that refuses
is followed by the next statement as one that does not. `thread_task_execute`
and `thread_pool_join` are here loop by loop, `pthread_create` succeeding or
not, and `pthread_join` waits until its worker has exited.
-/

namespace Sysprog.Threads.MainProgram

open CheckedRuns
open Pool (ThreadPool)
open TaskExecute (Creation)
open Accesses (Machine Report)

set_option autoImplicit false

def intMin : Int := -2147483648
def intMax : Int := 2147483647

/-- The arguments of the source: `thread_pool_new(4, &pool)` and `arg`. -/
def mainThreadCount : Int := 4
def mainArg : Int := 10

inductive Statement where
  | newTask
  | push (task : Nat)
  /-- in `thread_pool_push_task` -/
  | pushing (task : Nat)
  /-- in the loop of `thread_task_execute`, with this `i` -/
  | executing (task index : Nat)
  /-- before `free(tp)` -/
  | freeing (task : Nat)
  /-- before `free(tp->threads)` -/
  | freeingThreads (task : Nat)
  | join (task : Nat)
  /-- in `thread_task_join` -/
  | joining (task : Nat)
  | delete (task : Nat)
  /-- in `thread_task_delete` -/
  | deleting (task : Nat)
  | freeResult
  /-- in the loop of `thread_pool_join`, with this `i` -/
  | joiningPool (index : Nat)
  | deletePool
  | returned
  deriving DecidableEq

/-- `threads` are the handles, and `resArg` is the `int` of `res_arg`, as long
as it is allocated. -/
structure Program where
  machine : Machine
  threads : List (Option Nat)
  arg : Int
  resArg : Option Int
  statement : Statement

inductive Fault where
  | access (fault : Accesses.Fault)
  /-- A variable or a handle is read before anything was stored in it. -/
  | uninitialised
  | overflow
  deriving DecidableEq

inductive Step where
  /-- The next access of `main`; `creation` matters for a `pthread_create`. -/
  | main (creation : Creation)
  | work (worker : Nat)
  deriving DecidableEq

def access (program : Program) (step : Accesses.Step) : Except Fault (Report × Machine) :=
  match Accesses.perform program.machine step with
  | .error fault => .error (.access fault)
  | .ok done => .ok done

/-- What the join stores behind its second argument. -/
def resultOf (program : Program) : Report → Option Int
  | .joined _ value => some value
  | _ => program.resArg

/-- An access in a call: `main` stands `inside` until the call has returned. -/
def inCall (program : Program) (step : Accesses.Step) (inside behind : Statement) :
    Except Fault (Report × Program) := do
  let (report, machine) ← access program step
  .ok (report, { program with
    machine := machine
    resArg := resultOf program report
    statement := if machine.clients 0 = .outside then behind else inside })

/-- `pthread_create(&tp->threads[i], ..)` and `++tp->thread_count`. -/
def createThread (program : Program) (task index : Nat) :
    Creation → Except Fault (Report × Program)
  | .started => do
      let (report, machine) ← access program .create
      .ok (report, { program with
        machine := machine
        threads := program.threads.set index (some program.machine.workers.length)
        statement := .executing task (index + 1) })
  | .failed left => .ok (.silent, { program with
      threads := program.threads.set index left
      statement := .executing task (index + 1) })

/-- `thread_task_execute`, up to its `free`. -/
def executeStep (program : Program) (task index : Nat) (creation : Creation) :
    Except Fault (Report × Program) :=
  if program.machine.poolFreed then .error (.access .freedPool)
  else if (index : Int) < program.machine.pool.threadsSize then
    if index < program.threads.length then createThread program task index creation
    else .error (.access .outOfRange)
  else if program.machine.pool.threadCount ≠ program.machine.pool.threadsSize then
    .ok (.silent, { program with statement := .freeing task })
  else .ok (.silent, { program with statement := .join task })

/-- `pthread_join(pool->threads[i], NULL)`. -/
def joinThread (program : Program) (index : Nat) : Except Fault (Report × Program) :=
  match program.threads[index]? with
  | none => .error (.access .outOfRange)
  | some none => .error .uninitialised
  | some (some worker) =>
      match program.machine.workers[worker]? with
      | none => .error .uninitialised
      | some thread =>
          if thread.exited then .ok (.silent, { program with statement := .joiningPool (index + 1) })
          else .error (.access .notEnabled)

/-- `thread_pool_join`. -/
def joinPoolStep (program : Program) (index : Nat) : Except Fault (Report × Program) :=
  if program.machine.poolFreed then .error (.access .freedPool)
  else if (index : Int) < program.machine.pool.threadCount then joinThread program index
  else .ok (.silent, { program with statement := .deletePool })

def mainStep (program : Program) (creation : Creation) : Except Fault (Report × Program) :=
  match program.statement with
  | .newTask => do
      match ← access program .newTask with
      | (.made task, machine) => .ok (.made task, { program with
          machine := machine
          statement := .push task })
      | _ => .error .uninitialised
  | .push task => inCall program (.push 0 (some task)) (.pushing task) (.executing task 0)
  | .pushing task => inCall program (.advance 0) (.pushing task) (.executing task 0)
  | .executing task index => executeStep program task index creation
  | .freeing task => do
      let (report, machine) ← access program .deletePool
      .ok (report, { program with
        machine := machine
        statement := .freeingThreads task })
  | .freeingThreads task =>
      if program.machine.poolFreed then .error (.access .freedPool)
      else .ok (.silent, { program with statement := .join task })
  | .join task => inCall program (.join 0 (some task)) (.joining task) (.delete task)
  | .joining task => inCall program (.advance 0) (.joining task) (.delete task)
  | .delete task => inCall program (.delete 0 (some task)) (.deleting task) .freeResult
  | .deleting task => inCall program (.advance 0) (.deleting task) .freeResult
  | .freeResult =>
      match program.resArg with
      | none => .error .uninitialised
      | some _ => .ok (.silent, { program with
          resArg := none
          statement := .joiningPool 0 })
  | .joiningPool index => joinPoolStep program index
  | .deletePool => do
      let (report, machine) ← access program .deletePool
      .ok (report, { program with
        machine := machine
        statement := .returned })
  | .returned => .error (.access .notEnabled)

/-- `test_ret`, with the product of an `int`. -/
def testRet (arg : Int) : Except Fault Int :=
  if intMin ≤ arg * arg ∧ arg * arg ≤ intMax then .ok (arg * arg) else .error .overflow

/-- What the function of the task returns if the worker is about to call it. -/
def returnedTo (program : Program) (worker : Nat) : Except Fault (Option Int) :=
  match program.machine.critical with
  | some (holder, .calling _) => if holder = worker then (testRet program.arg).map some else .ok none
  | _ => .ok none

def workStep (program : Program) (worker : Nat) : Except Fault (Report × Program) := do
  let returned ← returnedTo program worker
  let (report, machine) ← access program (.work worker returned)
  .ok (report, { program with machine := machine })

def perform (program : Program) : Step → Except Fault (Report × Program)
  | .main creation => mainStep program creation
  | .work worker => workStep program worker

def start (pool : ThreadPool Nat) (arg : Int) : Program where
  machine := Accesses.start pool
  threads := List.replicate pool.threadsSize.toNat none
  arg := arg
  resArg := none
  statement := .newTask

abbrev History := List (Event Step Report)

end Sysprog.Threads.MainProgram
