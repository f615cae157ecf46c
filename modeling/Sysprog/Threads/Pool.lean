import Sysprog.Library.CheckedRuns
import Mathlib.Logic.Function.Basic

/-!
# The thread pool

`thread_pool.c` at the granularity of its critical sections: what stands
between `pthread_mutex_lock` and `pthread_mutex_unlock` is one step, and the
steps of any number of workers and clients interleave. The tasks' functions
do not use the pool; what one returns is chosen with the step that runs it.
-/

namespace Sysprog.Threads.Pool

open CheckedRuns

set_option autoImplicit false

def tpoolMaxThreads : Int := 20
def tpoolMaxTasks : Nat := 100000

/-! The codes of `enum thread_poool_errcode` the modelled functions return. -/

def tpoolErrInvalidArgument : Int := 1
def tpoolErrTooManyTasks : Int := 2

def lastIteration : Nat := 1000000000

structure ThreadTask (Value : Type) where
  ret : Option Value
  isFinished : Bool
  isRunning : Bool

structure ThreadPool (Task : Type) where
  threadsSize : Int
  threadCount : Int
  queue : List (Option Task)
  queueSize : Int
  queueHead : Int
  queueTail : Int
  queueCount : Int

/-- The local `counter` of `process_task` and whether the thread has exited. -/
structure Worker where
  counter : Nat
  exited : Bool

/-- The pool with everything around it. `clients` gives the task a client
inside `thread_pool_push_task` is about to store. -/
structure System (Task Value : Type) where
  pool : ThreadPool Task
  tasks : Task → ThreadTask Value
  clients : Nat → Option Task
  workers : List Worker

/-- `notEnabled` is no fault of the code: the thread is not at that point. -/
inductive Fault where
  | notEnabled
  | assertionFailed
  | outOfRange
  | nullTask
  deriving DecidableEq

def newPool (Task : Type) (maxThreadCount : Int) : ThreadPool Task where
  threadsSize := maxThreadCount
  threadCount := 0
  queue := List.replicate tpoolMaxTasks none
  queueSize := tpoolMaxTasks
  queueHead := 0
  queueTail := 0
  queueCount := 0

def threadPoolNew (Task : Type) (maxThreadCount : Int) : Except Int (ThreadPool Task) :=
  if maxThreadCount > tpoolMaxThreads ∨ maxThreadCount < 1 then .error tpoolErrInvalidArgument
  else .ok (newPool Task maxThreadCount)

def threadTaskNew (Value : Type) : ThreadTask Value := ⟨none, false, false⟩

inductive Action (Task Value : Type) where
  /-- A `pthread_create` of `thread_task_execute` succeeds. -/
  | create
  /-- A client calls `thread_pool_push_task` and comes up to the lock. -/
  | push (client : Nat) (task : Option Task)
  /-- A client goes through the critical section of `thread_pool_push_task`. -/
  | enqueue (client : Nat)
  /-- A worker goes once through the loop of `process_task`. -/
  | iterate (worker : Nat) (returned : Option Value)

inductive Outcome (Task : Type) where
  | created
  | refused (code : Int)
  | waiting
  | stored (index : Int) (task : Task)
  | executed (index : Int) (task : Task)
  | idle
  deriving DecidableEq

variable {Task Value : Type}

/-- The checks of `thread_pool_push_task` before the lock. The error code
after the two assertions is never returned. -/
def pushCheck (pool : ThreadPool Task) (task : Option Task) : Except Fault (Task ⊕ Int) :=
  match task with
  | none => .error .assertionFailed
  | some task =>
      if pool.threadCount + 1 = tpoolMaxTasks then .ok (.inr tpoolErrTooManyTasks)
      else .ok (.inl task)

/-- The critical section of `thread_pool_push_task`. -/
def pushTask (pool : ThreadPool Task) (task : Task) : Except Fault (ThreadPool Task) :=
  if 0 ≤ pool.queueTail ∧ pool.queueTail.toNat < pool.queue.length then
    .ok { pool with
      queue := pool.queue.set pool.queueTail.toNat (some task)
      queueTail := pool.queueTail + 1
      queueCount := pool.queueCount + 1 }
  else .error .outOfRange

def queueFront (pool : ThreadPool Task) : Except Fault (Option Task) :=
  if 0 ≤ pool.queueHead then
    match pool.queue[pool.queueHead.toNat]? with
    | none => .error .outOfRange
    | some task => .ok task
  else .error .outOfRange

theorem queue_front_ok {pool : ThreadPool Task} {front : Option Task}
    (found : queueFront pool = .ok front) :
    0 ≤ pool.queueHead ∧ pool.queue[pool.queueHead.toNat]? = some front := by
  unfold queueFront at found
  split_ifs at found with nonneg
  cases cell : pool.queue[pool.queueHead.toNat]? with
  | none => simp [cell] at found
  | some task =>
      simp only [cell, Except.ok.injEq] at found
      exact ⟨nonneg, congrArg some found⟩

variable [DecidableEq Task]

/-- The critical section of `process_task`. -/
def processTask (pool : ThreadPool Task) (tasks : Task → ThreadTask Value)
    (returned : Option Value) :
    Except Fault (Outcome Task × ThreadPool Task × (Task → ThreadTask Value)) := do
  if 0 < pool.queueCount then
    match ← queueFront pool with
    | none => .error .nullTask
    | some task =>
        .ok (.executed pool.queueHead task,
          { pool with
            queueHead := pool.queueHead + 1
            queueCount := pool.queueCount - 1 },
          Function.update tasks task ⟨returned, true, false⟩)
  else .ok (.idle, pool, tasks)

/-- `++counter` and the exit. -/
def countIteration (worker : Worker) : Worker where
  counter := worker.counter + 1
  exited := worker.counter + 1 = lastIteration

def perform (system : System Task Value) :
    Action Task Value → Except Fault (Outcome Task × System Task Value)
  | .create => .ok (.created, { system with
      pool := { system.pool with threadCount := system.pool.threadCount + 1 }
      workers := system.workers ++ [⟨0, false⟩] })
  | .push client task =>
      match system.clients client with
      | some _ => .error .notEnabled
      | none => do
          match ← pushCheck system.pool task with
          | .inr code => .ok (.refused code, system)
          | .inl task => .ok (.waiting, { system with
              clients := Function.update system.clients client (some task) })
  | .enqueue client =>
      match system.clients client with
      | none => .error .notEnabled
      | some task => do
          let pool ← pushTask system.pool task
          .ok (.stored system.pool.queueTail task, { system with
            pool := pool
            clients := Function.update system.clients client none })
  | .iterate worker returned =>
      match system.workers[worker]? with
      | none => .error .notEnabled
      | some thread =>
          if thread.exited then .error .notEnabled
          else do
            let (outcome, pool, tasks) ← processTask system.pool system.tasks returned
            .ok (outcome, { system with
              pool := pool
              tasks := tasks
              workers := system.workers.set worker (countIteration thread) })

def start (pool : ThreadPool Task) : System Task Value where
  pool := pool
  tasks := fun _ => threadTaskNew Value
  clients := fun _ => none
  workers := []

abbrev History (Task Value : Type) := List (Event (Action Task Value) (Outcome Task))

/-- Everything a step that completes can have done. -/
inductive Effect (system : System Task Value) :
    Action Task Value → Outcome Task → System Task Value → Prop where
  | created : Effect system .create .created { system with
      pool := { system.pool with threadCount := system.pool.threadCount + 1 }
      workers := system.workers ++ [⟨0, false⟩] }
  | refused {client : Nat} {task : Task} (full : system.pool.threadCount + 1 = tpoolMaxTasks) :
      Effect system (.push client (some task)) (.refused tpoolErrTooManyTasks) system
  | waiting {client : Nat} {task : Task} (fits : system.pool.threadCount + 1 ≠ tpoolMaxTasks) :
      Effect system (.push client (some task)) .waiting { system with
        clients := Function.update system.clients client (some task) }
  | stored {client : Nat} {task : Task} (pending : system.clients client = some task)
      (inside : 0 ≤ system.pool.queueTail ∧
        system.pool.queueTail.toNat < system.pool.queue.length) :
      Effect system (.enqueue client) (.stored system.pool.queueTail task) { system with
        pool := { system.pool with
          queue := system.pool.queue.set system.pool.queueTail.toNat (some task)
          queueTail := system.pool.queueTail + 1
          queueCount := system.pool.queueCount + 1 }
        clients := Function.update system.clients client none }
  | executed {worker : Nat} {thread : Worker} {returned : Option Value} {task : Task}
      (nonempty : 0 < system.pool.queueCount) (nonneg : 0 ≤ system.pool.queueHead)
      (front : system.pool.queue[system.pool.queueHead.toNat]? = some (some task)) :
      Effect system (.iterate worker returned) (.executed system.pool.queueHead task) { system with
        pool := { system.pool with
          queueHead := system.pool.queueHead + 1
          queueCount := system.pool.queueCount - 1 }
        tasks := Function.update system.tasks task ⟨returned, true, false⟩
        workers := system.workers.set worker (countIteration thread) }
  | idle {worker : Nat} {thread : Worker} {returned : Option Value}
      (empty : ¬ 0 < system.pool.queueCount) :
      Effect system (.iterate worker returned) .idle { system with
        workers := system.workers.set worker (countIteration thread) }

theorem perform_effect {system next : System Task Value} {action : Action Task Value}
    {outcome : Outcome Task} (performed : perform system action = .ok (outcome, next)) :
    Effect system action outcome next := by
  cases action with
  | create =>
      cases performed
      exact .created
  | push client task =>
      unfold perform at performed
      cases free : system.clients client with
      | some _ => simp [free] at performed
      | none =>
          simp only [free] at performed
          cases task with
          | none => cases performed
          | some task =>
              simp only [pushCheck] at performed
              split_ifs at performed with full
              · cases performed
                exact .refused full
              · cases performed
                exact .waiting full
  | enqueue client =>
      unfold perform at performed
      cases pending : system.clients client with
      | none => simp [pending] at performed
      | some task =>
          simp only [pending] at performed
          obtain ⟨pool, stored, rest⟩ := bind_eq_ok.mp performed
          unfold pushTask at stored
          split_ifs at stored with inside
          cases stored
          cases rest
          exact .stored pending inside
  | iterate worker returned =>
      unfold perform at performed
      cases present : system.workers[worker]? with
      | none => simp [present] at performed
      | some thread =>
          simp only [present] at performed
          split_ifs at performed with exited
          obtain ⟨⟨outcome, pool, tasks⟩, processed, rest⟩ := bind_eq_ok.mp performed
          cases rest
          unfold processTask at processed
          split_ifs at processed with nonempty
          · obtain ⟨front, found, rest⟩ := bind_eq_ok.mp processed
            obtain ⟨nonneg, cell⟩ := queue_front_ok found
            cases front with
            | none => cases rest
            | some task =>
                cases rest
                exact .executed nonempty nonneg cell
          · cases processed
            exact .idle nonempty

end Sysprog.Threads.Pool
