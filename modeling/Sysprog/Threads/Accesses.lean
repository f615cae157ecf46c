import Sysprog.Library.Heap
import Sysprog.Threads.Pool

/-!
# Single accesses of the thread pool

`thread_pool.c` again, with tasks and results in memory that can be freed. A
worker's stores to its task, the reads of `thread_task_join` and
`thread_task_delete` and their calls of `free` are steps of their own; the
critical section of `thread_pool_push_task` is one step. A task's function
does not use the pool and gives NULL or an `int` it has allocated, as
`thread_task_join` frees it.
-/

namespace Sysprog.Threads.Accesses

open CheckedRuns
open Pool (ThreadPool ThreadTask Worker newPool pushTask queueFront threadTaskNew countIteration
  tpoolMaxTasks tpoolErrInvalidArgument tpoolErrTooManyTasks)

set_option autoImplicit false

def tpoolErrHasTasks : Int := 3

/-- Where the worker that holds `queue_mtx` stands in `process_task`. -/
inductive Place where
  | taken (task : Nat)
  | calling (task : Nat)
  | returned (task : Nat) (res : Option Nat)
  | stored (task : Nat)
  | finished (task : Nat)
  | unlocking
  deriving DecidableEq

inductive Within where
  | outside
  /-- `thread_pool_push_task`, up to the lock -/
  | pushing (task : Nat)
  /-- `thread_task_join`, before it reads `is_finished` -/
  | readingFinished (task : Nat)
  /-- before it reads `is_running` -/
  | readingRunning (task : Nat)
  /-- behind its loop -/
  | copying (task : Nat)
  | freeing (task : Nat) (value : Int)
  /-- `thread_task_delete`, before its `free` -/
  | deleting (task : Nat)
  deriving DecidableEq

/-- `critical` is the worker that holds `queue_mtx`; all other workers stand
before the lock or have exited. -/
structure Machine where
  pool : ThreadPool Nat
  poolFreed : Bool
  critical : Option (Nat × Place)
  tasks : Heap (ThreadTask Nat)
  results : Heap Int
  workers : List Worker
  clients : Nat → Within

/-- `notEnabled` is no fault of the code: the thread is not at that point or
waits for the lock. The others are accesses to NULL, outside the queue or to
freed memory. -/
inductive Fault where
  | notEnabled
  | assertionFailed
  | outOfRange
  | nullPointer
  | freedPool
  | freedTask
  | freedResult
  deriving DecidableEq

inductive Step where
  /-- A `pthread_create` of `thread_task_execute` succeeds. -/
  | create
  | newTask
  | deletePool
  | push (client : Nat) (task : Option Nat)
  | join (client : Nat) (task : Option Nat)
  | delete (client : Nat) (task : Option Nat)
  /-- The next access of a client in its call. -/
  | advance (client : Nat)
  /-- The next access of a worker; `returned` is the `int` if it is a call. -/
  | work (worker : Nat) (returned : Option Int)

/-- What a step gives: a call that returned, a task that was pushed, executed
(with the pointer and its `int`), found finished, joined or freed. -/
inductive Report where
  | silent
  | refused (code : Int)
  | made (task : Nat)
  | poolFreed
  | pushed (task : Nat)
  | executed (task : Nat) (res : Option (Nat × Int))
  | waited (task : Nat)
  | joined (task : Nat) (value : Int)
  | freed (task : Nat)
  deriving DecidableEq

def Machine.at (machine : Machine) (client : Nat) (place : Within) : Machine :=
  { machine with clients := Function.update machine.clients client place }

def Machine.holding (machine : Machine) (worker : Nat) (place : Place) : Machine :=
  { machine with critical := some (worker, place) }

def Machine.store (machine : Machine) (task : Nat) (cell : ThreadTask Nat) : Machine :=
  { machine with tasks := machine.tasks.write task cell }

/-- `thread_pool_push_task` up to the lock. -/
def pushCall (machine : Machine) (client : Nat) : Option Nat → Except Fault (Report × Machine)
  | none => .error .assertionFailed
  | some task =>
      if machine.poolFreed then .error .freedPool
      else if machine.pool.threadCount + 1 = tpoolMaxTasks then
        .ok (.refused tpoolErrTooManyTasks, machine)
      else .ok (.silent, machine.at client (.pushing task))

def joinCall (machine : Machine) (client : Nat) : Option Nat → Except Fault (Report × Machine)
  | none => .ok (.refused tpoolErrInvalidArgument, machine)
  | some task => .ok (.silent, machine.at client (.readingFinished task))

def deleteCall (machine : Machine) (client : Nat) : Option Nat → Except Fault (Report × Machine)
  | none => .error .nullPointer
  | some task =>
      match machine.tasks.read task with
      | none => .error .freedTask
      | some cell =>
          if cell.isFinished then .ok (.silent, machine.at client (.deleting task))
          else .ok (.refused tpoolErrHasTasks, machine)

/-- The critical section of `thread_pool_push_task`. -/
def pushLocked (machine : Machine) (client task : Nat) : Except Fault (Report × Machine) :=
  if machine.poolFreed then .error .freedPool
  else
    match machine.critical with
    | some _ => .error .notEnabled
    | none =>
        match pushTask machine.pool task with
        | .error _ => .error .outOfRange
        | .ok pool => .ok (.pushed task, { machine with pool }.at client .outside)

def joinStep (machine : Machine) (client task : Nat) (cell : ThreadTask Nat) :
    Within → Except Fault (Report × Machine)
  | .readingFinished _ =>
      if cell.isFinished then .ok (.silent, machine.at client (.readingRunning task))
      else .ok (.silent, machine)
  | .readingRunning _ =>
      if cell.isRunning then .ok (.silent, machine.at client (.readingFinished task))
      else .ok (.waited task, machine.at client (.copying task))
  | .copying _ =>
      match cell.ret with
      | none => .error .nullPointer
      | some address =>
          match machine.results.read address with
          | none => .error .freedResult
          | some value => .ok (.silent, machine.at client (.freeing task value))
  | .freeing _ value =>
      match cell.ret with
      | none => .ok (.joined task value, machine.at client .outside)
      | some address =>
          match machine.results.read address with
          | none => .error .freedResult
          | some _ => .ok (.joined task value,
              { machine with results := machine.results.release address }.at client .outside)
  | _ => .error .notEnabled

def joinAccess (machine : Machine) (client task : Nat) (place : Within) :
    Except Fault (Report × Machine) :=
  match machine.tasks.read task with
  | none => .error .freedTask
  | some cell => joinStep machine client task cell place

def freeTask (machine : Machine) (client task : Nat) : Except Fault (Report × Machine) :=
  match machine.tasks.read task with
  | none => .error .freedTask
  | some _ => .ok (.freed task,
      { machine with tasks := machine.tasks.release task }.at client .outside)

def clientStep (machine : Machine) (client : Nat) : Except Fault (Report × Machine) :=
  match machine.clients client with
  | .outside => .error .notEnabled
  | .pushing task => pushLocked machine client task
  | .readingFinished task => joinAccess machine client task (.readingFinished task)
  | .readingRunning task => joinAccess machine client task (.readingRunning task)
  | .copying task => joinAccess machine client task (.copying task)
  | .freeing task value => joinAccess machine client task (.freeing task value)
  | .deleting task => freeTask machine client task

/-- `process_task` from the lock to the read of the queue. -/
def lockQueue (machine : Machine) (worker : Nat) : Except Fault (Report × Machine) :=
  if machine.poolFreed then .error .freedPool
  else if 0 < machine.pool.queueCount then
    match queueFront machine.pool with
    | .error _ => .error .outOfRange
    | .ok none => .error .nullPointer
    | .ok (some task) =>
        .ok (.silent, { machine with
          pool := { machine.pool with
            queueHead := machine.pool.queueHead + 1
            queueCount := machine.pool.queueCount - 1 }
          critical := some (worker, .taken task) })
  else .ok (.silent, machine.holding worker .unlocking)

def callFunction (machine : Machine) (worker task : Nat) :
    Option Int → Except Fault (Report × Machine)
  | none => .ok (.executed task none, machine.holding worker (.returned task none))
  | some value =>
      .ok (.executed task (some (machine.results.next, value)),
        { machine with results := machine.results.alloc value }.holding worker
          (.returned task (some machine.results.next)))

def taskAccess (machine : Machine) (worker task : Nat) (cell : ThreadTask Nat)
    (returned : Option Int) : Place → Except Fault (Report × Machine)
  | .taken _ => .ok (.silent,
      (machine.store task { cell with isRunning := true }).holding worker (.calling task))
  | .calling _ => callFunction machine worker task returned
  | .returned _ res => .ok (.silent,
      (machine.store task { cell with ret := res }).holding worker (.stored task))
  | .stored _ => .ok (.silent,
      (machine.store task { cell with isFinished := true }).holding worker (.finished task))
  | .finished _ => .ok (.silent,
      (machine.store task { cell with isRunning := false }).holding worker .unlocking)
  | .unlocking => .error .notEnabled

/-- The unlock, `++counter` and the exit. -/
def unlockQueue (machine : Machine) (worker : Nat) : Except Fault (Report × Machine) :=
  if machine.poolFreed then .error .freedPool
  else
    match machine.workers[worker]? with
    | none => .error .notEnabled
    | some thread => .ok (.silent, { machine with
        critical := none
        workers := machine.workers.set worker (countIteration thread) })

def Place.task? : Place → Option Nat
  | .taken task => some task
  | .calling task => some task
  | .returned task _ => some task
  | .stored task => some task
  | .finished task => some task
  | .unlocking => none

def workStep (machine : Machine) (worker : Nat) (returned : Option Int) :
    Except Fault (Report × Machine) :=
  match machine.critical with
  | none =>
      match machine.workers[worker]? with
      | none => .error .notEnabled
      | some thread => if thread.exited then .error .notEnabled else lockQueue machine worker
  | some (holder, place) =>
      if holder = worker then
        match place.task? with
        | none => unlockQueue machine worker
        | some task =>
            match machine.tasks.read task with
            | none => .error .freedTask
            | some cell => taskAccess machine worker task cell returned place
      else .error .notEnabled

def perform (machine : Machine) : Step → Except Fault (Report × Machine)
  | .create =>
      if machine.poolFreed then .error .freedPool
      else .ok (.silent, { machine with
        pool := { machine.pool with threadCount := machine.pool.threadCount + 1 }
        workers := machine.workers ++ [⟨0, false⟩] })
  | .newTask => .ok (.made machine.tasks.next,
      { machine with tasks := machine.tasks.alloc (threadTaskNew Nat) })
  | .deletePool =>
      if machine.poolFreed then .error .freedPool
      else .ok (.poolFreed, { machine with poolFreed := true })
  | .push client task =>
      if machine.clients client = .outside then pushCall machine client task
      else .error .notEnabled
  | .join client task =>
      if machine.clients client = .outside then joinCall machine client task
      else .error .notEnabled
  | .delete client task =>
      if machine.clients client = .outside then deleteCall machine client task
      else .error .notEnabled
  | .advance client => clientStep machine client
  | .work worker returned => workStep machine worker returned

def start (pool : ThreadPool Nat) : Machine where
  pool := pool
  poolFreed := false
  critical := none
  tasks := Heap.empty
  results := Heap.empty
  workers := []
  clients := fun _ => .outside

abbrev History := List (Event Step Report)

inductive Moves (machine : Machine) (client : Nat) : Step → Report → Within → Within → Prop where
  | pushing {task : Nat} : Moves machine client (.push client (some task)) .silent .outside
      (.pushing task)
  | joining {task : Nat} : Moves machine client (.join client (some task)) .silent .outside
      (.readingFinished task)
  | deleting {task : Nat} {cell : ThreadTask Nat} (present : machine.tasks.read task = some cell)
      (isFinished : cell.isFinished = true) :
      Moves machine client (.delete client (some task)) .silent .outside (.deleting task)
  | sawFinished {task : Nat} {cell : ThreadTask Nat}
      (present : machine.tasks.read task = some cell) (isFinished : cell.isFinished = true) :
      Moves machine client (.advance client) .silent (.readingFinished task) (.readingRunning task)
  | sawRunning {task : Nat} {cell : ThreadTask Nat}
      (present : machine.tasks.read task = some cell) (isRunning : cell.isRunning = true) :
      Moves machine client (.advance client) .silent (.readingRunning task) (.readingFinished task)
  | waited {task : Nat} {cell : ThreadTask Nat} (present : machine.tasks.read task = some cell)
      (idle : cell.isRunning = false) :
      Moves machine client (.advance client) (.waited task) (.readingRunning task) (.copying task)
  | copied {task address : Nat} {value : Int} {cell : ThreadTask Nat}
      (present : machine.tasks.read task = some cell) (ret : cell.ret = some address)
      (result : machine.results.read address = some value) :
      Moves machine client (.advance client) .silent (.copying task) (.freeing task value)

inductive Stays (machine : Machine) : Step → Report → Prop where
  | full {client task : Nat} : Stays machine (.push client (some task))
      (.refused tpoolErrTooManyTasks)
  | noTask {client : Nat} : Stays machine (.join client none) (.refused tpoolErrInvalidArgument)
  | unfinished {client task : Nat} {cell : ThreadTask Nat}
      (present : machine.tasks.read task = some cell) (isFinished : cell.isFinished = false) :
      Stays machine (.delete client (some task)) (.refused tpoolErrHasTasks)
  | waits {client task : Nat} {cell : ThreadTask Nat}
      (place : machine.clients client = .readingFinished task)
      (present : machine.tasks.read task = some cell) (isFinished : cell.isFinished = false) :
      Stays machine (.advance client) .silent

/-- The accesses of a worker to its task, from one place to the next. -/
inductive Access (cell : ThreadTask Nat) : Place → ThreadTask Nat → Place → Prop where
  | running {task : Nat} :
      Access cell (.taken task) { cell with isRunning := true } (.calling task)
  | stored {task : Nat} {res : Option Nat} :
      Access cell (.returned task res) { cell with ret := res } (.stored task)
  | finished {task : Nat} :
      Access cell (.stored task) { cell with isFinished := true } (.finished task)
  | cleared {task : Nat} :
      Access cell (.finished task) { cell with isRunning := false } .unlocking

/-- Everything a step that completes can have done. -/
inductive Effect (machine : Machine) : Step → Report → Machine → Prop where
  | created (alive : machine.poolFreed = false) : Effect machine .create .silent { machine with
      pool := { machine.pool with threadCount := machine.pool.threadCount + 1 }
      workers := machine.workers ++ [⟨0, false⟩] }
  | made : Effect machine .newTask (.made machine.tasks.next)
      { machine with tasks := machine.tasks.alloc (threadTaskNew Nat) }
  | poolFreed (alive : machine.poolFreed = false) : Effect machine .deletePool .poolFreed
      { machine with poolFreed := true }
  | stays {step : Step} {report : Report} (stays : Stays machine step report) :
      Effect machine step report machine
  | moved {client : Nat} {step : Step} {report : Report} {before after : Within}
      (place : machine.clients client = before)
      (moves : Moves machine client step report before after) :
      Effect machine step report (machine.at client after)
  | pushed {client task : Nat} (place : machine.clients client = .pushing task)
      (alive : machine.poolFreed = false) (unlocked : machine.critical = none)
      (inside : 0 ≤ machine.pool.queueTail ∧
        machine.pool.queueTail.toNat < machine.pool.queue.length) :
      Effect machine (.advance client) (.pushed task) ({ machine with
        pool := { machine.pool with
          queue := machine.pool.queue.set machine.pool.queueTail.toNat (some task)
          queueTail := machine.pool.queueTail + 1
          queueCount := machine.pool.queueCount + 1 } }.at client .outside)
  | joinedNull {client task : Nat} {value : Int} {cell : ThreadTask Nat}
      (place : machine.clients client = .freeing task value)
      (present : machine.tasks.read task = some cell) (ret : cell.ret = none) :
      Effect machine (.advance client) (.joined task value) (machine.at client .outside)
  | joined {client task address : Nat} {value : Int} {cell : ThreadTask Nat}
      (place : machine.clients client = .freeing task value)
      (present : machine.tasks.read task = some cell) (ret : cell.ret = some address) {stored : Int}
      (result : machine.results.read address = some stored) :
      Effect machine (.advance client) (.joined task value)
        ({ machine with results := machine.results.release address }.at client .outside)
  | freed {client task : Nat} {cell : ThreadTask Nat}
      (place : machine.clients client = .deleting task)
      (present : machine.tasks.read task = some cell) :
      Effect machine (.advance client) (.freed task)
        ({ machine with tasks := machine.tasks.release task }.at client .outside)
  | took {worker task : Nat} {returned : Option Int} {thread : Worker}
      (unlocked : machine.critical = none) (present : machine.workers[worker]? = some thread)
      (runs : thread.exited = false) (alive : machine.poolFreed = false)
      (nonempty : 0 < machine.pool.queueCount) (nonneg : 0 ≤ machine.pool.queueHead)
      (front : machine.pool.queue[machine.pool.queueHead.toNat]? = some (some task)) :
      Effect machine (.work worker returned) .silent { machine with
        pool := { machine.pool with
          queueHead := machine.pool.queueHead + 1
          queueCount := machine.pool.queueCount - 1 }
        critical := some (worker, .taken task) }
  | idle {worker : Nat} {returned : Option Int} {thread : Worker}
      (unlocked : machine.critical = none) (present : machine.workers[worker]? = some thread)
      (runs : thread.exited = false) (alive : machine.poolFreed = false)
      (empty : ¬ 0 < machine.pool.queueCount) :
      Effect machine (.work worker returned) .silent (machine.holding worker .unlocking)
  | executedNull {worker task : Nat} {cell : ThreadTask Nat}
      (holds : machine.critical = some (worker, .calling task))
      (present : machine.tasks.read task = some cell) :
      Effect machine (.work worker none) (.executed task none)
        (machine.holding worker (.returned task none))
  | executed {worker task : Nat} {value : Int} {cell : ThreadTask Nat}
      (holds : machine.critical = some (worker, .calling task))
      (present : machine.tasks.read task = some cell) :
      Effect machine (.work worker (some value)) (.executed task (some (machine.results.next, value)))
        ({ machine with results := machine.results.alloc value }.holding worker
          (.returned task (some machine.results.next)))
  | accessed {worker task : Nat} {returned : Option Int} {before after : Place}
      {cell changed : ThreadTask Nat} (holds : machine.critical = some (worker, before))
      (isTask : before.task? = some task) (present : machine.tasks.read task = some cell)
      (access : Access cell before changed after) :
      Effect machine (.work worker returned) .silent
        ((machine.store task changed).holding worker after)
  | unlocked {worker : Nat} {returned : Option Int} {thread : Worker}
      (holds : machine.critical = some (worker, .unlocking)) (alive : machine.poolFreed = false)
      (present : machine.workers[worker]? = some thread) :
      Effect machine (.work worker returned) .silent { machine with
        critical := none
        workers := machine.workers.set worker (countIteration thread) }

variable {machine next : Machine} {report : Report}

theorem push_call_effect {client : Nat} {task : Option Nat}
    (place : machine.clients client = .outside)
    (done : pushCall machine client task = .ok (report, next)) :
    Effect machine (.push client task) report next := by
  cases task with
  | none => cases done
  | some task =>
      simp only [pushCall] at done
      split_ifs at done
      · cases done
        exact .stays .full
      · cases done
        exact .moved place .pushing

theorem join_call_effect {client : Nat} {task : Option Nat}
    (place : machine.clients client = .outside)
    (done : joinCall machine client task = .ok (report, next)) :
    Effect machine (.join client task) report next := by
  cases task with
  | none =>
      cases done
      exact .stays .noTask
  | some task =>
      cases done
      exact .moved place .joining

theorem delete_call_effect {client : Nat} {task : Option Nat}
    (place : machine.clients client = .outside)
    (done : deleteCall machine client task = .ok (report, next)) :
    Effect machine (.delete client task) report next := by
  cases task with
  | none => cases done
  | some task =>
      rw [deleteCall] at done
      cases present : machine.tasks.read task with
      | none => simp [present] at done
      | some cell =>
          simp only [present] at done
          cases finished : cell.isFinished with
          | true =>
              rw [finished] at done
              cases done
              exact .moved place (.deleting present finished)
          | false =>
              rw [finished] at done
              cases done
              exact .stays (.unfinished present finished)

theorem push_locked_effect {client task : Nat} (place : machine.clients client = .pushing task)
    (done : pushLocked machine client task = .ok (report, next)) :
    Effect machine (.advance client) report next := by
  unfold pushLocked at done
  split_ifs at done with freed
  have alive : machine.poolFreed = false := by simpa using freed
  split at done
  · cases done
  · rename_i unlocked
    unfold pushTask at done
    split_ifs at done with inside
    cases done
    exact .pushed place alive unlocked inside

theorem join_access_effect {client task : Nat} {place : Within}
    (here : machine.clients client = place)
    (ofTask : place = .readingFinished task ∨ place = .readingRunning task ∨
      place = .copying task ∨ ∃ value, place = .freeing task value)
    (done : joinAccess machine client task place = .ok (report, next)) :
    Effect machine (.advance client) report next := by
  rw [joinAccess] at done
  cases present : machine.tasks.read task with
  | none => simp [present] at done
  | some cell =>
      simp only [present] at done
      rcases ofTask with rfl | rfl | rfl | ⟨value, rfl⟩
      · rw [joinStep] at done
        cases finished : cell.isFinished with
        | true =>
            rw [finished] at done
            cases done
            exact .moved here (.sawFinished present finished)
        | false =>
            rw [finished] at done
            cases done
            exact .stays (.waits here present finished)
      · rw [joinStep] at done
        cases running : cell.isRunning with
        | true =>
            rw [running] at done
            cases done
            exact .moved here (.sawRunning present running)
        | false =>
            rw [running] at done
            cases done
            exact .moved here (.waited present running)
      · rw [joinStep] at done
        cases ret : cell.ret with
        | none => simp [ret] at done
        | some address =>
            cases result : machine.results.read address with
            | none => simp [ret, result] at done
            | some value =>
                simp only [ret, result] at done
                cases done
                exact .moved here (.copied present ret result)
      · rw [joinStep] at done
        cases ret : cell.ret with
        | none =>
            simp only [ret] at done
            cases done
            exact .joinedNull here present ret
        | some address =>
            cases result : machine.results.read address with
            | none => simp [ret, result] at done
            | some stored =>
                simp only [ret, result] at done
                cases done
                exact .joined here present ret result

theorem free_task_effect {client task : Nat} (place : machine.clients client = .deleting task)
    (done : freeTask machine client task = .ok (report, next)) :
    Effect machine (.advance client) report next := by
  rw [freeTask] at done
  cases present : machine.tasks.read task with
  | none => simp [present] at done
  | some cell =>
      simp only [present] at done
      cases done
      exact .freed place present

theorem client_step_effect {client : Nat} (done : clientStep machine client = .ok (report, next)) :
    Effect machine (.advance client) report next := by
  rw [clientStep] at done
  cases place : machine.clients client with
  | outside => simp [place] at done
  | pushing task =>
      rw [place] at done
      exact push_locked_effect place done
  | readingFinished task =>
      rw [place] at done
      exact join_access_effect place (.inl rfl) done
  | readingRunning task =>
      rw [place] at done
      exact join_access_effect place (.inr (.inl rfl)) done
  | copying task =>
      rw [place] at done
      exact join_access_effect place (.inr (.inr (.inl rfl))) done
  | freeing task value =>
      rw [place] at done
      exact join_access_effect place (.inr (.inr (.inr ⟨value, rfl⟩))) done
  | deleting task =>
      rw [place] at done
      exact free_task_effect place done

theorem lock_queue_effect {worker : Nat} {returned : Option Int} {thread : Worker}
    (unlocked : machine.critical = none) (present : machine.workers[worker]? = some thread)
    (runs : thread.exited = false) (done : lockQueue machine worker = .ok (report, next)) :
    Effect machine (.work worker returned) report next := by
  rw [lockQueue] at done
  split_ifs at done with freed nonempty
  · cases found : queueFront machine.pool with
    | error fault => simp [found] at done
    | ok front =>
        cases front with
        | none => simp [found] at done
        | some task =>
            obtain ⟨nonneg, cell⟩ := Pool.queue_front_ok found
            simp only [found] at done
            cases done
            exact .took unlocked present runs (by simpa using freed) nonempty nonneg cell
  · cases done
    exact .idle unlocked present runs (by simpa using freed) nonempty

theorem task_access_effect {worker task : Nat} {returned : Option Int} {place : Place}
    {cell : ThreadTask Nat} (holds : machine.critical = some (worker, place))
    (isTask : place.task? = some task) (present : machine.tasks.read task = some cell)
    (done : taskAccess machine worker task cell returned place = .ok (report, next)) :
    Effect machine (.work worker returned) report next := by
  cases place with
  | taken other =>
      cases isTask
      cases done
      exact .accessed holds rfl present .running
  | calling other =>
      cases isTask
      cases returned with
      | none =>
          cases done
          exact .executedNull holds present
      | some value =>
          cases done
          exact .executed holds present
  | returned other res =>
      cases isTask
      cases done
      exact .accessed holds rfl present .stored
  | stored other =>
      cases isTask
      cases done
      exact .accessed holds rfl present .finished
  | finished other =>
      cases isTask
      cases done
      exact .accessed holds rfl present .cleared
  | unlocking => cases isTask

theorem work_step_effect {worker : Nat} {returned : Option Int}
    (done : workStep machine worker returned = .ok (report, next)) :
    Effect machine (.work worker returned) report next := by
  rw [workStep] at done
  cases held : machine.critical with
  | none =>
      cases present : machine.workers[worker]? with
      | none => simp [held, present] at done
      | some thread =>
          simp only [held, present] at done
          split_ifs at done with exited
          exact lock_queue_effect held present (by simpa using exited) done
  | some pair =>
      rcases pair with ⟨holder, place⟩
      simp only [held] at done
      split_ifs at done with same
      subst same
      cases isTask : place.task? with
      | none =>
          cases place with
          | unlocking =>
              simp only [isTask, unlockQueue] at done
              split_ifs at done with freed
              cases thread : machine.workers[holder]? with
              | none => simp [thread] at done
              | some found =>
                  simp only [thread] at done
                  cases done
                  exact .unlocked held (by simpa using freed) thread
          | _ => cases isTask
      | some task =>
          simp only [isTask] at done
          cases present : machine.tasks.read task with
          | none => simp [present] at done
          | some cell =>
              simp only [present] at done
              exact task_access_effect held isTask present done

theorem perform_effect {step : Step} (performed : perform machine step = .ok (report, next)) :
    Effect machine step report next := by
  cases step with
  | create =>
      simp only [perform] at performed
      split_ifs at performed with freed
      cases performed
      exact .created (by simpa using freed)
  | newTask =>
      cases performed
      exact .made
  | deletePool =>
      simp only [perform] at performed
      split_ifs at performed with freed
      cases performed
      exact .poolFreed (by simpa using freed)
  | push client task =>
      simp only [perform] at performed
      split_ifs at performed with outside
      exact push_call_effect outside performed
  | join client task =>
      simp only [perform] at performed
      split_ifs at performed with outside
      exact join_call_effect outside performed
  | delete client task =>
      simp only [perform] at performed
      split_ifs at performed with outside
      exact delete_call_effect outside performed
  | advance client => exact client_step_effect performed
  | work worker returned => exact work_step_effect performed

theorem push_locked_completes {client task : Nat} (place : machine.clients client = .pushing task)
    (alive : machine.poolFreed = false) (unlocked : machine.critical = none)
    (inside : 0 ≤ machine.pool.queueTail ∧
      machine.pool.queueTail.toNat < machine.pool.queue.length) :
    perform machine (.advance client) = .ok (.pushed task, { machine with
      pool := { machine.pool with
        queue := machine.pool.queue.set machine.pool.queueTail.toNat (some task)
        queueTail := machine.pool.queueTail + 1
        queueCount := machine.pool.queueCount + 1 } }.at client .outside) := by
  simp only [perform, clientStep, place, pushLocked, alive, unlocked, pushTask]
  rw [if_pos inside]
  rfl

/-! ## A task that was executed once -/

def isCall : Step → Bool
  | .create => false
  | .newTask => false
  | .work _ _ => false
  | _ => true

def clientPushes : Nat → Within := Function.update (fun _ => .outside) 0 (.pushing 0)

def pushedOnce : Machine where
  pool := { newPool Nat 1 with
    threadCount := 1
    queue := (newPool Nat 1).queue.set 0 (some 0)
    queueTail := 1
    queueCount := 1 }
  poolFreed := false
  critical := none
  tasks := ⟨[some (threadTaskNew Nat)]⟩
  results := Heap.empty
  workers := [⟨0, false⟩]
  clients := Function.update clientPushes 0 .outside

def pushedHistory : History :=
  [⟨.newTask, .made 0⟩, ⟨.create, .silent⟩, ⟨.push 0 (some 0), .silent⟩, ⟨.advance 0, .pushed 0⟩]

def executedOnce : Machine :=
  { pushedOnce with
    pool := { pushedOnce.pool with
      queueHead := 1
      queueCount := 0 }
    tasks := ⟨[some ⟨some 0, true, false⟩]⟩
    results := ⟨[some 5]⟩
    workers := [⟨1, false⟩] }

def executedHistory : History := pushedHistory ++
  [⟨.work 0 none, .silent⟩, ⟨.work 0 none, .silent⟩, ⟨.work 0 (some 5), .executed 0 (some (0, 5))⟩,
    ⟨.work 0 none, .silent⟩, ⟨.work 0 none, .silent⟩, ⟨.work 0 none, .silent⟩,
    ⟨.work 0 none, .silent⟩]

section Once

variable {allowed : History → Machine → Step → Prop}
  (quiet : ∀ history machine step, isCall step = false → allowed history machine step)
  (push : ∀ history machine, (∀ event ∈ history, isCall event.call = false) →
    allowed history machine (.push 0 (some 0)))
  (advance : ∀ history machine, machine.clients = clientPushes →
    allowed history machine (.advance 0))

include quiet push advance

theorem run_pushed_once :
    Run perform allowed (start (newPool Nat 1)) pushedHistory pushedOnce := by
  have made : Run perform allowed (start (newPool Nat 1)) [⟨.newTask, .made 0⟩] _ :=
    .call .start (quiet _ _ _ rfl) rfl
  have created := made.call (quiet _ _ _ rfl) (rfl : perform _ .create = .ok (_, _))
  have pushing := created.call (push _ _ (by decide)) (rfl : perform _ (.push 0 (some 0)) = .ok (_, _))
  have inside : 0 < (List.replicate tpoolMaxTasks (none : Option Nat)).length := by
    rw [List.length_replicate]
    decide
  exact pushing.call (advance _ _ rfl) (@push_locked_completes _ 0 0 rfl rfl rfl ⟨by decide, inside⟩)

theorem run_executed_once :
    Run perform allowed (start (newPool Nat 1)) executedHistory executedOnce := by
  have pushed := run_pushed_once quiet push advance
  have taken := pushed.call (quiet _ _ _ rfl) (rfl : perform _ (.work 0 none) = .ok (_, _))
  have running := taken.call (quiet _ _ _ rfl) (rfl : perform _ (.work 0 none) = .ok (_, _))
  have called := running.call (quiet _ _ _ rfl) (rfl : perform _ (.work 0 (some 5)) = .ok (_, _))
  have stored := called.call (quiet _ _ _ rfl) (rfl : perform _ (.work 0 none) = .ok (_, _))
  have finished := stored.call (quiet _ _ _ rfl) (rfl : perform _ (.work 0 none) = .ok (_, _))
  have cleared := finished.call (quiet _ _ _ rfl) (rfl : perform _ (.work 0 none) = .ok (_, _))
  exact cleared.call (quiet _ _ _ rfl) (rfl : perform _ (.work 0 none) = .ok (_, _))

end Once

end Sysprog.Threads.Accesses
