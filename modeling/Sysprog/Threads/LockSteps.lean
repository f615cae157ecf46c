import Sysprog.Library.Mutex
import Sysprog.Threads.AccessInvariants

/-!
# Who holds the lock

`thread_pool.c` once more, with `queue_mtx` as a value: a plain mutex, taken
when nobody holds it. A worker holds it over the whole execution of its task,
and here a task's function may call `thread_pool_push_task` on its own pool,
in which case the worker comes to the lock a second time.
-/

namespace Sysprog.Threads.LockSteps

open CheckedRuns Mutex
open Pool (ThreadPool ThreadTask Worker Fault pushCheck pushTask queueFront queue_front_ok
  countIteration threadTaskNew tpoolMaxTasks tpoolErrTooManyTasks)

set_option autoImplicit false

inductive Thread where
  | worker (index : Nat)
  | client (index : Nat)
  deriving DecidableEq

/-- In `thread_pool_push_task`, before its lock or behind it. -/
inductive Push where
  | waiting (task : Nat)
  | storing (task : Nat)
  deriving DecidableEq

/-- Where a thread stands; `push` is `none` outside `thread_pool_push_task`. -/
inductive Place where
  /-- a worker that was not created -/
  | absent
  | client (push : Option Push)
  /-- at the lock of `process_task`, or exited -/
  | atLock (worker : Worker)
  | locked (worker : Worker)
  /-- in the function of its task -/
  | calling (worker : Worker) (task : Nat) (push : Option Push)
  | unlocking (worker : Worker)

structure Machine (Value : Type) where
  pool : ThreadPool Nat
  tasks : Nat → ThreadTask Value
  holder : Option Thread
  places : Thread → Place

inductive Step (Value : Type) where
  /-- A `pthread_create` of `thread_task_execute` succeeds. -/
  | create (index : Nat)
  /-- A client or a task's function calls `thread_pool_push_task` and comes up
  to the lock. -/
  | push (thread : Thread) (task : Option Nat)
  | lock (thread : Thread)
  /-- The rest of `thread_pool_push_task`. -/
  | store (thread : Thread)
  /-- A worker looks into the queue and calls the function of a task. -/
  | take (thread : Thread)
  /-- The function returns. -/
  | finish (thread : Thread) (returned : Option Value)
  /-- The unlock of `process_task`. -/
  | unlock (thread : Thread)

inductive Report where
  | silent
  | refused (code : Int)
  deriving DecidableEq

def Place.push? : Place → Option (Option Push)
  | .client push => some push
  | .calling _ _ push => some push
  | _ => none

def Place.withPush : Place → Option Push → Place
  | .client _, push => .client push
  | .calling worker task _, push => .calling worker task push
  | place, _ => place

/-- Where a thread that waits at `pthread_mutex_lock` is behind it. -/
def Place.behindLock : Place → Option Place
  | .client (some (.waiting task)) => some (.client (some (.storing task)))
  | .calling worker task (some (.waiting pushed)) =>
      some (.calling worker task (some (.storing pushed)))
  | .atLock worker => if worker.exited then none else some (.locked worker)
  | _ => none

def Place.Inside : Place → Prop
  | .client (some (.storing _)) => True
  | .locked _ => True
  | .calling _ _ _ => True
  | .unlocking _ => True
  | _ => False

def Place.Calls : Place → Prop
  | .calling _ _ _ => True
  | _ => False

theorem push_cases {place : Place} {push : Option Push} (found : place.push? = some push) :
    place = .client push ∨ ∃ worker task, place = .calling worker task push := by
  cases place with
  | client other =>
      cases found
      exact .inl rfl
  | calling worker task other =>
      cases found
      exact .inr ⟨worker, task, rfl⟩
  | _ => cases found

theorem behind_lock_cases {place behind : Place} (waits : place.behindLock = some behind) :
    (∃ task, place = .client (some (.waiting task)) ∧ behind = .client (some (.storing task))) ∨
      (∃ worker, place = .atLock worker ∧ behind = .locked worker) ∨
        ∃ worker task pushed, place = .calling worker task (some (.waiting pushed)) ∧
          behind = .calling worker task (some (.storing pushed)) := by
  cases place with
  | client push =>
      match push with
      | some (.waiting task) =>
          cases waits
          exact .inl ⟨task, rfl, rfl⟩
      | some (.storing task) => cases waits
      | none => cases waits
  | calling worker task push =>
      match push with
      | some (.waiting pushed) =>
          cases waits
          exact .inr (.inr ⟨worker, task, pushed, rfl, rfl⟩)
      | some (.storing pushed) => cases waits
      | none => cases waits
  | atLock worker =>
      simp only [Place.behindLock] at waits
      split_ifs at waits with exited
      cases waits
      exact .inr (.inl ⟨worker, rfl, rfl⟩)
  | _ => cases waits

variable {Value : Type}

def Machine.at (machine : Machine Value) (thread : Thread) (place : Place) : Machine Value :=
  { machine with places := Function.update machine.places thread place }

theorem at_self (machine : Machine Value) (thread : Thread) (place : Place) :
    (machine.at thread place).places thread = place := by
  change Function.update machine.places thread place thread = place
  exact Function.update_self _ _ _

def pushStep (machine : Machine Value) (thread : Thread) (task : Option Nat) :
    Except Fault (Report × Machine Value) :=
  match (machine.places thread).push? with
  | some none => do
      match ← pushCheck machine.pool task with
      | .inr code => .ok (.refused code, machine)
      | .inl task => .ok (.silent,
          machine.at thread ((machine.places thread).withPush (some (.waiting task))))
  | _ => .error .notEnabled

def lockStep (machine : Machine Value) (thread : Thread) :
    Except Fault (Report × Machine Value) :=
  match machine.holder, (machine.places thread).behindLock with
  | none, some place => .ok (.silent, { machine.at thread place with holder := some thread })
  | _, _ => .error .notEnabled

def storeStep (machine : Machine Value) (thread : Thread) :
    Except Fault (Report × Machine Value) :=
  match (machine.places thread).push? with
  | some (some (.storing task)) => do
      let pool ← pushTask machine.pool task
      .ok (.silent, { machine.at thread ((machine.places thread).withPush none) with
        pool := pool
        holder := none })
  | _ => .error .notEnabled

def takeStep (machine : Machine Value) (thread : Thread) :
    Except Fault (Report × Machine Value) :=
  match machine.places thread with
  | .locked worker =>
      if 0 < machine.pool.queueCount then do
        match ← queueFront machine.pool with
        | none => .error .nullTask
        | some task => .ok (.silent, { machine.at thread (.calling worker task none) with
            pool := { machine.pool with
              queueHead := machine.pool.queueHead + 1
              queueCount := machine.pool.queueCount - 1 }
            tasks := Function.update machine.tasks task
              { machine.tasks task with isRunning := true } })
      else .ok (.silent, machine.at thread (.unlocking worker))
  | _ => .error .notEnabled

def finishStep (machine : Machine Value) (thread : Thread) (returned : Option Value) :
    Except Fault (Report × Machine Value) :=
  match machine.places thread with
  | .calling worker task none => .ok (.silent, { machine.at thread (.unlocking worker) with
      tasks := Function.update machine.tasks task ⟨returned, true, false⟩ })
  | _ => .error .notEnabled

def unlockStep (machine : Machine Value) (thread : Thread) :
    Except Fault (Report × Machine Value) :=
  match machine.places thread with
  | .unlocking worker => .ok (.silent,
      { machine.at thread (.atLock (countIteration worker)) with holder := none })
  | _ => .error .notEnabled

def createStep (machine : Machine Value) (index : Nat) : Except Fault (Report × Machine Value) :=
  match machine.places (.worker index) with
  | .absent => .ok (.silent, { machine.at (.worker index) (.atLock ⟨0, false⟩) with
      pool := { machine.pool with threadCount := machine.pool.threadCount + 1 } })
  | _ => .error .notEnabled

def perform (machine : Machine Value) : Step Value → Except Fault (Report × Machine Value)
  | .create index => createStep machine index
  | .push thread task => pushStep machine thread task
  | .lock thread => lockStep machine thread
  | .store thread => storeStep machine thread
  | .take thread => takeStep machine thread
  | .finish thread returned => finishStep machine thread returned
  | .unlock thread => unlockStep machine thread

def start (pool : ThreadPool Nat) : Machine Value where
  pool := pool
  tasks := fun _ => threadTaskNew Value
  holder := none
  places
    | .worker _ => .absent
    | .client _ => .client none

abbrev History (Value : Type) := List (Event (Step Value) Report)

/-- Everything a step that completes can have done. -/
inductive Effect (machine : Machine Value) : Step Value → Report → Machine Value → Prop where
  | created {index : Nat} (place : machine.places (.worker index) = .absent) :
      Effect machine (.create index) .silent
        { machine.at (.worker index) (.atLock ⟨0, false⟩) with
          pool := { machine.pool with threadCount := machine.pool.threadCount + 1 } }
  | refused {thread : Thread} {task : Nat} (full : machine.pool.threadCount + 1 = tpoolMaxTasks) :
      Effect machine (.push thread (some task)) (.refused tpoolErrTooManyTasks) machine
  | comes {thread : Thread} {task : Nat} (place : (machine.places thread).push? = some none)
      (fits : machine.pool.threadCount + 1 ≠ tpoolMaxTasks) :
      Effect machine (.push thread (some task)) .silent
        (machine.at thread ((machine.places thread).withPush (some (.waiting task))))
  | locks {thread : Thread} {place : Place} (free : machine.holder = none)
      (waits : (machine.places thread).behindLock = some place) :
      Effect machine (.lock thread) .silent
        { machine.at thread place with holder := some thread }
  | stores {thread : Thread} {task : Nat}
      (place : (machine.places thread).push? = some (some (.storing task)))
      (inside : 0 ≤ machine.pool.queueTail ∧
        machine.pool.queueTail.toNat < machine.pool.queue.length) :
      Effect machine (.store thread) .silent
        { machine.at thread ((machine.places thread).withPush none) with
          pool := { machine.pool with
            queue := machine.pool.queue.set machine.pool.queueTail.toNat (some task)
            queueTail := machine.pool.queueTail + 1
            queueCount := machine.pool.queueCount + 1 }
          holder := none }
  | takes {thread : Thread} {worker : Worker} {task : Nat}
      (place : machine.places thread = .locked worker) (nonempty : 0 < machine.pool.queueCount)
      (front : machine.pool.queue[machine.pool.queueHead.toNat]? = some (some task)) :
      Effect machine (.take thread) .silent { machine.at thread (.calling worker task none) with
        pool := { machine.pool with
          queueHead := machine.pool.queueHead + 1
          queueCount := machine.pool.queueCount - 1 }
        tasks := Function.update machine.tasks task { machine.tasks task with isRunning := true } }
  | idles {thread : Thread} {worker : Worker} (place : machine.places thread = .locked worker)
      (empty : ¬ 0 < machine.pool.queueCount) :
      Effect machine (.take thread) .silent (machine.at thread (.unlocking worker))
  | returns {thread : Thread} {worker : Worker} {task : Nat} {returned : Option Value}
      (place : machine.places thread = .calling worker task none) :
      Effect machine (.finish thread returned) .silent
        { machine.at thread (.unlocking worker) with
          tasks := Function.update machine.tasks task ⟨returned, true, false⟩ }
  | unlocks {thread : Thread} {worker : Worker}
      (place : machine.places thread = .unlocking worker) :
      Effect machine (.unlock thread) .silent
        { machine.at thread (.atLock (countIteration worker)) with holder := none }

section Effects

variable {machine next : Machine Value} {thread : Thread} {report : Report}

theorem push_effect {task : Option Nat} (pushed : pushStep machine thread task = .ok (report, next)) :
    Effect machine (.push thread task) report next := by
  unfold pushStep at pushed
  cases place : (machine.places thread).push? with
  | none => simp [place] at pushed
  | some push =>
      cases push with
      | some push => simp [place] at pushed
      | none =>
          simp only [place] at pushed
          obtain ⟨checked, check, rest⟩ := bind_eq_ok.mp pushed
          cases task with
          | none => cases check
          | some task =>
              simp only [pushCheck] at check
              split_ifs at check with full
              · cases check
                cases rest
                exact .refused full
              · cases check
                cases rest
                exact .comes place full

theorem lock_effect (locked : lockStep machine thread = .ok (report, next)) :
    Effect machine (.lock thread) report next := by
  unfold lockStep at locked
  cases free : machine.holder with
  | some other => simp [free] at locked
  | none =>
      cases waits : (machine.places thread).behindLock with
      | none => simp [free, waits] at locked
      | some place =>
          simp only [free, waits] at locked
          cases locked
          exact .locks free waits

theorem store_effect (stored : storeStep machine thread = .ok (report, next)) :
    Effect machine (.store thread) report next := by
  unfold storeStep at stored
  cases place : (machine.places thread).push? with
  | none => simp [place] at stored
  | some push =>
      cases push with
      | none => simp [place] at stored
      | some push =>
          cases push with
          | waiting task => simp [place] at stored
          | storing task =>
              simp only [place] at stored
              obtain ⟨pool, pushed, rest⟩ := bind_eq_ok.mp stored
              unfold pushTask at pushed
              split_ifs at pushed with inside
              cases pushed
              cases rest
              exact .stores place inside

theorem take_effect (taken : takeStep machine thread = .ok (report, next)) :
    Effect machine (.take thread) report next := by
  unfold takeStep at taken
  cases place : machine.places thread with
  | locked worker =>
      simp only [place] at taken
      split_ifs at taken with nonempty
      · obtain ⟨front, found, rest⟩ := bind_eq_ok.mp taken
        cases front with
        | none => cases rest
        | some task =>
            cases rest
            exact .takes place nonempty (queue_front_ok found).2
      · cases taken
        exact .idles place nonempty
  | _ => simp [place] at taken

theorem perform_effect {step : Step Value} (performed : perform machine step = .ok (report, next)) :
    Effect machine step report next := by
  cases step with
  | create index =>
      unfold perform createStep at performed
      cases place : machine.places (.worker index) with
      | absent =>
          simp only [place] at performed
          cases performed
          exact .created place
      | _ => simp [place] at performed
  | push thread task => exact push_effect performed
  | lock thread => exact lock_effect performed
  | store thread => exact store_effect performed
  | take thread => exact take_effect performed
  | finish thread returned =>
      unfold perform finishStep at performed
      cases place : machine.places thread with
      | calling worker task push =>
          cases push with
          | none =>
              simp only [place] at performed
              cases performed
              exact .returns place
          | some push => simp [place] at performed
      | _ => simp [place] at performed
  | unlock thread =>
      unfold perform unlockStep at performed
      cases place : machine.places thread with
      | unlocking worker =>
          simp only [place] at performed
          cases performed
          exact .unlocks place
      | _ => simp [place] at performed

end Effects

/-! ## Mutual exclusion -/

/-- The holder is the thread inside, and no task's function got behind the
lock its worker holds. -/
structure Excluded (machine : Machine Value) : Prop where
  exclusive : Exclusive Place.Inside machine.places machine.holder
  outer : ∀ thread worker task pushed,
    machine.places thread ≠ .calling worker task (some (.storing pushed))

theorem excluded_start (pool : ThreadPool Nat) : Excluded (start pool : Machine Value) := by
  constructor
  · apply exclusive_free
    intro thread
    cases thread with
    | worker index => exact id
    | client index => exact id
  · intro thread worker task pushed
    cases thread with
    | worker index => exact nofun
    | client index => exact nofun

/-- Places that a step leaves alone keep their exclusion. -/
theorem outer_at {machine : Machine Value} {thread : Thread} {place : Place}
    (excluded : Excluded machine)
    (outer : ∀ worker task pushed, place ≠ .calling worker task (some (.storing pushed))) :
    ∀ other worker task pushed, Function.update machine.places thread place other ≠
      .calling worker task (some (.storing pushed)) := by
  intro other
  by_cases moved : other = thread
  · rw [moved, Function.update_self]
    exact outer
  · rw [Function.update_of_ne moved]
    exact excluded.outer other

theorem excluded_step {machine next : Machine Value} {step : Step Value} {report : Report}
    (excluded : Excluded machine) (effect : Effect machine step report next) : Excluded next := by
  have exclusive := excluded.exclusive
  cases effect with
  | created place =>
      refine ⟨exclusive_move exclusive ?_, outer_at excluded nofun⟩
      rw [place]
      exact Iff.rfl
  | refused full => exact excluded
  | comes place fits =>
      cases push_cases place with
      | inl client =>
          rw [client]
          refine ⟨exclusive_move exclusive ?_, outer_at excluded nofun⟩
          rw [client]
          exact Iff.rfl
      | inr calls =>
          obtain ⟨worker, task, calling⟩ := calls
          rw [calling]
          refine ⟨exclusive_move exclusive ?_, outer_at excluded nofun⟩
          rw [calling]
          exact Iff.rfl
  | @locks thread place free waits =>
      rw [free] at exclusive
      have outside : ¬ (machine.places thread).Inside := outside_of_free exclusive
      rcases behind_lock_cases waits with ⟨task, _, rfl⟩ | ⟨worker, _, rfl⟩ | inner
      · exact ⟨exclusive_take exclusive trivial, outer_at excluded nofun⟩
      · exact ⟨exclusive_take exclusive trivial, outer_at excluded nofun⟩
      · -- a worker in a function holds the lock already
        obtain ⟨worker, task, pushed, here, _⟩ := inner
        rw [here] at outside
        exact absurd trivial outside
  | stores place inside =>
      cases push_cases place with
      | inl client =>
          rw [client]
          refine ⟨exclusive_give exclusive ?_ id, outer_at excluded nofun⟩
          rw [client]
          trivial
      | inr calls =>
          obtain ⟨worker, task, calling⟩ := calls
          exact absurd calling (excluded.outer _ _ _ _)
  | takes place nonempty front =>
      refine ⟨exclusive_move exclusive ?_, outer_at excluded nofun⟩
      rw [place]
      exact Iff.rfl
  | idles place empty =>
      refine ⟨exclusive_move exclusive ?_, outer_at excluded nofun⟩
      rw [place]
      exact Iff.rfl
  | returns place =>
      refine ⟨exclusive_move exclusive ?_, outer_at excluded nofun⟩
      rw [place]
      exact Iff.rfl
  | unlocks place =>
      refine ⟨exclusive_give exclusive ?_ id, outer_at excluded nofun⟩
      rw [place]
      trivial

end Sysprog.Threads.LockSteps
