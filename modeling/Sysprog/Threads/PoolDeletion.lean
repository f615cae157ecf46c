import Sysprog.Threads.AccessInvariants

/-!
# Deleting the pool

`thread_pool_delete` frees the pool without looking at its queue or at its
workers. Where nothing waits, nobody is in the critical section and every
worker has exited, nobody is left to miss it.
-/

namespace Sysprog.Threads.PoolDeletion

open CheckedRuns Accesses AccessInvariants
open Pool (ThreadPool ThreadTask Worker threadPoolNew newPool queueFront lastIteration)
open Deliveries (waitingCells)

set_option autoImplicit false

/-- Nothing waits, nothing is executed, and no worker has a step left. -/
structure Done (machine : Machine) : Prop where
  nothingWaits : ∀ task, ¬ Waits machine task
  nothingRuns : (place machine).task? = none
  nobodyLeft : ∀ worker returned, perform machine (.work worker returned) = .error .notEnabled

/-- A delete that comes now frees the pool only if everything is done, and is
otherwise refused without a change. -/
def FreesWhenDone (machine : Machine) : Prop :=
  ∀ report next, perform machine .deletePool = .ok (report, next) →
    (report = .poolFreed → Done machine) ∧
      (¬ Done machine → report = .refused tpoolErrHasTasks ∧ next = machine)

/-- The count of the queue is 0, nobody is in the critical section, and each
worker that was created has exited. -/
structure Idle (machine : Machine) : Prop where
  empty : machine.pool.queueCount = 0
  unlocked : machine.critical = none
  exited : ∀ (worker : Nat) (thread : Worker), machine.workers[worker]? = some thread →
    thread.exited = true

def DeletesIdle (_ : History) (machine : Machine) : Step → Prop
  | .deletePool => Idle machine
  | _ => True

/-- What is asked of a state: no worker is about to use a freed pool, nothing
waits in one, and a delete that comes now does as it should exactly when the
pool is idle. -/
structure AbandonsNothing (machine : Machine) : Prop where
  untouched : ∀ worker returned, perform machine (.work worker returned) ≠ .error .freedPool
  served : machine.poolFreed = true → ∀ task, ¬ Waits machine task
  deletes : machine.poolFreed = false → (FreesWhenDone machine ↔ Idle machine)

structure Attended (machine : Machine) : Prop where
  holder : ∀ worker here, machine.critical = some (worker, here) →
    ∃ thread, machine.workers[worker]? = some thread
  freed : machine.poolFreed = true → Idle machine

section Steps

variable {pushes : Nat → Nat} {executions : Nat → List (Option (Nat × Int))} {history : History}
  {machine next : Machine} {step : Step} {report : Report}

theorem holder_step (attended : Attended machine) (effect : Effect machine step report next)
    {worker : Nat} {here : Place} (holds : next.critical = some (worker, here)) :
    ∃ thread, next.workers[worker]? = some thread := by
  cases effect with
  | created alive =>
      obtain ⟨thread, present⟩ := attended.holder worker here holds
      obtain ⟨inside, _⟩ := List.getElem?_eq_some_iff.mp present
      exact ⟨thread, (List.getElem?_append_left inside).trans present⟩
  | took unlocked present _ _ _ _ _ =>
      cases holds
      exact ⟨_, present⟩
  | idle unlocked present _ _ _ =>
      cases holds
      exact ⟨_, present⟩
  | executedNull calling present =>
      cases holds
      exact attended.holder _ _ calling
  | executed calling present =>
      cases holds
      exact attended.holder _ _ calling
  | accessed held isTask present access =>
      cases holds
      exact attended.holder _ _ held
  | unlocked held alive present => cases holds
  | _ => exact attended.holder worker here holds

theorem freed_step (attended : Attended machine) (permitted : DeletesIdle history machine step)
    (effect : Effect machine step report next) (freed : next.poolFreed = true) : Idle next := by
  have stillFreed : machine.poolFreed = false → ¬ machine.poolFreed = true := by
    intro alive
    rw [alive]
    exact Bool.false_ne_true
  have nobody : machine.poolFreed = true → ∀ {worker : Nat} {here : Place},
      machine.critical ≠ some (worker, here) := by
    intro already worker here holds
    rw [(attended.freed already).unlocked] at holds
    cases holds
  cases effect with
  | poolFreed alive =>
      have idle : Idle machine := permitted
      exact ⟨idle.empty, idle.unlocked, idle.exited⟩
  | created alive => exact absurd freed (stillFreed alive)
  | pushed place alive unlocked inside => exact absurd freed (stillFreed alive)
  | took unlocked present runs alive nonempty nonneg front => exact absurd freed (stillFreed alive)
  | idle unlocked present runs alive empty => exact absurd freed (stillFreed alive)
  | executedNull calling present => exact absurd calling (nobody freed)
  | executed calling present => exact absurd calling (nobody freed)
  | accessed held isTask present access => exact absurd held (nobody freed)
  | unlocked held alive present => exact absurd held (nobody freed)
  | _ =>
      have idle := attended.freed freed
      exact ⟨idle.empty, idle.unlocked, idle.exited⟩

theorem attended_step (attended : Attended machine) (permitted : DeletesIdle history machine step)
    (effect : Effect machine step report next) : Attended next := by
  constructor
  · intro worker here holds
    exact holder_step attended effect holds
  · intro freed
    exact freed_step attended permitted effect freed

theorem nothing_waits_iff (holds : Consistent pushes executions machine) :
    (∀ task, ¬ Waits machine task) ↔ machine.pool.queueCount = 0 := by
  obtain ⟨waiting, queued, _⟩ := holds.queue
  have count := queued.count
  constructor
  · intro nothing
    have empty : waiting = [] := by
      apply List.eq_nil_iff_forall_not_mem.mpr
      intro task member
      exact nothing task ((waits_iff queued task).mpr member)
    rw [count, empty]
    rfl
  · intro none task waits
    have member := (waits_iff queued task).mp waits
    have positive := List.length_pos_of_mem member
    omega

/-- The holder of the lock, between its accesses to a task, goes on to unlock.
-/
theorem holder_unlocks {worker : Nat} {thread : Worker}
    (held : machine.critical = some (worker, .unlocking)) (alive : machine.poolFreed = false)
    (present : machine.workers[worker]? = some thread) (returned : Option Int) :
    ∃ next, perform machine (.work worker returned) = .ok (.silent, next) := by
  simp only [perform, workStep, held, if_true, Place.task?, unlockQueue, alive, present]
  exact ⟨_, rfl⟩

theorem worker_polls {worker : Nat} {thread : Worker} (unlocked : machine.critical = none)
    (present : machine.workers[worker]? = some thread) (runs : thread.exited = false)
    (alive : machine.poolFreed = false) (empty : machine.pool.queueCount = 0)
    (returned : Option Int) :
    perform machine (.work worker returned) = .ok (.silent, machine.holding worker .unlocking) := by
  have notMore : ¬ 0 < machine.pool.queueCount := by omega
  simp only [perform, workStep, unlocked, present, runs, lockQueue, alive, if_neg notMore]
  rfl

theorem nobody_left (idle : Idle machine) (worker : Nat) (returned : Option Int) :
    perform machine (.work worker returned) = .error .notEnabled := by
  cases present : machine.workers[worker]? with
  | none => simp only [perform, workStep, idle.unlocked, present]
  | some thread =>
      have exited := idle.exited worker thread present
      simp only [perform, workStep, idle.unlocked, present, exited, if_true]

theorem done_iff_idle (holds : Consistent pushes executions machine) (attended : Attended machine)
    (alive : machine.poolFreed = false) : Done machine ↔ Idle machine := by
  constructor
  · intro done
    have empty := (nothing_waits_iff holds).mp done.nothingWaits
    have unlocked : machine.critical = none := by
      cases held : machine.critical with
      | none => rfl
      | some pair =>
          rcases pair with ⟨worker, here⟩
          have noTask := done.nothingRuns
          rw [place_of_holds held] at noTask
          cases here with
          | unlocking =>
              obtain ⟨thread, present⟩ := attended.holder worker .unlocking held
              obtain ⟨next, unlocks⟩ := holder_unlocks held alive present none
              rw [done.nobodyLeft worker none] at unlocks
              cases unlocks
          | _ => cases noTask
    refine ⟨empty, unlocked, ?_⟩
    intro worker thread present
    by_contra runs
    have polls := worker_polls unlocked present (by simpa using runs) alive empty none
    rw [done.nobodyLeft worker none] at polls
    cases polls
  · intro idle
    refine ⟨(nothing_waits_iff holds).mpr idle.empty, ?_, nobody_left idle⟩
    rw [place, idle.unlocked]
    rfl

/-- The delete looks at nothing. -/
theorem frees_when_done_iff (alive : machine.poolFreed = false) :
    FreesWhenDone machine ↔ Done machine := by
  have frees : perform machine .deletePool = .ok (.poolFreed, { machine with poolFreed := true }) := by
    simp only [perform, alive]
    rfl
  constructor
  · intro safe
    exact (safe _ _ frees).1 rfl
  · intro done report next performed
    rw [frees] at performed
    cases performed
    exact ⟨fun _ => done, fun notDone => absurd done notDone⟩

theorem lock_untouched (alive : machine.poolFreed = false) (worker : Nat) :
    lockQueue machine worker ≠ .error .freedPool := by
  intro failed
  simp only [lockQueue, alive, Bool.false_eq_true, if_false] at failed
  split_ifs at failed
  cases front : queueFront machine.pool with
  | error fault => simp [front] at failed
  | ok found =>
      cases found with
      | none => simp [front] at failed
      | some task => simp [front] at failed

theorem unlock_untouched (alive : machine.poolFreed = false) (worker : Nat) :
    unlockQueue machine worker ≠ .error .freedPool := by
  intro failed
  simp only [unlockQueue, alive, Bool.false_eq_true, if_false] at failed
  cases present : machine.workers[worker]? with
  | none => simp [present] at failed
  | some thread => simp [present] at failed

theorem task_access_untouched (worker task : Nat) (cell : ThreadTask Nat)
    (returned : Option Int) (here : Place) :
    taskAccess machine worker task cell returned here ≠ .error .freedPool := by
  intro failed
  cases here with
  | calling other =>
      cases returned with
      | none => cases failed
      | some value => cases failed
  | _ => cases failed

theorem alive_untouched (alive : machine.poolFreed = false) (worker : Nat)
    (returned : Option Int) : perform machine (.work worker returned) ≠ .error .freedPool := by
  intro failed
  simp only [perform, workStep] at failed
  cases held : machine.critical with
  | none =>
      cases present : machine.workers[worker]? with
      | none => simp [held, present] at failed
      | some thread =>
          simp only [held, present] at failed
          split_ifs at failed
          · cases failed
          · exact lock_untouched alive worker failed
  | some pair =>
      rcases pair with ⟨holder, here⟩
      simp only [held] at failed
      split_ifs at failed
      · cases isTask : here.task? with
        | none =>
            simp only [isTask] at failed
            exact unlock_untouched alive worker failed
        | some task =>
            cases present : machine.tasks.read task with
            | none => simp [isTask, present] at failed
            | some cell =>
                simp only [isTask, present] at failed
                exact task_access_untouched worker task cell returned here failed
      · cases failed

theorem abandons_nothing_of_attended (holds : Consistent pushes executions machine)
    (attended : Attended machine) : AbandonsNothing machine := by
  constructor
  · intro worker returned
    cases freed : machine.poolFreed with
    | false => exact alive_untouched freed worker returned
    | true =>
        rw [nobody_left (attended.freed freed) worker returned]
        exact nofun
  · intro freed
    exact (nothing_waits_iff holds).mpr (attended.freed freed).empty
  · intro alive
    exact (frees_when_done_iff alive).trans (done_iff_idle holds attended alive)

end Steps

/-! ## Runs -/

theorem run_attended {maxThreadCount : Int} {history : History} {machine : Machine}
    (run : Run perform DeletesIdle (start (newPool Nat maxThreadCount)) history machine) :
    Attended machine := by
  apply run_invariant (fun _ machine => Attended machine) _ _ run
  · constructor
    · intro worker here held
      cases held
    · intro freed
      cases freed
  · intro history machine step report next attended permitted performed
    exact attended_step attended permitted (perform_effect performed)

/-- In every run whose deletes of the pool come when it is idle, no work is
abandoned, and they come as they should exactly then. -/
theorem abandons_no_work {maxThreadCount : Int} {pool : ThreadPool Nat} {history : History}
    {machine : Machine} (created : threadPoolNew Nat maxThreadCount = .ok pool)
    (run : Run perform DeletesIdle (start pool) history machine) : AbandonsNothing machine := by
  obtain ⟨rfl, _⟩ := Deliveries.thread_pool_new_ok created
  exact abandons_nothing_of_attended (run_tracks run) (run_attended run)

/-- The only worker has executed a task and then polled up to so many iterations. -/
def polledUntil (count : Nat) : Machine :=
  { executedOnce with workers := [⟨count, count = lastIteration⟩] }

theorem polls {count : Nat} (more : count < lastIteration) :
    perform (polledUntil count) (.work 0 none) =
        .ok (.silent, (polledUntil count).holding 0 .unlocking) ∧
      perform ((polledUntil count).holding 0 .unlocking) (.work 0 none) =
        .ok (.silent, polledUntil (count + 1)) := by
  have runs : decide (count = lastIteration) = false := decide_eq_false (Nat.ne_of_lt more)
  have present : (polledUntil count).workers[0]? = some ⟨count, false⟩ := by
    rw [← runs]
    rfl
  exact ⟨worker_polls rfl present rfl rfl rfl none, rfl⟩

theorem polled_reachable {count : Nat} (used : 1 ≤ count) (few : count ≤ lastIteration) :
    ∃ history, Run perform DeletesIdle (start (newPool Nat 1)) history (polledUntil count) ∧
      executionsOf history 0 = [some (0, 5)] := by
  induction count with
  | zero => cases used
  | succ count ih =>
      cases count with
      | zero =>
          refine ⟨executedHistory, ?_, rfl⟩
          apply run_executed_once
          · intro history machine step quiet
            cases step with
            | deletePool => cases quiet
            | _ => trivial
          · exact fun _ _ _ => trivial
          · exact fun _ _ _ => trivial
      | succ count =>
          obtain ⟨history, run, once⟩ := ih (Nat.succ_pos count) (Nat.le_of_succ_le few)
          obtain ⟨locks, unlocks⟩ := @polls (count + 1) few
          refine ⟨_, (run.call (by trivial) locks).call (by trivial) unlocks, ?_⟩
          rw [executions_quiet rfl, executions_quiet rfl, once]

/-- The pool is deleted after its worker has executed a task and exited. -/
theorem used_pool_deleted : ∃ history machine,
    Run perform DeletesIdle (start (newPool Nat 1)) history machine ∧
      executionsOf history 0 = [some (0, 5)] ∧
      machine.workers = [⟨lastIteration, true⟩] ∧
      machine.poolFreed = true ∧ AbandonsNothing machine := by
  obtain ⟨history, run, once⟩ := polled_reachable (by decide) (Nat.le_refl lastIteration)
  have exited : (polledUntil lastIteration).workers = [⟨lastIteration, true⟩] := by
    rw [polledUntil, decide_eq_true (Eq.refl lastIteration)]
  have idle : Idle (polledUntil lastIteration) := by
    refine ⟨rfl, rfl, ?_⟩
    intro worker thread present
    rw [exited] at present
    rw [List.mem_singleton.mp (List.mem_of_getElem? present)]
  have deleted := run.call (by exact idle) (rfl : perform _ .deletePool = .ok (.poolFreed, _))
  refine ⟨_, _, deleted, ?_, exited, rfl,
    abandons_no_work (rfl : threadPoolNew Nat 1 = .ok _) deleted⟩
  rw [executions_quiet rfl, once]

/-- A pool is freed while a task waits in its queue and a worker polls it. -/
theorem waiting_pool_deleted : ∃ history machine,
    Run perform (fun _ _ _ => True) (start (newPool Nat 1)) history machine ∧
      (∃ next, perform machine .deletePool = .ok (.poolFreed, next) ∧
        perform next (.work 0 none) = .error .freedPool) ∧
      Waits machine 0 ∧ ¬ FreesWhenDone machine := by
  have pushed : Run perform (fun _ _ _ => True) (start (newPool Nat 1)) pushedHistory pushedOnce :=
    run_pushed_once (fun _ _ _ _ => trivial) (fun _ _ _ => trivial) fun _ _ _ => trivial
  have waits : Waits pushedOnce 0 := List.mem_singleton.mpr rfl
  refine ⟨_, _, pushed, ⟨_, rfl, rfl⟩, waits, ?_⟩
  intro safe
  have done := (safe _ _ rfl).1 rfl
  exact done.nothingWaits 0 waits

end Sysprog.Threads.PoolDeletion
