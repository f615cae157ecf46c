import Sysprog.Threads.MainProgram
import Sysprog.Threads.PoolDeletion

/-!
# The task of `main`

`main` has one task, which it pushes once. Its memory, the memory of its
result, the queue and the worker that has it in hand are determined by how far
it has come; the accesses of the workers are the steps between these stages.
-/

namespace Sysprog.Threads.MainStages

open CheckedRuns Accesses AccessInvariants
open Pool (ThreadPool ThreadTask Worker newPool threadTaskNew countIteration lastIteration
  queueFront)

set_option autoImplicit false

inductive Stage where
  | unmade
  | made
  | waiting
  | taken
  | calling
  | returned
  | stored
  | finished
  | done
  | joined
  | freed
  deriving DecidableEq

def cellAt : Stage → Option (ThreadTask Nat)
  | .unmade => none
  | .made => some ⟨none, false, false⟩
  | .waiting => some ⟨none, false, false⟩
  | .taken => some ⟨none, false, false⟩
  | .calling => some ⟨none, false, true⟩
  | .returned => some ⟨none, false, true⟩
  | .stored => some ⟨some 0, false, true⟩
  | .finished => some ⟨some 0, true, true⟩
  | .done => some ⟨some 0, true, false⟩
  | .joined => some ⟨some 0, true, false⟩
  | .freed => none

def tasksAt : Stage → Heap (ThreadTask Nat)
  | .unmade => Heap.empty
  | stage => ⟨[cellAt stage]⟩

def resultsAt (result : Int) : Stage → Heap Int
  | .returned => ⟨[some result]⟩
  | .stored => ⟨[some result]⟩
  | .finished => ⟨[some result]⟩
  | .done => ⟨[some result]⟩
  | .joined => ⟨[none]⟩
  | .freed => ⟨[none]⟩
  | _ => Heap.empty

def placeAt : Stage → Place
  | .taken => .taken 0
  | .calling => .calling 0
  | .returned => .returned 0 (some 0)
  | .stored => .stored 0
  | .finished => .finished 0
  | _ => .unlocking

def waitingAt : Stage → List Nat
  | .waiting => [0]
  | _ => []

/-- What the worker that has the task does next. -/
inductive Advances : Stage → Stage → Prop where
  | taken : Advances .waiting .taken
  | calling : Advances .taken .calling
  | returned : Advances .calling .returned
  | stored : Advances .returned .stored
  | finished : Advances .stored .finished
  | done : Advances .finished .done

/-- A worker in its loop finds the queue empty, or comes to the end of an
iteration. -/
inductive Turns (machine next : Machine) : Prop where
  | polls (unlocked : machine.critical = none) (holds : next.critical ≠ none)
      (workers : next.workers = machine.workers) : Turns machine next
  | ends {worker : Nat} {thread : Worker} (holds : machine.critical ≠ none)
      (present : machine.workers[worker]? = some thread) (runs : thread.exited = false)
      (workers : next.workers = machine.workers.set worker (countIteration thread)) :
      Turns machine next

structure AtStage (result : Int) (stage : Stage) (machine : Machine) : Prop where
  tasks : machine.tasks = tasksAt stage
  results : machine.results = resultsAt result stage
  place : place machine = placeAt stage
  queue : Holds machine.pool (waitingAt stage)
  unused : stage = .unmade ∨ stage = .made → machine.pool.queueTail = 0

/-- The workers: whoever holds the lock has not exited, and until the task has
been taken nobody has come to the end of an iteration. -/
structure Crew (machine : Machine) (stage : Stage) : Prop where
  holder : ∀ worker here, machine.critical = some (worker, here) →
    ∃ thread, machine.workers[worker]? = some thread ∧ thread.exited = false
  counts : ∀ (worker : Nat) (thread : Worker), machine.workers[worker]? = some thread →
    thread.counter ≤ lastIteration ∧ (thread.exited = true ↔ thread.counter = lastIteration)
  nobody : stage = .unmade ∨ stage = .made → machine.workers = []
  fresh : stage = .waiting → machine.critical = none ∧
    ∀ (worker : Nat) (thread : Worker), machine.workers[worker]? = some thread →
      thread.exited = false

/-- What a step of a worker leaves alone. -/
structure Beside (machine next : Machine) : Prop where
  clients : next.clients = machine.clients
  poolFreed : next.poolFreed = machine.poolFreed
  threadsSize : next.pool.threadsSize = machine.pool.threadsSize
  threadCount : next.pool.threadCount = machine.pool.threadCount
  workers : next.workers.length = machine.workers.length
  exited : ∀ (worker : Nat) (thread : Worker), machine.workers[worker]? = some thread →
    thread.exited = true → next.workers[worker]? = some thread

section Stages

variable {result : Int} {stage : Stage} {machine next : Machine}

theorem beside_of_workers (clients : next.clients = machine.clients)
    (poolFreed : next.poolFreed = machine.poolFreed)
    (threadsSize : next.pool.threadsSize = machine.pool.threadsSize)
    (threadCount : next.pool.threadCount = machine.pool.threadCount)
    (workers : next.workers = machine.workers) : Beside machine next := by
  refine ⟨clients, poolFreed, threadsSize, threadCount, by rw [workers], ?_⟩
  intro worker thread present _
  rw [workers]
  exact present

theorem stage_of_task {task : Nat} (held : AtStage result stage machine)
    (isTask : (place machine).task? = some task) :
    task = 0 ∧ ∃ cell, machine.tasks.read task = some cell := by
  rw [held.place] at isTask
  rw [held.tasks]
  cases stage <;> cases isTask <;> exact ⟨rfl, _, rfl⟩

theorem stage_of_taken {task : Nat} (held : AtStage result stage machine)
    (here : place machine = .taken task) : stage = .taken ∧ task = 0 := by
  rw [held.place] at here
  cases stage <;> cases here
  exact ⟨rfl, rfl⟩

theorem stage_of_calling {task : Nat} (held : AtStage result stage machine)
    (here : place machine = .calling task) : stage = .calling ∧ task = 0 := by
  rw [held.place] at here
  cases stage <;> cases here
  exact ⟨rfl, rfl⟩

theorem stage_of_returned {task : Nat} {res : Option Nat} (held : AtStage result stage machine)
    (here : place machine = .returned task res) : stage = .returned ∧ task = 0 ∧ res = some 0 := by
  rw [held.place] at here
  cases stage <;> cases here
  exact ⟨rfl, rfl, rfl⟩

theorem stage_of_stored {task : Nat} (held : AtStage result stage machine)
    (here : place machine = .stored task) : stage = .stored ∧ task = 0 := by
  rw [held.place] at here
  cases stage <;> cases here
  exact ⟨rfl, rfl⟩

theorem stage_of_finished {task : Nat} (held : AtStage result stage machine)
    (here : place machine = .finished task) : stage = .finished ∧ task = 0 := by
  rw [held.place] at here
  cases stage <;> cases here
  exact ⟨rfl, rfl⟩

theorem waiting_of_count (held : AtStage result stage machine)
    (nonempty : 0 < machine.pool.queueCount) : stage = .waiting := by
  have count := held.queue.count
  cases stage <;> first | rfl | (change machine.pool.queueCount = 0 at count; omega)

end Stages

/-! ## A worker's access -/

section Work

variable {result : Int} {stage : Stage} {machine next : Machine} {worker : Nat}
  {returned : Option Int} {report : Report}

/-- A stage later, the same crew: nobody has come to the end of an iteration. -/
theorem crew_advanced {after : Stage} {here : Place} (crew : Crew machine stage)
    (advances : Advances stage after) (critical : next.critical = some (worker, here))
    (workers : next.workers = machine.workers)
    (holder : ∃ thread, machine.workers[worker]? = some thread ∧ thread.exited = false) :
    Crew next after := by
  constructor
  · intro other place holds
    rw [critical] at holds
    cases holds
    rw [workers]
    exact holder
  · rw [workers]
    exact crew.counts
  · intro early
    cases advances <;> cases early <;> contradiction
  · intro waits
    cases advances <;> cases waits

theorem stage_accessed {after : Stage} {changed : ThreadTask Nat} {here : Place}
    (held : AtStage result stage machine) (advances : Advances stage after)
    (here_eq : placeAt after = here) (tasks : (tasksAt stage).write 0 changed = tasksAt after)
    (results : resultsAt result stage = resultsAt result after)
    (queue : waitingAt stage = waitingAt after) :
    AtStage result after ((machine.store 0 changed).holding worker here) := by
  constructor
  · change machine.tasks.write 0 changed = tasksAt after
    rw [held.tasks, tasks]
  · exact held.results.trans results
  · exact here_eq.symm
  · rw [← queue]
    exact held.queue
  · intro early
    cases advances <;> cases early <;> contradiction

theorem holder_runs {here : Place} {thread : Worker} (crew : Crew machine stage)
    (holds : machine.critical = some (worker, here))
    (present : machine.workers[worker]? = some thread) : thread.exited = false := by
  obtain ⟨found, there, runs⟩ := crew.holder worker here holds
  rw [present] at there
  cases there
  exact runs

theorem unlocked_beside {here : Place} {thread : Worker} (crew : Crew machine stage)
    (holds : machine.critical = some (worker, here))
    (present : machine.workers[worker]? = some thread) :
    Beside machine { machine with
      critical := none
      workers := machine.workers.set worker (countIteration thread) } := by
  refine ⟨rfl, rfl, rfl, rfl, List.length_set, ?_⟩
  intro other gone there exited
  have apart : worker ≠ other := by
    intro same
    subst same
    rw [present] at there
    cases there
    rw [holder_runs crew holds present] at exited
    cases exited
  exact (List.getElem?_set_ne apart).trans there

theorem unlocked_stage (held : AtStage result stage machine) {workers : List Worker}
    (holds : machine.critical = some (worker, .unlocking)) :
    AtStage result stage { machine with
      critical := none
      workers := workers } := by
  refine ⟨held.tasks, held.results, ?_, held.queue, held.unused⟩
  rw [← held.place, place_of_holds holds]
  rfl

theorem unlocked_crew {here : Place} {thread : Worker} (crew : Crew machine stage)
    (holds : machine.critical = some (worker, here))
    (present : machine.workers[worker]? = some thread) :
    Crew { machine with
      critical := none
      workers := machine.workers.set worker (countIteration thread) } stage := by
  constructor
  · rintro _ _ ⟨⟩
  · intro other found there
    obtain ⟨below, _⟩ := crew.counts worker thread present
    have runs := holder_runs crew holds present
    by_cases own : worker = other
    · subst own
      obtain ⟨inside, _⟩ := List.getElem?_eq_some_iff.mp present
      rw [List.getElem?_set_self inside] at there
      cases there
      have notLast : thread.counter ≠ lastIteration := by
        intro last
        rw [((crew.counts worker thread present).2).mpr last] at runs
        cases runs
      refine ⟨?_, decide_eq_true_iff⟩
      change thread.counter + 1 ≤ lastIteration
      omega
    · rw [List.getElem?_set_ne own] at there
      exact crew.counts other found there
  · intro early
    rw [crew.nobody early] at present
    cases present
  · intro isWaiting
    rw [(crew.fresh isWaiting).1] at holds
    cases holds

/-- A worker either gets the task on or comes around in its loop. -/
theorem work_stage (held : AtStage result stage machine) (crew : Crew machine stage)
    (returns : ∀ task, machine.critical = some (worker, .calling task) → returned = some result)
    (effect : Effect machine (.work worker returned) report next) :
    Beside machine next ∧ ∃ after, ((after = stage ∧ Turns machine next) ∨ Advances stage after) ∧
      AtStage result after next ∧ Crew next after := by
  generalize isStep : Step.work worker returned = step at effect
  cases effect with
  | @took worker task _ thread unlocked present runs alive nonempty nonneg front =>
      cases isStep
      have isWaiting := waiting_of_count held nonempty
      subst isWaiting
      obtain ⟨rest, same, queued⟩ := holds_took held.queue nonempty front
      cases same
      refine ⟨beside_of_workers rfl rfl rfl rfl rfl, .taken, .inr .taken, ?_, ?_⟩
      · exact ⟨held.tasks, held.results, rfl, queued, Not.elim (by decide)⟩
      · exact crew_advanced crew .taken rfl rfl ⟨thread, present, runs⟩
  | @idle worker _ thread unlocked present runs alive empty =>
      cases isStep
      refine ⟨beside_of_workers rfl rfl rfl rfl rfl, stage,
        .inl ⟨rfl, .polls unlocked (by rintro ⟨⟩) rfl⟩, ?_, ?_⟩
      · refine ⟨held.tasks, held.results, ?_, held.queue, held.unused⟩
        rw [← held.place, place, place, unlocked]
        rfl
      · refine ⟨?_, crew.counts, crew.nobody, ?_⟩
        · intro other here holds
          cases holds
          exact ⟨thread, present, runs⟩
        · intro isWaiting
          subst isWaiting
          exact absurd (by rw [held.queue.count]; decide) empty
  | executedNull calling present =>
      cases isStep
      cases returns _ calling
  | @executed worker task value cell calling present =>
      cases isStep
      cases returns _ calling
      obtain ⟨rfl, rfl⟩ := stage_of_calling held (place_of_holds calling)
      have empty : machine.results = Heap.empty := held.results
      refine ⟨beside_of_workers rfl rfl rfl rfl rfl, .returned, .inr .returned, ?_, ?_⟩
      · refine ⟨held.tasks, ?_, ?_, held.queue, Not.elim (by decide)⟩
        · change machine.results.alloc result = _
          rw [empty]
          rfl
        · rw [empty]
          rfl
      · exact crew_advanced crew .returned rfl rfl (crew.holder _ _ calling)
  | accessed holds isTask present access =>
      cases isStep
      have here := place_of_holds holds
      have holder := crew.holder _ _ holds
      refine ⟨beside_of_workers rfl rfl rfl rfl rfl, ?_⟩
      have there := held.tasks
      cases access with
      | running =>
          obtain ⟨rfl, rfl⟩ := stage_of_taken held here
          cases isTask
          rw [there] at present
          cases present
          exact ⟨.calling, .inr .calling, stage_accessed held .calling rfl rfl rfl rfl,
            crew_advanced crew .calling rfl rfl holder⟩
      | stored =>
          obtain ⟨rfl, rfl, rfl⟩ := stage_of_returned held here
          cases isTask
          rw [there] at present
          cases present
          exact ⟨.stored, .inr .stored, stage_accessed held .stored rfl rfl rfl rfl,
            crew_advanced crew .stored rfl rfl holder⟩
      | finished =>
          obtain ⟨rfl, rfl⟩ := stage_of_stored held here
          cases isTask
          rw [there] at present
          cases present
          exact ⟨.finished, .inr .finished, stage_accessed held .finished rfl rfl rfl rfl,
            crew_advanced crew .finished rfl rfl holder⟩
      | cleared =>
          obtain ⟨rfl, rfl⟩ := stage_of_finished held here
          cases isTask
          rw [there] at present
          cases present
          exact ⟨.done, .inr .done, stage_accessed held .done rfl rfl rfl rfl,
            crew_advanced crew .done rfl rfl holder⟩
  | @unlocked worker _ thread holds alive present =>
      cases isStep
      have busy : machine.critical ≠ none := by
        rw [holds]
        rintro ⟨⟩
      exact ⟨unlocked_beside crew holds present, stage,
        .inl ⟨rfl, .ends busy present (holder_runs crew holds present) rfl⟩,
        unlocked_stage held holds, unlocked_crew crew holds present⟩
  | stays stays => cases isStep; cases stays
  | moved place moves => cases isStep; cases moves
  | _ => cases isStep

def MayWork (machine : Machine) (worker : Nat) : Prop :=
  (∃ here, machine.critical = some (worker, here)) ∨
    (machine.critical = none ∧
      ∃ thread, machine.workers[worker]? = some thread ∧ thread.exited = false)

theorem access_completes (task : Nat) (cell : ThreadTask Nat) {here : Place} {other : Nat}
    (isTask : here.task? = some other) :
    ∃ report next, taskAccess machine worker task cell returned here = .ok (report, next) := by
  cases here with
  | calling called =>
      cases returned with
      | none => exact ⟨_, _, rfl⟩
      | some value => exact ⟨_, _, rfl⟩
  | unlocking => cases isTask
  | _ => exact ⟨_, _, rfl⟩

theorem lock_completes {waiting : List Nat} (queued : Holds machine.pool waiting)
    (alive : machine.poolFreed = false) :
    ∃ report next, lockQueue machine worker = .ok (report, next) := by
  by_cases nonempty : 0 < machine.pool.queueCount
  · obtain ⟨task, front⟩ := holds_front queued nonempty
    simp only [lockQueue, alive, Bool.false_eq_true, if_false, if_pos nonempty, front]
    exact ⟨_, _, rfl⟩
  · simp only [lockQueue, alive, Bool.false_eq_true, if_false, if_neg nonempty]
    exact ⟨_, _, rfl⟩

theorem work_completes (held : AtStage result stage machine) (crew : Crew machine stage)
    (alive : machine.poolFreed = false) (may : MayWork machine worker) :
    ∃ report next, perform machine (.work worker returned) = .ok (report, next) := by
  rcases may with ⟨here, holds⟩ | ⟨unlocked, thread, present, runs⟩
  · cases isTask : here.task? with
    | none =>
        obtain ⟨thread, present, _⟩ := crew.holder worker here holds
        simp only [perform, workStep, holds, if_true, isTask, unlockQueue, alive,
          Bool.false_eq_true, if_false, present]
        exact ⟨_, _, rfl⟩
    | some task =>
        obtain ⟨rfl, cell, present⟩ := stage_of_task held (by rw [place_of_holds holds]; exact isTask)
        simp only [perform, workStep, holds, if_true, isTask, present]
        exact access_completes 0 cell isTask
  · simp only [perform, workStep, unlocked, present, runs, Bool.false_eq_true, if_false]
    exact lock_completes held.queue alive

theorem work_waits (mayNot : ¬ MayWork machine worker) :
    perform machine (.work worker returned) = .error .notEnabled := by
  simp only [perform, workStep]
  cases held : machine.critical with
  | none =>
      cases present : machine.workers[worker]? with
      | none => rfl
      | some thread =>
          have exited : thread.exited = true := by
            by_contra runs
            exact mayNot (.inr ⟨held, thread, present, by simpa using runs⟩)
          simp only [exited, if_true]
  | some pair =>
      have other : pair.1 ≠ worker := by
        intro same
        exact mayNot (.inl ⟨pair.2, by rw [held, ← same]⟩)
      simp only [if_neg other]

end Work

end Sysprog.Threads.MainStages
