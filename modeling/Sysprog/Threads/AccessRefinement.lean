import Sysprog.Library.Refinement
import Sysprog.Threads.AccessInvariants
import Sysprog.Threads.Sections

/-!
# Single accesses refine critical sections

Whatever the order of the single accesses, the pool does what some order of
whole critical sections does. An iteration of a worker counts as done when the
function of its task returns, or when it finds the queue empty: before that
its task is still the front of the queue, after it the task has the fields the
worker is about to store.
-/

namespace Sysprog.Threads.AccessRefinement

open CheckedRuns Refinement Accesses AccessInvariants Sections
open ArrayQueue (Access inserted removed inserted_snoc removed_snoc)
open Pool (ThreadTask Worker System Outcome newPool threadTaskNew countIteration
  tpoolMaxTasks)
open Deliveries (accessOf pushed_snoc executed_snoc)

set_option autoImplicit false

/-! ## What the critical sections have done -/

/-- The workers when an iteration that is done is counted at once. -/
def counted (critical : Option (Nat × Place)) (workers : List Worker) : List Worker :=
  match critical with
  | some (worker, place) =>
      match pending? place with
      | some _ => workers
      | none => workers.modify worker countIteration
  | none => workers

theorem counted_pending {here : Place} {task : Nat} (pending : pending? here = some task)
    (worker : Nat) (workers : List Worker) : counted (some (worker, here)) workers = workers := by
  simp only [counted, pending]

theorem counted_done {here : Place} (done : pending? here = none) (worker : Nat)
    (workers : List Worker) :
    counted (some (worker, here)) workers = workers.modify worker countIteration := by
  simp only [counted, done]

def pushing? : Within → Option Nat
  | .pushing task => some task
  | _ => none

/-- The fields a task has when the worker it is in the hands of is done. -/
def settled (place : Place) (task : Nat) (cell : ThreadTask Nat) : ThreadTask Nat :=
  match place with
  | .returned other res => if other = task then ⟨res, true, false⟩ else cell
  | .stored other =>
      if other = task then { cell with isFinished := true, isRunning := false } else cell
  | .calling other => if other = task then { cell with isRunning := false } else cell
  | .finished other => if other = task then { cell with isRunning := false } else cell
  | _ => cell

structure Refines (machine : Machine) (system : System Nat Nat) : Prop where
  pool : system.pool = putBack (pending? (place machine)) machine.pool
  workers : system.workers = counted machine.critical machine.workers
  clients : ∀ client, system.clients client = pushing? (machine.clients client)
  tasks : ∀ task cell, machine.tasks.read task = some cell →
    system.tasks task = settled (place machine) task cell
  fresh : ∀ task, machine.tasks.next ≤ task → system.tasks task = threadTaskNew Nat
  front : ∀ task, pending? (place machine) = some task → TakenFrom machine.pool task
  working : ∀ worker here, machine.critical = some (worker, here) →
    ∃ thread, machine.workers[worker]? = some thread ∧ thread.exited = false

/-- What a report says of the queue. -/
def seen : Report → Access Nat
  | .pushed task => .insert task
  | .executed task _ => .remove task
  | _ => .none

def pushes (history : History) : List Nat := inserted (history.map fun event => seen event.result)

def calls (history : History) : List Nat := removed (history.map fun event => seen event.result)

theorem pushes_snoc (history : History) (event : Event Step Report) :
    pushes (history ++ [event]) = pushes history ++ (seen event.result).inserted?.toList := by
  simp [pushes]

theorem calls_snoc (history : History) (event : Event Step Report) :
    calls (history ++ [event]) = calls history ++ (seen event.result).removed?.toList := by
  simp [calls]

/-! ## One access -/

section Steps

variable {machine next : Machine} {system : System Nat Nat} {step : Step} {report : Report}

theorem refines_start (maxThreadCount : Int) :
    Refines (start (newPool Nat maxThreadCount))
      (Pool.start (newPool Nat maxThreadCount) : System Nat Nat) := by
  constructor
  · rfl
  · rfl
  · intro client
    rfl
  · intro task cell present
    cases (Heap.read_empty task).symm.trans present
  · intro task _
    rfl
  · intro task pending
    cases pending
  · intro worker here holds
    cases holds

theorem refines_hidden (held : Refines machine system) (pool : next.pool = machine.pool)
    (critical : next.critical = machine.critical) (workers : next.workers = machine.workers)
    (clients : ∀ client, pushing? (next.clients client) = pushing? (machine.clients client))
    (tasks : ∀ task cell, next.tasks.read task = some cell →
      machine.tasks.read task = some cell ∨ machine.tasks.next ≤ task ∧ cell = threadTaskNew Nat ∧
        ((place machine).task? = some task → place machine = .taken task))
    (more : machine.tasks.next ≤ next.tasks.next) : Refines next system := by
  have here : place next = place machine := by
    rw [place, place, critical]
  constructor
  · rw [here, pool]
    exact held.pool
  · rw [critical, workers]
    exact held.workers
  · intro client
    rw [clients]
    exact held.clients client
  · intro task cell present
    rw [here]
    rcases tasks task cell present with before | ⟨new, rfl, elsewhere⟩
    · exact held.tasks task cell before
    · rw [held.fresh task new]
      unfold settled
      cases inHand : place machine with
      | taken other => rfl
      | unlocking => rfl
      | _ other =>
          rw [inHand] at elsewhere
          have different : other ≠ task := by
            intro same
            cases elsewhere (by rw [same]; rfl)
          simp only [if_neg different]
  · intro task above
    exact held.fresh task (Nat.le_trans more above)
  · rw [here, pool]
    exact held.front
  · rw [critical, workers]
    exact held.working

/-- How the critical sections answer an access: not at all, or with one step
that the queue sees as it sees the access. -/
inductive Answered (system : System Nat Nat) (report : Report) (next : Machine) : Prop where
  | silent (quiet : seen report = .none) (refines : Refines next system)
  | step {action : Pool.Action Nat Nat} {outcome : Outcome Nat} {after : System Nat Nat}
      (performed : Pool.perform system action = .ok (outcome, after))
      (sees : accessOf ⟨action, outcome⟩ = seen report) (refines : Refines next after)

theorem set_eq_modify {workers : List Worker} {worker : Nat} {thread : Worker}
    (present : workers[worker]? = some thread) :
    workers.set worker (countIteration thread) = workers.modify worker countIteration := by
  obtain ⟨inside, same⟩ := List.getElem?_eq_some_iff.mp present
  apply List.ext_getElem
  · simp
  · intro other leftBound rightBound
    rw [List.getElem_modify, List.getElem_set]
    split_ifs with here
    · subst here
      rw [same]
    · rfl

theorem modify_append {workers : List Worker} {worker : Nat} {thread : Worker} (new : List Worker)
    (present : workers[worker]? = some thread) :
    (workers ++ new).modify worker countIteration =
      workers.modify worker countIteration ++ new := by
  obtain ⟨inside, _⟩ := List.getElem?_eq_some_iff.mp present
  rw [← set_eq_modify present, ← set_eq_modify (List.getElem?_append_left inside ▸ present),
    List.set_append_left _ _ inside]

theorem created_answered (held : Refines machine system) :
    Answered system .silent { machine with
      pool := { machine.pool with threadCount := machine.pool.threadCount + 1 }
      workers := machine.workers ++ [⟨0, false⟩] } := by
  have pool : { system.pool with threadCount := system.pool.threadCount + 1 } =
      putBack (pending? (place machine))
        { machine.pool with threadCount := machine.pool.threadCount + 1 } := by
    rw [held.pool, put_back_created]
  have workers : system.workers ++ [⟨0, false⟩] =
      counted machine.critical (machine.workers ++ [⟨0, false⟩]) := by
    rw [held.workers]
    cases critical : machine.critical with
    | none => rfl
    | some holder =>
        obtain ⟨worker, here⟩ := holder
        obtain ⟨thread, present, _⟩ := held.working worker here critical
        cases pending : pending? here with
        | some task => rw [counted_pending pending, counted_pending pending]
        | none => rw [counted_done pending, counted_done pending, modify_append _ present]
  refine .step (show Pool.perform system .create = .ok (.created, _) from rfl) rfl ?_
  refine ⟨pool, workers, held.clients, held.tasks, held.fresh, held.front, ?_⟩
  intro worker here critical
  obtain ⟨thread, present, runs⟩ := held.working worker here critical
  obtain ⟨inside, _⟩ := List.getElem?_eq_some_iff.mp present
  exact ⟨thread, by rw [List.getElem?_append_left inside]; exact present, runs⟩

theorem clients_at (held : Refines machine system) (client : Nat) (here : Within) (other : Nat) :
    Function.update system.clients client (pushing? here) other =
      pushing? ((machine.at client here).clients other) := by
  unfold Machine.at
  by_cases own : other = client
  · subst own
    simp
  · simp only [Function.update_of_ne own]
    exact held.clients other

/-- Nobody is in `process_task`: the two pools are one. -/
theorem same_of_unlocked (held : Refines machine system) (unlocked : machine.critical = none) :
    place machine = .unlocking ∧ system.pool = machine.pool ∧ system.workers = machine.workers := by
  have idle : place machine = .unlocking := by rw [place, unlocked]
  have pool := held.pool
  have workers := held.workers
  rw [idle] at pool
  rw [unlocked] at workers
  exact ⟨idle, pool, workers⟩

theorem pushed_answered {client task : Nat} (held : Refines machine system)
    (here : machine.clients client = .pushing task) (unlocked : machine.critical = none)
    (inside : 0 ≤ machine.pool.queueTail ∧
      machine.pool.queueTail.toNat < machine.pool.queue.length) :
    Answered system (.pushed task) ({ machine with
      pool := { machine.pool with
        queue := machine.pool.queue.set machine.pool.queueTail.toNat (some task)
        queueTail := machine.pool.queueTail + 1
        queueCount := machine.pool.queueCount + 1 } }.at client .outside) := by
  obtain ⟨idle, pool, workers⟩ := same_of_unlocked held unlocked
  have pending := held.clients client
  rw [here] at pending
  refine .step (enqueue_completes pending pool inside) rfl
    ⟨?_, ?_, ?_, ?_, held.fresh, ?_, held.working⟩
  · change _ = putBack (pending? (place machine)) _
    rw [idle]
    rfl
  · change system.workers = counted machine.critical machine.workers
    rw [unlocked]
    exact workers
  · exact clients_at held client .outside
  · exact held.tasks
  · intro other impossible
    change pending? (place machine) = some other at impossible
    rw [idle] at impossible
    cases impossible

theorem took_refines {worker task : Nat} {thread : Worker} (held : Refines machine system)
    (unlocked : machine.critical = none) (present : machine.workers[worker]? = some thread)
    (runs : thread.exited = false) (nonneg : 0 ≤ machine.pool.queueHead)
    (front : machine.pool.queue[machine.pool.queueHead.toNat]? = some (some task)) :
    Refines { machine with
      pool := { machine.pool with
        queueHead := machine.pool.queueHead + 1
        queueCount := machine.pool.queueCount - 1 }
      critical := some (worker, .taken task) } system := by
  obtain ⟨idle, pool, workers⟩ := same_of_unlocked held unlocked
  refine ⟨?_, ?_, held.clients, ?_, held.fresh, ?_, ?_⟩
  · change system.pool = putBack (some task) _
    rw [put_back_taken]
    exact pool
  · change system.workers = counted (some (worker, .taken task)) machine.workers
    rw [counted_pending rfl]
    exact workers
  · intro other cell there
    have before := held.tasks other cell there
    rw [idle] at before
    exact before
  · intro other pending
    cases pending
    exact taken_from_front nonneg front
  · intro other here holds
    cases holds
    exact ⟨thread, present, runs⟩

theorem idle_answered {worker : Nat} {thread : Worker} (held : Refines machine system)
    (unlocked : machine.critical = none) (present : machine.workers[worker]? = some thread)
    (runs : thread.exited = false) (empty : ¬ 0 < machine.pool.queueCount) :
    Answered system .silent (machine.holding worker .unlocking) := by
  obtain ⟨idle, pool, workers⟩ := same_of_unlocked held unlocked
  have there : system.workers[worker]? = some thread := by
    rw [workers]
    exact present
  have still : ¬ 0 < system.pool.queueCount := by
    rw [pool]
    exact empty
  refine .step (idle_completes none there runs still) rfl
    ⟨?_, ?_, held.clients, ?_, held.fresh, ?_, ?_⟩
  · exact pool
  · change system.workers.set worker (countIteration thread) =
      counted (some (worker, .unlocking)) machine.workers
    rw [counted_done rfl, workers, set_eq_modify present]
  · intro other cell there
    have before := held.tasks other cell there
    rw [idle] at before
    exact before
  · intro other pending
    cases pending
  · intro other here holds
    cases holds
    exact ⟨thread, present, runs⟩

theorem executed_answered {worker task : Nat} {cell : ThreadTask Nat} {res : Option Nat}
    {results : Heap Int} {report : Report} (held : Refines machine system)
    (nonneg : 0 ≤ machine.pool.queueCount)
    (holds : machine.critical = some (worker, .calling task))
    (present : machine.tasks.read task = some cell) (sees : seen report = .remove task) :
    Answered system report
      ({ machine with results := results }.holding worker (.returned task res)) := by
  have here := place_of_holds holds
  have pool := held.pool
  have workers := held.workers
  obtain ⟨thread, there, runs⟩ := held.working worker _ holds
  have taken : TakenFrom machine.pool task := held.front task (by rw [here]; rfl)
  rw [here] at pool
  rw [holds, counted_pending rfl] at workers
  have working : system.workers[worker]? = some thread := by
    rw [workers]
    exact there
  refine .step (iterate_completes res working runs pool nonneg taken) sees.symm
    ⟨?_, ?_, held.clients, ?_, ?_, ?_, ?_⟩
  · rfl
  · change system.workers.set worker (countIteration thread) =
      counted (some (worker, .returned task res)) machine.workers
    rw [counted_done rfl, workers, set_eq_modify there]
  · intro other found there
    have before := held.tasks other found there
    rw [here] at before
    change Function.update system.tasks task ⟨res, true, false⟩ other =
      settled (.returned task res) other found
    by_cases own : task = other
    · subst own
      simp [settled]
    · rw [Function.update_of_ne (Ne.symm own), before]
      simp [settled, own]
  · intro other above
    have inside := Heap.lt_next_of_read present
    have different : other ≠ task := by
      intro same
      subst same
      exact absurd inside (Nat.not_lt.mpr above)
    dsimp only
    rw [Function.update_of_ne different]
    exact held.fresh other above
  · intro other pending
    cases pending
  · intro other place holds
    cases holds
    exact ⟨thread, there, runs⟩

theorem settled_access {before after : Place} {cell changed : ThreadTask Nat} {task : Nat}
    (isTask : before.task? = some task) (access : Accesses.Access cell before changed after)
    (idle : before = .taken task → cell.isRunning = false) :
    settled after task changed = settled before task cell := by
  cases access with
  | running =>
      cases isTask
      have stopped := idle rfl
      simp [settled, ← stopped]
  | stored =>
      cases isTask
      simp [settled]
  | finished =>
      cases isTask
      simp [settled]
  | cleared =>
      cases isTask
      simp [settled]

theorem settled_elsewhere {before after : Place} {cell changed found : ThreadTask Nat}
    {task other : Nat} (isTask : before.task? = some task)
    (access : Accesses.Access cell before changed after) (different : task ≠ other) :
    settled after other found = settled before other found := by
  cases access <;>
    · cases isTask
      simp [settled, different]

theorem pending_access {before after : Place} {cell changed : ThreadTask Nat}
    (access : Accesses.Access cell before changed after) : pending? after = pending? before := by
  cases access <;> rfl

theorem accessed_refines {worker task : Nat} {before after : Place} {cell changed : ThreadTask Nat}
    (held : Refines machine system) (holds : machine.critical = some (worker, before))
    (isTask : before.task? = some task) (present : machine.tasks.read task = some cell)
    (idle : before = .taken task → cell.isRunning = false)
    (access : Accesses.Access cell before changed after) :
    Refines ((machine.store task changed).holding worker after) system := by
  have here := place_of_holds holds
  have same := pending_access access
  have pool := held.pool
  have workers := held.workers
  have tasks := held.tasks
  rw [here] at pool tasks
  rw [holds] at workers
  refine ⟨?_, ?_, held.clients, ?_, ?_, ?_, ?_⟩
  · change system.pool = putBack (pending? after) machine.pool
    rw [same]
    exact pool
  · change system.workers = counted (some (worker, after)) machine.workers
    rw [counted, same]
    exact workers
  · intro other found there
    change system.tasks other = settled after other found
    rcases Heap.read_write_cases present there with ⟨rfl, rfl⟩ | ⟨different, old⟩
    · rw [settled_access isTask access idle]
      exact tasks other cell present
    · rw [settled_elsewhere isTask access (Ne.symm different)]
      exact tasks other found old
  · intro other above
    change (machine.tasks.write task changed).next ≤ other at above
    rw [Heap.next_write] at above
    exact held.fresh other above
  · intro other pending
    change pending? after = some other at pending
    rw [same, ← here] at pending
    exact held.front other pending
  · intro other place held'
    cases held'
    exact held.working worker before holds

theorem unlocked_refines {worker : Nat} {thread : Worker} (held : Refines machine system)
    (holds : machine.critical = some (worker, .unlocking))
    (present : machine.workers[worker]? = some thread) :
    Refines { machine with
      critical := none
      workers := machine.workers.set worker (countIteration thread) } system := by
  have here := place_of_holds holds
  have pool := held.pool
  have workers := held.workers
  have tasks := held.tasks
  rw [here] at pool tasks
  rw [holds, counted_done rfl, ← set_eq_modify present] at workers
  refine ⟨pool, workers, held.clients, tasks, held.fresh, ?_, ?_⟩
  · intro task impossible
    cases impossible
  · intro other place impossible
    cases impossible

/-- A client that comes up to the lock has passed the check before it. -/
theorem push_fits {client task : Nat} {here : Within}
    (performed : perform machine (.push client (some task)) = .ok (.silent, machine.at client here)) :
    machine.clients client = .outside ∧ machine.pool.threadCount + 1 ≠ tpoolMaxTasks := by
  simp only [perform] at performed
  split_ifs at performed with outside
  refine ⟨outside, ?_⟩
  intro full
  simp only [pushCall, if_pos full] at performed
  split_ifs at performed
  cases performed

theorem pushing_answered {client task : Nat} (held : Refines machine system)
    (outside : machine.clients client = .outside)
    (fits : machine.pool.threadCount + 1 ≠ tpoolMaxTasks) :
    Answered system .silent (machine.at client (.pushing task)) := by
  have free := held.clients client
  rw [outside] at free
  have still : system.pool.threadCount + 1 ≠ tpoolMaxTasks := by
    rw [held.pool, put_back_thread_count]
    exact fits
  exact .step (push_completes task free still) rfl ⟨held.pool, held.workers,
    clients_at held client (.pushing task), held.tasks, held.fresh, held.front, held.working⟩

/-- The steps of a client around its pushes are not seen. -/
theorem moved_refines {client : Nat} {before after : Within} (held : Refines machine system)
    (here : machine.clients client = before) (same : pushing? after = pushing? before) :
    Refines (machine.at client after) system := by
  refine ⟨held.pool, held.workers, ?_, held.tasks, held.fresh, held.front, held.working⟩
  intro other
  rw [← clients_at held client after other]
  by_cases own : other = client
  · subst own
    rw [Function.update_self, same, ← here]
    exact held.clients other
  · rw [Function.update_of_ne own]

theorem moved_answered {client : Nat} {before after : Within} (held : Refines machine system)
    (performed : perform machine step = .ok (report, machine.at client after))
    (here : machine.clients client = before) (moves : Moves machine client step report before after) :
    Answered system report (machine.at client after) := by
  cases moves with
  | pushing =>
      obtain ⟨outside, fits⟩ := push_fits performed
      exact pushing_answered held outside fits
  | _ => exact .silent rfl (moved_refines held here rfl)

theorem made_refines (held : Refines machine system)
    (handled : ∀ task, (place machine).task? = some task → place machine ≠ .taken task →
      task < machine.tasks.next) :
    Refines { machine with tasks := machine.tasks.alloc (threadTaskNew Nat) } system := by
  refine refines_hidden held rfl rfl rfl (fun _ => rfl) ?_ ?_
  · intro task cell present
    by_cases new : task = machine.tasks.next
    · subst new
      rw [Heap.read_alloc_next] at present
      cases present
      refine .inr ⟨Nat.le_refl _, rfl, ?_⟩
      intro inHand
      by_contra further
      exact absurd (handled _ inHand further) (Nat.lt_irrefl _)
    · rw [Heap.read_alloc_of_ne _ new] at present
      exact .inl present
  · rw [Heap.next_alloc]
    exact Nat.le_succ _

/-- Every access is answered by the critical sections. -/
theorem step_answered {history : History} (tracks : Tracks history machine)
    (held : Refines machine system) (performed : perform machine step = .ok (report, next)) :
    Answered system report next := by
  obtain ⟨waiting, queued, _⟩ := tracks.queue
  cases perform_effect performed with
  | created => exact created_answered held
  | made => exact .silent rfl (made_refines held tracks.handled)
  | poolFreed =>
      exact .silent rfl ⟨held.pool, held.workers, held.clients, held.tasks, held.fresh, held.front,
        held.working⟩
  | stays stays => exact .silent (by cases stays <;> rfl) held
  | moved here moves => exact moved_answered held performed here moves
  | pushed here _ unlocked inside => exact pushed_answered held here unlocked inside
  | joinedNull here => exact .silent rfl (moved_refines held here rfl)
  | @joined client task address value cell here present ret stored result =>
      have hidden : Refines { machine with results := machine.results.release address } system :=
        ⟨held.pool, held.workers, held.clients, held.tasks, held.fresh, held.front, held.working⟩
      exact .silent rfl (moved_refines hidden here rfl)
  | @freed client task cell here present =>
      have hidden : Refines { machine with tasks := machine.tasks.release task } system := by
        refine refines_hidden held rfl rfl rfl (fun _ => rfl) ?_ ?_
        · intro other found there
          exact .inl (Heap.read_of_read_release there).2
        · exact Nat.le_of_eq (Heap.next_release _ _).symm
      exact .silent rfl (moved_refines hidden here rfl)
  | took unlocked present runs _ _ nonneg front =>
      exact .silent rfl (took_refines held unlocked present runs nonneg front)
  | idle unlocked present runs _ empty => exact idle_answered held unlocked present runs empty
  | executedNull holds present =>
      exact executed_answered held (by rw [queued.count]; omega) holds present rfl
  | executed holds present =>
      exact executed_answered held (by rw [queued.count]; omega) holds present rfl
  | accessed holds isTask present access =>
      refine .silent rfl (accessed_refines held holds isTask present ?_ access)
      intro taken
      have running := tracks.running _ _ present
      rw [place_of_holds holds] at running
      cases isRunning : Pool.ThreadTask.isRunning _ with
      | false => rfl
      | true => exact absurd taken (running.mp isRunning).2
  | unlocked holds _ present => exact .silent rfl (unlocked_refines held holds present)

end Steps

/-! ## Every order of accesses -/

/-- A run of accesses and a run of critical sections that have done the same. -/
structure Related (history : History) (machine : Machine) (observed : Pool.History Nat Nat)
    (system : System Nat Nat) : Prop where
  tracks : Tracks history machine
  refines : Refines machine system
  pushes : Deliveries.pushed observed = pushes history
  calls : Deliveries.executed observed = calls history

theorem related_step {allowed : Pool.History Nat Nat → System Nat Nat → Pool.Action Nat Nat → Prop}
    (any : ∀ observed system action, allowed observed system action)
    {first : System Nat Nat} {history : History} {machine next : Machine} {step : Step}
    {report : Report} {observed : Pool.History Nat Nat} {system : System Nat Nat}
    (held : Related history machine observed system)
    (performed : perform machine step = .ok (report, next))
    (matched : Run Pool.perform allowed first observed system) :
    ∃ observed' system', Run Pool.perform allowed first observed' system' ∧
      Related (history ++ [⟨step, report⟩]) next observed' system' := by
  have tracked := tracks_step held.tracks (perform_effect performed)
  cases step_answered held.tracks held.refines performed with
  | silent quiet refines =>
      refine ⟨observed, system, matched, tracked, refines, ?_, ?_⟩
      · rw [pushes_snoc, quiet, held.pushes]
        exact (List.append_nil _).symm
      · rw [calls_snoc, quiet, held.calls]
        exact (List.append_nil _).symm
  | step answered sees refines =>
      refine ⟨_, _, matched.call (any _ _ _) answered, tracked, refines, ?_, ?_⟩
      · rw [pushed_snoc, pushes_snoc, sees, held.pushes]
      · rw [executed_snoc, calls_snoc, sees, held.calls]

theorem run_related {allowed : History → Machine → Step → Prop} {maxThreadCount : Int}
    {history : History} {machine : Machine}
    (run : Run perform allowed (start (newPool Nat maxThreadCount)) history machine) :
    ∃ observed system, Run Pool.perform (fun _ _ _ => True)
      (Pool.start (newPool Nat maxThreadCount)) observed system ∧
        Related history machine observed system :=
  simulated_run Related
    ⟨consistent_initial maxThreadCount, refines_start maxThreadCount, rfl, rfl⟩
    (fun _ _ _ _ _ _ _ held _ performed matched =>
      related_step (fun _ _ _ => trivial) held performed matched) run

/-- Every run of single accesses has a run of critical sections with the same
pushes and the same executions in the same order, at the end of which the pool
and the tasks are as the accesses have left them or are about to. -/
theorem accesses_refine_sections {allowed : History → Machine → Step → Prop} {maxThreadCount : Int}
    {history : History} {machine : Machine}
    (run : Run perform allowed (start (newPool Nat maxThreadCount)) history machine) :
    ∃ observed system, Run Pool.perform (fun _ _ _ => True)
      (Pool.start (newPool Nat maxThreadCount)) observed system ∧
        Deliveries.pushed observed = pushes history ∧
        Deliveries.executed observed = calls history ∧ Refines machine system := by
  obtain ⟨observed, system, matched, related⟩ := run_related run
  exact ⟨observed, system, matched, related.pushes, related.calls, related.refines⟩

theorem executed_once_refined :
    ∃ observed system, Run Pool.perform (fun _ _ _ => True) (Pool.start (newPool Nat 1)) observed
      system ∧ Deliveries.pushed observed = [0] ∧ Deliveries.executed observed = [0] ∧
        Refines executedOnce system :=
  @accesses_refine_sections (fun _ _ _ => True) 1 executedHistory executedOnce
    (run_executed_once (fun _ _ _ _ => trivial) (fun _ _ _ => trivial) fun _ _ _ => trivial)

/-- In every order of single accesses the functions of the tasks are called in
the order of the pushes, each push once. -/
theorem calls_follow_pushes {allowed : History → Machine → Step → Prop} {maxThreadCount : Int}
    {history : History} {machine : Machine}
    (run : Run perform allowed (start (newPool Nat maxThreadCount)) history machine) :
    calls history <+: pushes history ∧
      (machine.pool.queueCount = 0 → pending? (place machine) = none →
        calls history = pushes history) := by
  obtain ⟨observed, system, matched, related⟩ := run_related run
  obtain ⟨waiting, holds⟩ := Deliveries.run_queue_holds matched
  have delivered := Deliveries.delivered_of_queue_holds holds
  rw [← related.pushes, ← related.calls]
  refine ⟨delivered.fifo, ?_⟩
  intro empty done
  apply delivered.drained
  rw [related.refines.pool, done]
  exact empty

theorem executed_once_in_order : calls executedHistory = [0] ∧ pushes executedHistory = [0] := by
  have order := (@calls_follow_pushes (fun _ _ _ => True) 1 executedHistory executedOnce
    (run_executed_once (fun _ _ _ _ => trivial) (fun _ _ _ => trivial) fun _ _ _ => trivial)).2 rfl
      rfl
  have once : pushes executedHistory = [0] := rfl
  rw [order]
  exact ⟨once, once⟩

end Sysprog.Threads.AccessRefinement
