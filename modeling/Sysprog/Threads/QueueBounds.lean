import Sysprog.Threads.Deliveries

/-!
# The bounds of the queue

`thread_pool_push_task` compares the number of workers with
`TPOOL_MAX_TASKS`, never the number of waiting tasks, and `queue_tail` never
goes back to 0. So the queue takes exactly `TPOOL_MAX_TASKS` pushes over the
life of a pool, executed or not, and refuses none.
-/

namespace Sysprog.Threads.QueueBounds

open CheckedRuns ArrayQueue Pool Deliveries

set_option autoImplicit false

variable {Task Value : Type} [DecidableEq Task]

/-- `thread_task_execute` creates at most `threads_size` workers; with any
other number it frees the pool. -/
def StartedByExecute (_ : History Task Value) (system : System Task Value) :
    Action Task Value → Prop
  | .create => system.pool.threadCount < system.pool.threadsSize
  | _ => True

/-- What is asked of a step: a push is refused exactly when the queue is full
and otherwise stores inside it, and a worker reads inside it. -/
def StaysInside (system : System Task Value) : Action Task Value → Prop
  | .create => True
  | .push client task => ∃ outcome next,
      perform system (.push client task) = .ok (outcome, next) ∧ next.pool = system.pool ∧
        (outcome = .refused tpoolErrTooManyTasks ↔
          (waitingCells system.pool).length = tpoolMaxTasks)
  | .enqueue client => ∃ index task next,
      perform system (.enqueue client) = .ok (.stored index task, next) ∧
        system.clients client = some task ∧ 0 ≤ index ∧ index < system.pool.queueSize ∧
        next.pool.queue[index.toNat]? = some (some task)
  | .iterate worker returned => ∃ outcome next,
      perform system (.iterate worker returned) = .ok (outcome, next) ∧
        ∀ index task, outcome = .executed index task → 0 ≤ index ∧ index < system.pool.queueSize

/-- A push comes up while some cell is free of waiting tasks, and stores as
one of the first `TPOOL_MAX_TASKS` pushes of the pool. -/
def HasRoom (history : History Task Value) (system : System Task Value) :
    Action Task Value → Prop
  | .push _ _ => (waitingCells system.pool).length < tpoolMaxTasks
  | .enqueue _ => (pushed history).length < tpoolMaxTasks
  | _ => True

structure WorkersBounded (system : System Task Value) : Prop where
  created : system.pool.threadCount ≤ system.pool.threadsSize
  size : system.pool.threadsSize ≤ tpoolMaxThreads

theorem workers_bounded_step {history : History Task Value} {system next : System Task Value}
    {action : Action Task Value} {outcome : Outcome Task} (bounded : WorkersBounded system)
    (permitted : StartedByExecute history system action)
    (effect : Effect system action outcome next) : WorkersBounded next := by
  cases effect with
  | created =>
      have below : system.pool.threadCount < system.pool.threadsSize := permitted
      constructor
      · dsimp only
        omega
      · exact bounded.size
  | refused full => exact bounded
  | waiting fits => exact ⟨bounded.created, bounded.size⟩
  | stored pending inside => exact ⟨bounded.created, bounded.size⟩
  | executed nonempty nonneg front => exact ⟨bounded.created, bounded.size⟩
  | idle empty => exact ⟨bounded.created, bounded.size⟩

theorem run_workers_bounded {maxThreadCount : Int} {history : History Task Value}
    {system : System Task Value} (valid : 1 ≤ maxThreadCount ∧ maxThreadCount ≤ tpoolMaxThreads)
    (run : Run perform StartedByExecute (start (newPool Task maxThreadCount)) history system) :
    WorkersBounded system := by
  refine run_invariant (fun _ system => WorkersBounded system) ?_ ?_ run
  · constructor
    · have lower := valid.1
      change (0 : Int) ≤ maxThreadCount
      omega
    · exact valid.2
  · intro history before action outcome after bounded permitted performed
    exact workers_bounded_step bounded permitted (perform_effect performed)

omit [DecidableEq Task] in
theorem never_refused {system : System Task Value} (bounded : WorkersBounded system) :
    system.pool.threadCount + 1 ≠ tpoolMaxTasks := by
  have created := bounded.created
  have size := bounded.size
  unfold tpoolMaxThreads at size
  unfold tpoolMaxTasks
  omega

/-- No push is ever refused, whether the queue is full or not. -/
theorem push_inside_iff {system : System Task Value} {client : Nat} {task : Option Task}
    {history : History Task Value} {waiting : List Task} (bounded : WorkersBounded system)
    (holds : QueueHolds history system.pool waiting) (ready : Ready system (.push client task)) :
    StaysInside system (.push client task) ↔ HasRoom history system (.push client task) := by
  have few := never_refused bounded
  have delivered := delivered_of_queue_holds holds
  have notMore : (waitingCells system.pool).length ≤ tpoolMaxTasks := by
    have room := holds.room
    rw [delivered.waiting, List.length_map, List.length_drop]
    omega
  obtain ⟨outcome, next, performed⟩ := push_completes ready
  have accepted : outcome = .waiting ∧ next.pool = system.pool := by
    cases perform_effect performed with
    | refused full => exact absurd full few
    | waiting fits => exact ⟨rfl, rfl⟩
  constructor
  · intro inside
    obtain ⟨outcome', next', performed', _, refusedIff⟩ := inside
    rw [performed] at performed'
    cases performed'
    have notFull : (waitingCells system.pool).length ≠ tpoolMaxTasks := by
      intro full
      have refused := refusedIff.mpr full
      rw [accepted.1] at refused
      cases refused
    exact Nat.lt_of_le_of_ne notMore notFull
  · intro room
    refine ⟨outcome, next, performed, accepted.2, ?_⟩
    constructor
    · intro refused
      rw [accepted.1] at refused
      cases refused
    · intro full
      exact absurd full (Nat.ne_of_lt room)

/-- The store of a push is inside the queue for the first `TPOOL_MAX_TASKS`
pushes and outside for all later ones. -/
theorem enqueue_inside_iff {system : System Task Value} {client : Nat}
    {history : History Task Value} {waiting : List Task}
    (holds : QueueHolds history system.pool waiting) (ready : Ready system (.enqueue client)) :
    StaysInside system (.enqueue client) ↔ HasRoom history system (.enqueue client) := by
  have tail := holds.tail
  have size := holds.size
  constructor
  · intro inside
    obtain ⟨index, task, next, performed, _, _, _, _⟩ := inside
    change (pushed history).length < tpoolMaxTasks
    cases perform_effect performed with
    | stored pending inside =>
        have bound := inside.2
        rw [holds.length] at bound
        omega
  · intro room
    obtain ⟨task, pending⟩ := Option.ne_none_iff_exists'.mp ready
    have limit : (pushed history).length < tpoolMaxTasks := room
    obtain ⟨next, performed⟩ := enqueue_completes holds pending limit
    refine ⟨system.pool.queueTail, task, next, performed, pending, by omega, by omega, ?_⟩
    cases perform_effect performed with
    | stored _ inside => exact List.getElem?_set_self inside.2

theorem iterate_inside {system : System Task Value} {worker : Nat} {returned : Option Value}
    {history : History Task Value} {waiting : List Task}
    (holds : QueueHolds history system.pool waiting)
    (ready : Ready system (.iterate worker returned)) :
    StaysInside system (.iterate worker returned) := by
  obtain ⟨outcome, next, performed⟩ := iterate_completes holds ready
  refine ⟨outcome, next, performed, ?_⟩
  intro index task executedIs
  cases perform_effect performed with
  | executed nonempty nonneg front =>
      cases executedIs
      have ordered := (delivered_of_queue_holds holds).ordered
      have counted := holds.count
      omega
  | idle empty => cases executedIs

/-- In a run of any length, a step keeps to the bounds exactly when it finds
room: fewer than `TPOOL_MAX_TASKS` tasks waiting when a push comes up, and
fewer than that many pushes so far when it stores. -/
theorem stays_inside_iff_has_room {maxThreadCount : Int} {pool : ThreadPool Task}
    {history : History Task Value} {system : System Task Value}
    (created : threadPoolNew Task maxThreadCount = .ok pool)
    (run : Run perform StartedByExecute (start pool) history system) :
    ∀ action, Ready system action → (StaysInside system action ↔ HasRoom history system action) := by
  obtain ⟨rfl, valid⟩ := thread_pool_new_ok created
  have bounded := run_workers_bounded valid run
  obtain ⟨waiting, holds⟩ := run_queue_holds run
  intro action ready
  cases action with
  | create => exact Iff.rfl
  | push client task => exact push_inside_iff bounded holds ready
  | enqueue client => exact enqueue_inside_iff holds ready
  | iterate worker returned =>
      constructor
      · exact fun _ => trivial
      · exact fun _ => iterate_inside holds ready

theorem first_push_inside :
    ∃ (history : History Nat Nat) (system : System Nat Nat),
      Run perform StartedByExecute (start (newPool Nat 1)) history system ∧
        StaysInside system (.enqueue 0) := by
  have created : threadPoolNew Nat 1 = .ok (newPool Nat 1) := rfl
  have run : Run perform StartedByExecute (start (newPool Nat 1) : System Nat Nat)
      [⟨.push 0 (some 7), .waiting⟩] _ := .call .start trivial rfl
  refine ⟨_, _, run, ?_⟩
  apply (stays_inside_iff_has_room created run (.enqueue 0) ?_).mpr
  · change 0 < tpoolMaxTasks
    decide
  · change some 7 ≠ none
    decide

theorem pushes_reachable (count : Nat) (fits : count ≤ tpoolMaxTasks) :
    ∃ (history : History Nat Nat) (system : System Nat Nat),
      Run perform StartedByExecute (start (newPool Nat 1)) history system ∧
        (pushed history).length = count ∧ executed history = [] ∧ system.clients 0 = none := by
  induction count with
  | zero => exact ⟨[], _, .start, rfl, rfl, rfl⟩
  | succ count ih =>
      obtain ⟨history, system, run, pushes, noneExecuted, free⟩ := ih (by omega)
      have few := never_refused (run_workers_bounded (by decide) run)
      obtain ⟨outcome, middle, performed⟩ :=
        @push_completes Nat Nat _ system 0 (some 7) ⟨free, by decide⟩
      have waitingRun := run.call (by trivial) performed
      cases perform_effect performed with
      | refused full => exact absurd full few
      | waiting accepted =>
          obtain ⟨waiting, holds⟩ := run_queue_holds waitingRun
          have samePushed : (pushed (history ++
              [⟨.push 0 (some 7), .waiting⟩] : History Nat Nat)).length = count := by
            rw [pushed_snoc, List.length_append, pushes]
            rfl
          have pending : Function.update system.clients 0 (some 7) 0 = some 7 :=
            Function.update_self _ _ _
          obtain ⟨next, stored⟩ := @enqueue_completes _ _ _ _ _ _ 0 7 holds pending (by omega)
          refine ⟨_, next, waitingRun.call (by trivial) stored, ?_, ?_, ?_⟩
          · rw [pushed_snoc, List.length_append, samePushed]
            rfl
          · rw [executed_snoc, executed_snoc, noneExecuted]
            rfl
          · cases perform_effect stored with
            | stored pending inside => simp

/-- With 100000 tasks waiting a push is not refused, and its store falls
behind the end of the queue. -/
theorem full_queue_overrun :
    ∃ (history : History Nat Nat) (system next : System Nat Nat),
      Run perform StartedByExecute (start (newPool Nat 1)) history system ∧
        (waitingCells system.pool).length = tpoolMaxTasks ∧
        perform system (.push 0 (some 7)) = .ok (.waiting, next) ∧
        perform next (.enqueue 0) = .error .outOfRange := by
  obtain ⟨history, system, run, pushes, noneExecuted, free⟩ :=
    pushes_reachable tpoolMaxTasks (Nat.le_refl _)
  have few := never_refused (run_workers_bounded (by decide) run)
  obtain ⟨waiting, holds⟩ := run_queue_holds run
  obtain ⟨outcome, next, performed⟩ :=
    @push_completes Nat Nat _ system 0 (some 7) ⟨free, by decide⟩
  cases perform_effect performed with
  | refused full => exact absurd full few
  | waiting accepted =>
      refine ⟨history, system, _, run, ?_, performed, ?_⟩
      · rw [(delivered_of_queue_holds holds).waiting, List.length_map, List.length_drop, pushes,
          noneExecuted]
        rfl
      · have tail := holds.tail
        have outside : ¬ (0 ≤ system.pool.queueTail ∧
            system.pool.queueTail.toNat < system.pool.queue.length) := by
          rw [holds.length]
          omega
        simp only [perform, Function.update_self, pushTask, if_neg outside]
        rfl

end Sysprog.Threads.QueueBounds
