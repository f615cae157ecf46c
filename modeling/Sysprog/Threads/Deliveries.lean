import Sysprog.Threads.Pool
import Sysprog.Library.ArrayQueue

/-!
# Deliveries

The pool's cursors never go back, so a cell of the queue is stored once and
read once. Whatever the order of the critical sections, the cells between
the cursors are a first-in first-out queue of the tasks not executed yet.
-/

namespace Sysprog.Threads.Deliveries

open CheckedRuns ArrayQueue Pool

set_option autoImplicit false

variable {Task Value : Type}

def accessOf (event : Event (Action Task Value) (Outcome Task)) : Access Task :=
  match event.result with
  | .stored _ task => .insert task
  | .executed _ task => .remove task
  | _ => .none

def pushed (history : History Task Value) : List Task := inserted (history.map accessOf)

def executed (history : History Task Value) : List Task := removed (history.map accessOf)

theorem pushed_snoc (history : History Task Value)
    (event : Event (Action Task Value) (Outcome Task)) :
    pushed (history ++ [event]) = pushed history ++ (accessOf event).inserted?.toList := by
  simp [pushed]

theorem executed_snoc (history : History Task Value)
    (event : Event (Action Task Value) (Outcome Task)) :
    executed (history ++ [event]) = executed history ++ (accessOf event).removed?.toList := by
  simp [executed]

def waitingCells (pool : ThreadPool Task) : List (Option Task) :=
  segment pool.queue pool.queueHead.toNat pool.queueTail.toNat

/-- The queue refines a first-in first-out queue that holds `waiting`. -/
structure QueueHolds (history : History Task Value) (pool : ThreadPool Task)
    (waiting : List Task) : Prop where
  accesses : Accesses (history.map accessOf) waiting
  length : pool.queue.length = tpoolMaxTasks
  size : pool.queueSize = tpoolMaxTasks
  head : pool.queueHead = (executed history).length
  tail : pool.queueTail = (pushed history).length
  count : pool.queueCount = pool.queueTail - pool.queueHead
  room : (pushed history).length ≤ tpoolMaxTasks
  cells : segment pool.queue (executed history).length (pushed history).length = waiting.map some

theorem pushed_eq {history : History Task Value} {pool : ThreadPool Task} {waiting : List Task}
    (holds : QueueHolds history pool waiting) : pushed history = executed history ++ waiting :=
  inserted_eq_removed_append holds.accesses

theorem waiting_length {history : History Task Value} {pool : ThreadPool Task}
    {waiting : List Task} (holds : QueueHolds history pool waiting) :
    (pushed history).length = (executed history).length + waiting.length := by
  rw [pushed_eq holds, List.length_append]

theorem queue_holds_initial (maxThreadCount : Int) :
    QueueHolds ([] : History Task Value) (newPool Task maxThreadCount) [] := by
  constructor
  · exact .start
  · simp [newPool]
  · rfl
  · rfl
  · rfl
  · rfl
  · exact Nat.zero_le _
  · exact segment_self _ _

theorem queue_holds_same {history : History Task Value} {pool after : ThreadPool Task}
    {waiting : List Task} {event : Event (Action Task Value) (Outcome Task)}
    (holds : QueueHolds history pool waiting) (quiet : accessOf event = .none)
    (queue : after.queue = pool.queue) (size : after.queueSize = pool.queueSize)
    (head : after.queueHead = pool.queueHead) (tail : after.queueTail = pool.queueTail)
    (count : after.queueCount = pool.queueCount) :
    QueueHolds (history ++ [event]) after waiting := by
  have samePushed : pushed (history ++ [event]) = pushed history := by
    simp [pushed_snoc, quiet, Access.inserted?]
  have sameExecuted : executed (history ++ [event]) = executed history := by
    simp [executed_snoc, quiet, Access.removed?]
  constructor
  · rw [List.map_append, List.map_singleton, quiet]
    exact .step holds.accesses rfl
  · rw [queue, holds.length]
  · rw [size, holds.size]
  · rw [head, sameExecuted, holds.head]
  · rw [tail, samePushed, holds.tail]
  · rw [count, tail, head, holds.count]
  · rw [samePushed]
    exact holds.room
  · rw [queue, samePushed, sameExecuted]
    exact holds.cells

theorem queue_holds_stored {history : History Task Value} {pool after : ThreadPool Task}
    {waiting : List Task} {event : Event (Action Task Value) (Outcome Task)} {task : Task}
    (holds : QueueHolds history pool waiting) (stores : accessOf event = .insert task)
    (inside : pool.queueTail.toNat < pool.queue.length)
    (queue : after.queue = pool.queue.set pool.queueTail.toNat (some task))
    (size : after.queueSize = pool.queueSize) (head : after.queueHead = pool.queueHead)
    (tail : after.queueTail = pool.queueTail + 1)
    (count : after.queueCount = pool.queueCount + 1) :
    QueueHolds (history ++ [event]) after (waiting ++ [task]) := by
  have morePushed : pushed (history ++ [event]) = pushed history ++ [task] := by
    simp [pushed_snoc, stores, Access.inserted?]
  have sameExecuted : executed (history ++ [event]) = executed history := by
    simp [executed_snoc, stores, Access.removed?]
  have place : pool.queueTail.toNat = (pushed history).length := by
    rw [holds.tail, Int.toNat_natCast]
  have lengths := waiting_length holds
  have newLength : (pushed (history ++ [event])).length = (pushed history).length + 1 := by
    rw [morePushed, List.length_append, List.length_singleton]
  rw [place] at inside queue
  constructor
  · rw [List.map_append, List.map_singleton, stores]
    exact .step holds.accesses rfl
  · rw [queue, List.length_set, holds.length]
  · rw [size, holds.size]
  · rw [head, sameExecuted, holds.head]
  · rw [tail, newLength, holds.tail]
    push_cast
    rfl
  · rw [count, tail, head, holds.count]
    omega
  · rw [holds.length] at inside
    omega
  · rw [queue, newLength, sameExecuted, segment_store _ _ (by omega) inside, holds.cells,
      List.map_append, List.map_singleton]

theorem front_cell {history : History Task Value} {pool : ThreadPool Task} {waiting : List Task}
    (holds : QueueHolds history pool waiting) (nonempty : 0 < pool.queueCount) :
    ∃ task rest, waiting = task :: rest ∧
      pool.queue[pool.queueHead.toNat]? = some (some task) ∧
      segment pool.queue ((executed history).length + 1) (pushed history).length =
        rest.map some := by
  have head := holds.head
  have tail := holds.tail
  have counted := holds.count
  have before : (executed history).length < (pushed history).length := by omega
  have inside : (pushed history).length ≤ pool.queue.length := by
    rw [holds.length]
    exact holds.room
  have cells := holds.cells
  rw [segment_take _ before (Nat.lt_of_lt_of_le before inside)] at cells
  cases waiting with
  | nil => cases cells
  | cons task rest =>
      obtain ⟨first, others⟩ := List.cons.inj cells
      refine ⟨task, rest, rfl, ?_, others⟩
      rw [head, Int.toNat_natCast, List.getElem?_eq_getElem (Nat.lt_of_lt_of_le before inside), first]

theorem queue_holds_executed {history : History Task Value} {pool after : ThreadPool Task}
    {waiting : List Task} {event : Event (Action Task Value) (Outcome Task)} {task : Task}
    (holds : QueueHolds history pool waiting) (removes : accessOf event = .remove task)
    (nonempty : 0 < pool.queueCount)
    (front : pool.queue[pool.queueHead.toNat]? = some (some task))
    (queue : after.queue = pool.queue) (size : after.queueSize = pool.queueSize)
    (head : after.queueHead = pool.queueHead + 1) (tail : after.queueTail = pool.queueTail)
    (count : after.queueCount = pool.queueCount - 1) :
    ∃ rest, QueueHolds (history ++ [event]) after rest := by
  obtain ⟨first, rest, rfl, firstCell, cells⟩ := front_cell holds nonempty
  rw [front] at firstCell
  cases firstCell
  have samePushed : pushed (history ++ [event]) = pushed history := by
    simp [pushed_snoc, removes, Access.inserted?]
  have moreExecuted : executed (history ++ [event]) = executed history ++ [task] := by
    simp [executed_snoc, removes, Access.removed?]
  have newLength : (executed (history ++ [event])).length = (executed history).length + 1 := by
    rw [moreExecuted, List.length_append, List.length_singleton]
  refine ⟨rest, ?_⟩
  constructor
  · rw [List.map_append, List.map_singleton, removes]
    exact .step holds.accesses rfl
  · rw [queue, holds.length]
  · rw [size, holds.size]
  · rw [head, newLength, holds.head]
    push_cast
    rfl
  · rw [tail, samePushed, holds.tail]
  · rw [count, tail, head, holds.count]
    omega
  · rw [samePushed]
    exact holds.room
  · rw [queue, samePushed, newLength]
    exact cells

theorem thread_pool_new_ok {maxThreadCount : Int} {pool : ThreadPool Task}
    (created : threadPoolNew Task maxThreadCount = .ok pool) :
    pool = newPool Task maxThreadCount ∧
      1 ≤ maxThreadCount ∧ maxThreadCount ≤ tpoolMaxThreads := by
  unfold threadPoolNew at created
  split_ifs at created with invalid
  cases created
  exact ⟨rfl, by omega, by omega⟩

variable [DecidableEq Task]

theorem queue_holds_step {history : History Task Value} {system next : System Task Value}
    {action : Action Task Value} {outcome : Outcome Task}
    (held : ∃ waiting, QueueHolds history system.pool waiting)
    (effect : Effect system action outcome next) :
    ∃ waiting, QueueHolds (history ++ [⟨action, outcome⟩]) next.pool waiting := by
  obtain ⟨waiting, holds⟩ := held
  cases effect with
  | created => exact ⟨waiting, queue_holds_same holds rfl rfl rfl rfl rfl rfl⟩
  | refused full => exact ⟨waiting, queue_holds_same holds rfl rfl rfl rfl rfl rfl⟩
  | waiting fits => exact ⟨waiting, queue_holds_same holds rfl rfl rfl rfl rfl rfl⟩
  | stored pending inside =>
      exact ⟨_, queue_holds_stored holds rfl inside.2 rfl rfl rfl rfl rfl⟩
  | executed nonempty nonneg front =>
      exact queue_holds_executed holds rfl nonempty front rfl rfl rfl rfl rfl
  | idle empty => exact ⟨waiting, queue_holds_same holds rfl rfl rfl rfl rfl rfl⟩

/-- Over any run, whatever is assumed of the order of its steps. -/
theorem run_queue_holds {allowed : History Task Value → System Task Value → Action Task Value → Prop}
    {maxThreadCount : Int} {history : History Task Value} {system : System Task Value}
    (run : Run perform allowed (start (newPool Task maxThreadCount)) history system) :
    ∃ waiting, QueueHolds history system.pool waiting := by
  refine run_invariant (fun history system => ∃ waiting, QueueHolds history system.pool waiting)
    ?_ ?_ run
  · exact ⟨[], queue_holds_initial maxThreadCount⟩
  · intro history before action outcome after held _ performed
    exact queue_holds_step held (perform_effect performed)

/-- What is promised of the pool at every moment between critical sections. -/
structure Delivered (history : History Task Value) (pool : ThreadPool Task) : Prop where
  fifo : executed history <+: pushed history
  waiting : waitingCells pool = ((pushed history).drop (executed history).length).map some
  count : pool.queueCount = pool.queueTail - pool.queueHead
  ordered : 0 ≤ pool.queueHead ∧ pool.queueHead ≤ pool.queueTail ∧
    pool.queueTail ≤ pool.queueSize
  drained : pool.queueCount = 0 → executed history = pushed history

omit [DecidableEq Task] in
theorem delivered_of_queue_holds {history : History Task Value} {pool : ThreadPool Task}
    {waiting : List Task} (holds : QueueHolds history pool waiting) : Delivered history pool := by
  have split := pushed_eq holds
  have lengths := waiting_length holds
  have head := holds.head
  have tail := holds.tail
  constructor
  · exact ⟨waiting, split.symm⟩
  · rw [waitingCells, head, tail, Int.toNat_natCast, Int.toNat_natCast, holds.cells, split,
      List.drop_left]
  · exact holds.count
  · have room := holds.room
    have size := holds.size
    omega
  · intro empty
    have counted := holds.count
    have none : waiting.length = 0 := by omega
    rw [split, List.length_eq_zero_iff.mp none, List.append_nil]

def Ready (system : System Task Value) : Action Task Value → Prop
  | .create => True
  | .push client task => system.clients client = none ∧ task ≠ none
  | .enqueue client => system.clients client ≠ none
  | .iterate worker _ => ∃ thread, system.workers[worker]? = some thread ∧ thread.exited = false

/-- No more than `TPOOL_MAX_TASKS` tasks are pushed over the whole run. -/
def WithinLimit (history : History Task Value) (_ : System Task Value) :
    Action Task Value → Prop
  | .enqueue _ => (pushed history).length < tpoolMaxTasks
  | _ => True

instance (history : History Task Value) (system : System Task Value) :
    (action : Action Task Value) → Decidable (WithinLimit history system action)
  | .create => .isTrue trivial
  | .push _ _ => .isTrue trivial
  | .enqueue _ => inferInstanceAs (Decidable ((pushed history).length < tpoolMaxTasks))
  | .iterate _ _ => .isTrue trivial

theorem iterate_completes {history : History Task Value} {system : System Task Value}
    {waiting : List Task} {worker : Nat} {returned : Option Value}
    (holds : QueueHolds history system.pool waiting)
    (ready : Ready system (.iterate worker returned)) :
    ∃ outcome next, perform system (.iterate worker returned) = .ok (outcome, next) := by
  obtain ⟨thread, present, live⟩ := ready
  have processed : ∃ outcome pool tasks, processTask system.pool system.tasks returned =
      .ok (outcome, pool, tasks) := by
    unfold processTask
    by_cases nonempty : 0 < system.pool.queueCount
    · obtain ⟨task, rest, _, cell, _⟩ := front_cell holds nonempty
      have nonneg : 0 ≤ system.pool.queueHead := by
        have head := holds.head
        omega
      rw [if_pos nonempty, queueFront, if_pos nonneg, cell]
      exact ⟨_, _, _, rfl⟩
    · rw [if_neg nonempty]
      exact ⟨_, _, _, rfl⟩
  obtain ⟨outcome, pool, tasks, processed⟩ := processed
  simp only [perform, present, live]
  exact ⟨outcome, _, bind_eq_ok.mpr ⟨_, processed, rfl⟩⟩

theorem enqueue_completes {history : History Task Value} {system : System Task Value}
    {waiting : List Task} {client : Nat} {task : Task}
    (holds : QueueHolds history system.pool waiting)
    (pending : system.clients client = some task)
    (limit : (pushed history).length < tpoolMaxTasks) :
    ∃ next, perform system (.enqueue client) = .ok (.stored system.pool.queueTail task, next) := by
  have tail := holds.tail
  have inside : 0 ≤ system.pool.queueTail ∧
      system.pool.queueTail.toNat < system.pool.queue.length := by
    rw [holds.length]
    omega
  simp only [perform, pending, pushTask, if_pos inside]
  exact ⟨_, rfl⟩

theorem push_completes {system : System Task Value} {client : Nat} {task : Option Task}
    (ready : Ready system (.push client task)) :
    ∃ outcome next, perform system (.push client task) = .ok (outcome, next) := by
  obtain ⟨free, notNull⟩ := ready
  obtain ⟨task, rfl⟩ := Option.ne_none_iff_exists'.mp notNull
  simp only [perform, free, pushCheck]
  by_cases full : system.pool.threadCount + 1 = tpoolMaxTasks
  · rw [if_pos full]
    exact ⟨_, _, rfl⟩
  · rw [if_neg full]
    exact ⟨_, _, rfl⟩

/-- With at most `TPOOL_MAX_TASKS` pushes in total every task pushed is
executed once and in turn, by any workers and from any clients, and no step
fails. -/
theorem fifo_exactly_once {maxThreadCount : Int} {pool : ThreadPool Task}
    {history : History Task Value} {system : System Task Value}
    (created : threadPoolNew Task maxThreadCount = .ok pool)
    (run : Run perform WithinLimit (start pool) history system) :
    Delivered history system.pool ∧
      ∀ action, Ready system action → WithinLimit history system action →
        ∃ outcome next, perform system action = .ok (outcome, next) := by
  obtain ⟨rfl, _⟩ := thread_pool_new_ok created
  obtain ⟨waiting, holds⟩ := run_queue_holds run
  refine ⟨delivered_of_queue_holds holds, ?_⟩
  intro action ready limit
  cases action with
  | create => exact ⟨_, _, rfl⟩
  | push client task => exact push_completes ready
  | enqueue client =>
      obtain ⟨task, pending⟩ := Option.ne_none_iff_exists'.mp ready
      obtain ⟨next, performed⟩ := enqueue_completes holds pending limit
      exact ⟨_, next, performed⟩
  | iterate worker returned => exact iterate_completes holds ready

/-- Two clients come up to the lock, the second goes first, and two workers
execute the two tasks in the order of the lock. -/
theorem pushed_tasks_executed :
    ∃ (history : History Nat Nat) (system : System Nat Nat),
      Run perform WithinLimit (start (newPool Nat 2)) history system ∧
      history.map Event.call = [.create, .create, .push 0 (some 7), .push 1 (some 9), .enqueue 1,
        .enqueue 0, .iterate 1 (some 1), .iterate 0 (some 2)] ∧
      pushed history = [9, 7] ∧ executed history = [9, 7] ∧ Delivered history system.pool := by
  have created : threadPoolNew Nat 2 = .ok (newPool Nat 2) := rfl
  have ready : Run perform WithinLimit (start (newPool Nat 2) : System Nat Nat)
      [⟨.create, .created⟩, ⟨.create, .created⟩, ⟨.push 0 (some 7), .waiting⟩,
        ⟨.push 1 (some 9), .waiting⟩] _ :=
    .call (.call (.call (.call .start trivial rfl) trivial rfl) trivial rfl) trivial rfl
  obtain ⟨waiting, holds⟩ := run_queue_holds ready
  obtain ⟨next, stored⟩ := @enqueue_completes _ _ _ _ _ _ 1 9 holds rfl (by decide)
  have one := ready.call (by decide) stored
  obtain ⟨waiting, holds⟩ := run_queue_holds one
  cases perform_effect stored with
  | stored pending inside =>
  obtain ⟨next, stored⟩ := @enqueue_completes _ _ _ _ _ _ 0 7 holds rfl (by decide)
  have both := one.call (by decide) stored
  obtain ⟨waiting, holds⟩ := run_queue_holds both
  cases perform_effect stored with
  | stored pending inside =>
  obtain ⟨outcome, next, performed⟩ :=
    @iterate_completes _ _ _ _ _ _ 1 (some 1) holds ⟨_, rfl, rfl⟩
  have served := both.call (by trivial) performed
  obtain ⟨waiting, holds⟩ := run_queue_holds served
  cases perform_effect performed with
  | idle empty => exact absurd (by decide) empty
  | @executed _ thread _ first nonempty nonneg front =>
  obtain ⟨outcome, last, performed⟩ :=
    @iterate_completes _ _ _ _ _ _ 0 (some 2) holds ⟨_, rfl, rfl⟩
  have finished := served.call (by trivial) performed
  have delivered := (fifo_exactly_once created finished).1
  cases perform_effect performed with
  | idle empty => exact absurd (Int.one_pos : (0 : Int) < 1) empty
  | @executed _ thread _ second nonempty nonneg front =>
      have prefixIs : [first, second] <+: [9, 7] := delivered.fifo
      exact ⟨_, _, finished, rfl, rfl, List.IsPrefix.eq_of_length prefixIs rfl, delivered⟩

end Sysprog.Threads.Deliveries
