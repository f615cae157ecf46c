import Sysprog.Threads.Pool

/-!
# When the critical sections complete

What it takes for a step of the pool to go through, for a model in which the
same critical section is several steps. There a worker has taken its task off
the queue before the iteration is over; `putBack` is the pool with such a
task at the front again.
-/

namespace Sysprog.Threads.Sections

open CheckedRuns
open Pool (ThreadPool ThreadTask Worker System Outcome countIteration tpoolMaxTasks
  pushCheck pushTask queueFront processTask)

set_option autoImplicit false

variable {Task Value : Type}

def putBack (taken : Option Task) (pool : ThreadPool Task) : ThreadPool Task :=
  match taken with
  | some _ => { pool with
      queueHead := pool.queueHead - 1
      queueCount := pool.queueCount + 1 }
  | none => pool

/-- The cell before the front is the task's. -/
def TakenFrom (pool : ThreadPool Task) (task : Task) : Prop :=
  1 ≤ pool.queueHead ∧ pool.queue[(pool.queueHead - 1).toNat]? = some (some task)

@[simp] theorem put_back_thread_count (taken : Option Task) (pool : ThreadPool Task) :
    (putBack taken pool).threadCount = pool.threadCount := by
  cases taken <;> rfl

/-- Another worker counts as well before a task is put back as after it. -/
theorem put_back_created (taken : Option Task) (pool : ThreadPool Task) :
    putBack taken { pool with threadCount := pool.threadCount + 1 } =
      { putBack taken pool with threadCount := (putBack taken pool).threadCount + 1 } := by
  cases taken <;> rfl

theorem put_back_taken (pool : ThreadPool Task) (task : Task) :
    putBack (some task) { pool with
      queueHead := pool.queueHead + 1
      queueCount := pool.queueCount - 1 } = pool := by
  simp [putBack]

theorem taken_from_front {pool : ThreadPool Task} {task : Task} (nonneg : 0 ≤ pool.queueHead)
    (front : pool.queue[pool.queueHead.toNat]? = some (some task)) :
    TakenFrom { pool with
      queueHead := pool.queueHead + 1
      queueCount := pool.queueCount - 1 } task := by
  refine ⟨by dsimp only; omega, ?_⟩
  dsimp only
  rw [Int.add_sub_cancel]
  exact front

variable [DecidableEq Task] {system : System Task Value} {pool : ThreadPool Task}

theorem push_completes {client : Nat} (task : Task) (free : system.clients client = none)
    (fits : system.pool.threadCount + 1 ≠ tpoolMaxTasks) :
    Pool.perform system (.push client (some task)) = .ok (.waiting, { system with
      clients := Function.update system.clients client (some task) }) := by
  have check : pushCheck system.pool (some task) = .ok (.inl task) := by
    rw [pushCheck, if_neg fits]
  simp only [Pool.perform, free, check, ok_bind]

theorem enqueue_completes {client : Nat} {task : Task}
    (pending : system.clients client = some task) (same : system.pool = pool)
    (inside : 0 ≤ pool.queueTail ∧ pool.queueTail.toNat < pool.queue.length) :
    Pool.perform system (.enqueue client) = .ok (.stored pool.queueTail task, { system with
      pool := { pool with
        queue := pool.queue.set pool.queueTail.toNat (some task)
        queueTail := pool.queueTail + 1
        queueCount := pool.queueCount + 1 }
      clients := Function.update system.clients client none }) := by
  simp only [Pool.perform, pending, same, pushTask, if_pos inside, ok_bind]

theorem idle_completes {worker : Nat} {thread : Worker} (returned : Option Value)
    (present : system.workers[worker]? = some thread) (runs : thread.exited = false)
    (empty : ¬ 0 < system.pool.queueCount) :
    Pool.perform system (.iterate worker returned) = .ok (.idle, { system with
      workers := system.workers.set worker (countIteration thread) }) := by
  simp only [Pool.perform, present, runs, Bool.false_eq_true, if_false, processTask,
    if_neg empty, ok_bind]

/-- An iteration whose task is off the queue already. -/
theorem iterate_completes {worker : Nat} {thread : Worker} {task : Task} (returned : Option Value)
    (present : system.workers[worker]? = some thread) (runs : thread.exited = false)
    (same : system.pool = putBack (some task) pool) (nonneg : 0 ≤ pool.queueCount)
    (taken : TakenFrom pool task) :
    Pool.perform system (.iterate worker returned) =
      .ok (.executed (pool.queueHead - 1) task, { system with
        pool := pool
        tasks := Function.update system.tasks task ⟨returned, true, false⟩
        workers := system.workers.set worker (countIteration thread) }) := by
  obtain ⟨head, front⟩ := taken
  have ahead : 0 ≤ pool.queueHead - 1 := by omega
  have nonempty : 0 < pool.queueCount + 1 := by omega
  have found : queueFront { pool with
      queueHead := pool.queueHead - 1
      queueCount := pool.queueCount + 1 } = .ok (some task) := by
    rw [queueFront, if_pos ahead]
    simp only [front]
  simp only [Pool.perform, present, runs, Bool.false_eq_true, if_false, processTask, same, putBack,
    if_pos nonempty, found, ok_bind, Int.sub_add_cancel, Int.add_sub_cancel]

end Sysprog.Threads.Sections
