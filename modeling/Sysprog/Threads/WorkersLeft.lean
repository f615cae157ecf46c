import Sysprog.Threads.QueueBounds

/-!
# Workers for waiting tasks

A worker exits after `lastIteration` iterations of its loop, whether they
executed anything or not, and `thread_pool_push_task` does not ask who is
left. Waiting tasks keep a worker as long as none is pushed behind the last
exit and the last worker does not leave any behind.
-/

namespace Sysprog.Threads.WorkersLeft

open CheckedRuns Pool Deliveries QueueBounds

set_option autoImplicit false

variable {Task Value : Type} [DecidableEq Task]

def Started (system : System Task Value) : Prop :=
  system.pool.threadCount = system.pool.threadsSize

def SomeoneLeft (workers : List Worker) : Prop :=
  ∃ (worker : Nat) (thread : Worker), workers[worker]? = some thread ∧ thread.exited = false

/-- Where tasks wait in a started pool, a worker is there to take them. -/
def WorkHasWorker (system : System Task Value) : Prop :=
  Started system → 0 < system.pool.queueCount → SomeoneLeft system.workers

/-- Someone is left when this worker comes to the end of its iteration. -/
def SomeoneStays (workers : List Worker) (worker : Nat) : Prop :=
  ∃ (other : Nat) (thread : Worker), workers[other]? = some thread ∧ thread.exited = false ∧
    (other = worker → thread.counter + 1 ≠ lastIteration)

/-- Into a started pool a task is pushed only while a worker is left, and the
last worker has its last iteration only when at most one task waits. -/
def KeepsWorker (system : System Task Value) : Action Task Value → Prop
  | .enqueue _ => Started system → SomeoneLeft system.workers
  | .iterate worker _ => Started system → 1 < system.pool.queueCount →
      SomeoneStays system.workers worker
  | _ => True

def LeavesWorker (history : History Task Value) (system : System Task Value)
    (action : Action Task Value) : Prop :=
  StartedByExecute history system action ∧ KeepsWorker system action

theorem iterated {system next : System Task Value} {worker : Nat} {returned : Option Value}
    {outcome : Outcome Task}
    (performed : perform system (.iterate worker returned) = .ok (outcome, next)) :
    (Started next ↔ Started system) ∧
      (0 < next.pool.queueCount ↔ 1 < system.pool.queueCount) ∧
      ∃ thread, system.workers[worker]? = some thread ∧ thread.exited = false ∧
        next.workers = system.workers.set worker (countIteration thread) := by
  have effect := perform_effect performed
  have workers : ∃ thread, system.workers[worker]? = some thread ∧ thread.exited = false ∧
      next.workers = system.workers.set worker (countIteration thread) := by
    unfold perform at performed
    cases present : system.workers[worker]? with
    | none => simp [present] at performed
    | some thread =>
        simp only [present] at performed
        split_ifs at performed with exited
        obtain ⟨⟨result, pool, tasks⟩, _, rest⟩ := bind_eq_ok.mp performed
        cases rest
        exact ⟨thread, rfl, by simpa using exited, rfl⟩
  refine ⟨?_, ?_, workers⟩
  · cases effect with
    | executed nonempty nonneg front => exact Iff.rfl
    | idle empty => exact Iff.rfl
  · cases effect with
    | executed nonempty nonneg front =>
        dsimp only
        omega
    | idle empty =>
        dsimp only
        omega

omit [DecidableEq Task] in
theorem left_iff_stays {workers : List Worker} {worker : Nat} {thread : Worker}
    (present : workers[worker]? = some thread) (runs : thread.exited = false) :
    SomeoneLeft (workers.set worker (countIteration thread)) ↔ SomeoneStays workers worker := by
  obtain ⟨inside, _⟩ := List.getElem?_eq_some_iff.mp present
  constructor
  · intro left
    obtain ⟨other, found, there, live⟩ := left
    by_cases same : other = worker
    · rw [same, List.getElem?_set_self inside] at there
      cases there
      have notLast : thread.counter + 1 ≠ lastIteration := by
        simpa [countIteration] using live
      exact ⟨worker, thread, present, runs, fun _ => notLast⟩
    · rw [List.getElem?_set_ne (Ne.symm same)] at there
      exact ⟨other, found, there, live, fun equal => absurd equal same⟩
  · intro stays
    obtain ⟨other, found, there, live, more⟩ := stays
    by_cases same : other = worker
    · rw [same, present] at there
      cases there
      refine ⟨worker, countIteration thread, List.getElem?_set_self inside, ?_⟩
      simpa [countIteration] using more same
    · exact ⟨other, found, (List.getElem?_set_ne (Ne.symm same)).trans there, live⟩

/-- The pool keeps a worker over a step exactly when the step keeps one. -/
theorem has_worker_iff {system next : System Task Value} {action : Action Task Value}
    {outcome : Outcome Task} (counted : 0 ≤ system.pool.queueCount)
    (served : WorkHasWorker system) (performed : perform system action = .ok (outcome, next)) :
    WorkHasWorker next ↔ KeepsWorker system action := by
  have effect := perform_effect performed
  cases action with
  | create =>
      cases effect with
      | created =>
          have newcomer : (system.workers ++ [⟨0, false⟩])[system.workers.length]? =
              some ⟨0, false⟩ := List.getElem?_concat_length
          constructor
          · exact fun _ => trivial
          · exact fun _ _ _ => ⟨system.workers.length, ⟨0, false⟩, newcomer, rfl⟩
  | push client task =>
      cases effect with
      | refused full =>
          constructor
          · exact fun _ => trivial
          · exact fun _ => served
      | waiting fits =>
          constructor
          · exact fun _ => trivial
          · exact fun _ => served
  | enqueue client =>
      cases effect with
      | stored pending inside =>
          have waits : 0 < system.pool.queueCount + 1 := by omega
          constructor
          · intro after started
            exact after started waits
          · intro keeps started _
            exact keeps started
  | iterate worker returned =>
      obtain ⟨started, counts, thread, present, runs, workers⟩ := iterated performed
      unfold WorkHasWorker KeepsWorker
      rw [started, counts, workers, left_iff_stays present runs]

theorem run_has_worker {maxThreadCount : Int} {pool : ThreadPool Task}
    {history : History Task Value} {system : System Task Value}
    (created : threadPoolNew Task maxThreadCount = .ok pool)
    (run : Run perform LeavesWorker (start pool) history system) :
    WorkHasWorker system ∧ 0 ≤ system.pool.queueCount := by
  obtain ⟨rfl, _⟩ := thread_pool_new_ok created
  induction run with
  | start =>
      constructor
      · intro _ waits
        cases waits
      · exact Int.le_refl 0
  | call prior permitted performed ih =>
      obtain ⟨waiting, holds⟩ := run_queue_holds (prior.call permitted performed)
      constructor
      · exact (has_worker_iff ih.2 ih.1 performed).mpr permitted.2
      · have count := holds.count
        have ordered := (delivered_of_queue_holds holds).ordered
        omega

/-- In every run that leaves a worker with each step, waiting tasks have one;
and from each of its states exactly such a step leads to such a state. -/
theorem work_has_worker {maxThreadCount : Int} {pool : ThreadPool Task}
    {history : History Task Value} {system : System Task Value}
    (created : threadPoolNew Task maxThreadCount = .ok pool)
    (run : Run perform LeavesWorker (start pool) history system) :
    WorkHasWorker system ∧ ∀ action outcome next, perform system action = .ok (outcome, next) →
      (WorkHasWorker next ↔ KeepsWorker system action) := by
  obtain ⟨served, counted⟩ := run_has_worker created run
  refine ⟨served, ?_⟩
  intro action outcome next performed
  exact has_worker_iff counted served performed

theorem created_first {allowed : History Nat Nat → System Nat Nat → Pool.Action Nat Nat → Prop}
    (permitted : allowed [] (start (newPool Nat 1)) .create) :
    Run perform allowed (start (newPool Nat 1)) [⟨.create, .created⟩]
      { start (newPool Nat 1) with
        pool := { newPool Nat 1 with threadCount := 1 }
        workers := [⟨0, false⟩] } :=
  .call .start permitted rfl

theorem first_created : StartedByExecute [] (start (newPool Nat 1) : System Nat Nat) .create := by
  change (0 : Int) < 1
  decide

/-- A started pool of one worker in which a task waits. -/
theorem first_push_has_worker :
    ∃ (history : History Nat Nat) (system : System Nat Nat),
      Run perform LeavesWorker (start (newPool Nat 1)) history system ∧
        Started system ∧ 0 < system.pool.queueCount ∧ WorkHasWorker system := by
  have workers := @created_first LeavesWorker ⟨first_created, trivial⟩
  have pending := workers.call ⟨by trivial, by trivial⟩
    (rfl : perform _ (.push 0 (some 7)) = .ok (.waiting, _))
  obtain ⟨waiting, holds⟩ := run_queue_holds pending
  obtain ⟨next, stored⟩ := @enqueue_completes _ _ _ _ _ _ 0 7 holds rfl (by decide)
  have left : SomeoneLeft [⟨0, false⟩] := ⟨0, ⟨0, false⟩, rfl, rfl⟩
  have pushed : Run perform LeavesWorker _ (_ ++ [⟨.enqueue 0, .stored _ 7⟩]) next :=
    pending.call ⟨by trivial, fun _ => left⟩ stored
  have served := (work_has_worker (rfl : threadPoolNew Nat 1 = .ok _) pushed).1
  cases perform_effect stored with
  | stored waits inside => exact ⟨_, _, pushed, rfl, by decide, served⟩

def idledFor (count : Nat) : System Nat Nat :=
  { start (newPool Nat 1) with
    pool := { newPool Nat 1 with threadCount := 1 }
    workers := [⟨count, count = lastIteration⟩] }

theorem idles {count : Nat} (more : count < lastIteration) :
    perform (idledFor count) (.iterate 0 none) = .ok (.idle, idledFor (count + 1)) := by
  have runs : decide (count = lastIteration) = false := decide_eq_false (Nat.ne_of_lt more)
  have present : (idledFor count).workers[0]? = some ⟨count, false⟩ := by
    rw [← runs]
    rfl
  have empty : ¬ 0 < (idledFor count).pool.queueCount := Int.lt_irrefl 0
  simp only [perform, present, processTask, if_neg empty]
  rfl

theorem idled_reachable (count : Nat) (few : count ≤ lastIteration) :
    ∃ history, Run perform StartedByExecute (start (newPool Nat 1)) history (idledFor count) := by
  induction count with
  | zero => exact ⟨_, created_first first_created⟩
  | succ count ih =>
      obtain ⟨history, run⟩ := ih (Nat.le_of_succ_le few)
      exact ⟨_, run.call (by trivial) (idles few)⟩

/-- After `lastIteration` idle iterations the only worker is gone, and a task
pushed then waits for nobody. -/
theorem worker_gone :
    ∃ (history : History Nat Nat) (system : System Nat Nat),
      Run perform StartedByExecute (start (newPool Nat 1)) history system ∧
        Started system ∧ 0 < system.pool.queueCount ∧
        (∀ worker returned, perform system (.iterate worker returned) = .error .notEnabled) ∧
        ¬ WorkHasWorker system := by
  obtain ⟨history, idled⟩ := idled_reachable lastIteration (Nat.le_refl _)
  have pushing := idled.call (by trivial)
    (rfl : perform _ (.push 0 (some 7)) = .ok (.waiting, _))
  obtain ⟨waiting, holds⟩ := run_queue_holds pushing
  have noPushes : (pushed (history ++ [⟨.push 0 (some 7), .waiting⟩])).length < tpoolMaxTasks := by
    have tail := holds.tail
    have none : (0 : Int) = (pushed (history ++ [⟨.push 0 (some 7), .waiting⟩])).length := tail
    have positive : 0 < tpoolMaxTasks := by decide
    omega
  obtain ⟨next, stored⟩ := @enqueue_completes _ _ _ _ _ _ 0 7 holds rfl noPushes
  have pushed := pushing.call (by trivial) stored
  cases perform_effect stored with
  | stored waits inside =>
      have gone : ∀ (worker : Nat) (thread : Worker),
          (idledFor lastIteration).workers[worker]? = some thread → thread.exited = true := by
        intro worker thread present
        have only : thread ∈ (idledFor lastIteration).workers := List.mem_of_getElem? present
        rw [List.mem_singleton.mp only]
        exact decide_eq_true (Eq.refl lastIteration)
      refine ⟨_, _, pushed, rfl, by decide, ?_, ?_⟩
      · intro worker returned
        cases present : (idledFor lastIteration).workers[worker]? with
        | none => simp only [perform, present]
        | some thread => simp only [perform, present, gone worker thread present, if_true]
      · intro served
        obtain ⟨worker, thread, present, live⟩ := served rfl (by decide)
        rw [gone worker thread present] at live
        cases live

end Sysprog.Threads.WorkersLeft
