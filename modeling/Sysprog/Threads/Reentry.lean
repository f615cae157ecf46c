import Sysprog.Threads.LockSteps

/-!
# Tasks that push

`process_task` calls the function of a task between its lock and its unlock,
so a function that pushes into its own pool waits for the mutex its worker
holds, and nothing releases it any more. As long as no function does, whoever
holds the lock comes to its end.
-/

namespace Sysprog.Threads.Reentry

open CheckedRuns Mutex LockSteps
open AccessInvariants (Holds holds_new holds_front holds_pushed holds_took)
open Pool (ThreadPool Worker threadPoolNew newPool pushTask queueFront tpoolMaxTasks)

set_option autoImplicit false

variable {Value : Type}

/-- Some order of steps gives the lock back. -/
def Releases (machine : Machine Value) : Prop :=
  ∃ history later, Run perform (fun _ _ _ => True) machine history later ∧ later.holder = none

/-- The holder of the lock does not wait for it, and can come to release it. -/
structure Safe (machine : Machine Value) : Prop where
  apart : ∀ thread, machine.holder = some thread → (machine.places thread).behindLock = none
  released : ∀ thread, machine.holder = some thread → Releases machine

/-- No task's function gets past the first check of `thread_pool_push_task`,
and no push takes the lock to store behind the end of the queue. -/
def StaysOut (machine : Machine Value) : Step Value → Prop
  | .push thread (some _) =>
      (machine.places thread).Calls → machine.pool.threadCount + 1 = tpoolMaxTasks
  | .lock thread => ∀ task, machine.places thread = .client (some (.waiting task)) →
      machine.pool.queueTail < tpoolMaxTasks
  | _ => True

def Stuck (pool : ThreadPool Nat) : Place → Prop
  | .calling _ _ (some (.waiting _)) => True
  | .client (some (.storing _)) => ¬ pool.queueTail.toNat < pool.queue.length
  | _ => False

def Blocked (machine : Machine Value) (thread : Thread) : Prop :=
  machine.holder = some thread ∧ Stuck machine.pool (machine.places thread)

section Blocked

variable {machine next : Machine Value} {thread : Thread} {step : Step Value} {report : Report}

/-- Only the holder could do something inside, and it is stuck. -/
theorem stuck_inside (excluded : Excluded machine) (blocked : Blocked machine thread)
    {actor : Thread} (inside : (machine.places actor).Inside) :
    Stuck machine.pool (machine.places actor) := by
  rw [holder_unique excluded.exclusive blocked.1 inside]
  exact blocked.2

theorem stuck_other_iff {pool after : ThreadPool Nat} {places : Thread → Place} {actor : Thread}
    {place : Place} (other : thread ≠ actor) (queue : after.queue = pool.queue)
    (tail : after.queueTail = pool.queueTail) :
    Stuck after (Function.update places actor place thread) ↔ Stuck pool (places thread) := by
  rw [Function.update_of_ne other]
  cases places thread <;> simp only [Stuck, queue, tail]

theorem stuck_elsewhere {pool after : ThreadPool Nat} {places : Thread → Place} {actor : Thread}
    {place : Place} (stuck : Stuck pool (places thread)) (free : ¬ Stuck pool (places actor))
    (queue : after.queue = pool.queue) (tail : after.queueTail = pool.queueTail) :
    Stuck after (Function.update places actor place thread) := by
  have other : thread ≠ actor := by
    intro same
    rw [same] at stuck
    exact free stuck
  exact (stuck_other_iff other queue tail).mpr stuck

theorem blocked_step (excluded : Excluded machine) (blocked : Blocked machine thread)
    (effect : Effect machine step report next) : Blocked next thread := by
  have inside := fun actor => @stuck_inside _ _ _ excluded blocked actor
  obtain ⟨held, stuck⟩ := blocked
  cases effect with
  | created place =>
      refine ⟨held, stuck_elsewhere stuck ?_ rfl rfl⟩
      rw [place]
      exact id
  | refused full => exact ⟨held, stuck⟩
  | comes place fits =>
      refine ⟨held, stuck_elsewhere stuck ?_ rfl rfl⟩
      rcases push_cases place with client | ⟨worker, called, calling⟩
      · rw [client]
        exact id
      · rw [calling]
        exact id
  | locks free waits =>
      rw [free] at held
      cases held
  | @stores actor task place room =>
      have stuckStore := inside actor
      rcases push_cases place with client | ⟨worker, called, calling⟩
      · rw [client] at stuckStore
        exact absurd room.2 (stuckStore trivial)
      · exact absurd calling (excluded.outer _ _ _ _)
  | @takes actor worker task place nonempty front =>
      have stuckTake := inside actor
      rw [place] at stuckTake
      exact (stuckTake trivial).elim
  | @idles actor worker place empty =>
      have stuckTake := inside actor
      rw [place] at stuckTake
      exact (stuckTake trivial).elim
  | @returns actor worker task returned place =>
      have stuckReturn := inside actor
      rw [place] at stuckReturn
      exact (stuckReturn trivial).elim
  | @unlocks actor worker place =>
      have stuckUnlock := inside actor
      rw [place] at stuckUnlock
      exact (stuckUnlock trivial).elim

theorem blocked_forever {later : Machine Value} {history : History Value}
    (excluded : Excluded machine) (blocked : Blocked machine thread)
    (run : Run perform (fun _ _ _ => True) machine history later) : Blocked later thread := by
  have both : Excluded later ∧ Blocked later thread := by
    refine run_invariant (fun _ machine => Excluded machine ∧ Blocked machine thread)
      ⟨excluded, blocked⟩ ?_ run
    intro history before step report after kept _ performed
    have effect := perform_effect performed
    exact ⟨excluded_step kept.1 effect, blocked_step kept.1 kept.2 effect⟩
  exact both.2

end Blocked

/-! ## The way out -/

section Release

variable {machine next : Machine Value} {thread : Thread} {step : Step Value} {report : Report}
  {worker : Worker} {task : Nat}

theorem releases_first (performed : perform machine step = .ok (report, next))
    (rest : Releases next) : Releases machine := by
  obtain ⟨history, later, run, free⟩ := rest
  exact ⟨_, later, run_cons trivial performed run, free⟩

theorem releases_free (free : machine.holder = none) : Releases machine :=
  ⟨[], machine, .start, free⟩

theorem unlocking_releases (place : machine.places thread = .unlocking worker) :
    Releases machine := by
  have performed : perform machine (.unlock thread) = .ok (.silent,
      { machine.at thread (.atLock (Pool.countIteration worker)) with holder := none }) := by
    simp only [perform, unlockStep, place]
  exact releases_first performed (releases_free rfl)

theorem calling_releases (place : machine.places thread = .calling worker task none) :
    Releases machine := by
  have performed : perform machine (.finish thread none) = .ok (.silent,
      { machine.at thread (.unlocking worker) with
        tasks := Function.update machine.tasks task ⟨none, true, false⟩ }) := by
    simp only [perform, finishStep, place]
  exact releases_first performed (unlocking_releases (Function.update_self _ _ _))

theorem take_completes {waiting : List Nat} (queued : Holds machine.pool waiting)
    (place : machine.places thread = .locked worker) :
    ∃ next, perform machine (.take thread) = .ok (.silent, next) := by
  by_cases nonempty : 0 < machine.pool.queueCount
  · obtain ⟨task, front⟩ := holds_front queued nonempty
    simp only [perform, takeStep, place, if_pos nonempty, front, ok_bind]
    exact ⟨_, rfl⟩
  · simp only [perform, takeStep, place, if_neg nonempty]
    exact ⟨_, rfl⟩

theorem locked_releases {waiting : List Nat} (queued : Holds machine.pool waiting)
    (place : machine.places thread = .locked worker) : Releases machine := by
  obtain ⟨next, performed⟩ := take_completes queued place
  refine releases_first performed ?_
  cases perform_effect performed with
  | takes there nonempty front => exact calling_releases (Function.update_self _ _ _)
  | idles there empty => exact unlocking_releases (Function.update_self _ _ _)

theorem store_completes {waiting : List Nat} (queued : Holds machine.pool waiting)
    (place : machine.places thread = .client (some (.storing task)))
    (room : machine.pool.queueTail.toNat < machine.pool.queue.length) :
    ∃ next, perform machine (.store thread) = .ok (.silent, next) := by
  have nonneg : 0 ≤ machine.pool.queueTail := by
    have head := queued.head
    have tail := queued.tail
    omega
  simp only [perform, storeStep, place, Place.push?, pushTask, if_pos (And.intro nonneg room),
    ok_bind]
  exact ⟨_, rfl⟩

theorem storing_releases {waiting : List Nat} (queued : Holds machine.pool waiting)
    (place : machine.places thread = .client (some (.storing task)))
    (room : machine.pool.queueTail.toNat < machine.pool.queue.length) : Releases machine := by
  obtain ⟨next, performed⟩ := store_completes queued place room
  refine releases_first performed ?_
  cases perform_effect performed with
  | stores there inside => exact releases_free rfl

end Release

/-- Whoever holds the lock gets out unless it is stuck. -/
theorem safe_iff {machine : Machine Value} {waiting : List Nat} (excluded : Excluded machine)
    (queued : Holds machine.pool waiting) :
    Safe machine ↔ ∀ thread, ¬ Blocked machine thread := by
  constructor
  · intro safe thread blocked
    obtain ⟨history, later, run, free⟩ := safe.released thread blocked.1
    have held := (blocked_forever excluded blocked run).1
    rw [free] at held
    cases held
  · intro unblocked
    have places : ∀ thread, machine.holder = some thread →
        (machine.places thread).Inside ∧ ¬ Stuck machine.pool (machine.places thread) := by
      intro thread held
      exact ⟨(excluded.exclusive thread).mpr held, fun stuck => unblocked thread ⟨held, stuck⟩⟩
    constructor
    · intro thread held
      obtain ⟨inside, free⟩ := places thread held
      cases waits : (machine.places thread).behindLock with
      | none => rfl
      | some behind =>
          rcases behind_lock_cases waits with ⟨task, here, _⟩ | ⟨worker, here, _⟩ | inner
          · rw [here] at inside
            exact inside.elim
          · rw [here] at inside
            exact inside.elim
          · obtain ⟨worker, task, pushed, here, _⟩ := inner
            rw [here] at free
            exact absurd trivial free
    · intro thread held
      obtain ⟨inside, free⟩ := places thread held
      cases here : machine.places thread with
      | absent =>
          rw [here] at inside
          exact inside.elim
      | client push =>
          rw [here] at inside free
          match push with
          | some (.storing task) => exact storing_releases queued here (not_not.mp free)
          | some (.waiting task) => exact inside.elim
          | none => exact inside.elim
      | atLock worker =>
          rw [here] at inside
          exact inside.elim
      | locked worker => exact locked_releases queued here
      | calling worker task push =>
          rw [here] at free
          match push with
          | none => exact calling_releases here
          | some (.waiting pushed) => exact absurd trivial free
          | some (.storing pushed) => exact absurd here (excluded.outer _ _ _ _)
      | unlocking worker => exact unlocking_releases here

/-! ## Runs -/

section Steps

variable {machine next : Machine Value} {step : Step Value} {report : Report}

theorem holds_step {waiting : List Nat} (queued : Holds machine.pool waiting)
    (effect : Effect machine step report next) : ∃ waiting, Holds next.pool waiting := by
  cases effect with
  | created place =>
      exact ⟨waiting, queued.length, queued.head, queued.tail, queued.bound, queued.count,
        queued.cells⟩
  | @stores actor task place inside => exact ⟨waiting ++ [task], holds_pushed queued task inside⟩
  | takes place nonempty front =>
      obtain ⟨rest, _, shorter⟩ := holds_took queued nonempty front
      exact ⟨rest, shorter⟩
  | _ => exact ⟨waiting, queued⟩

theorem unblocked_of_free (free : machine.holder = none) : ∀ other, ¬ Blocked machine other := by
  intro other blocked
  have held := blocked.1
  rw [free] at held
  cases held

theorem unblocked_of_holder {thread : Thread} (held : machine.holder = some thread)
    (free : ¬ Stuck machine.pool (machine.places thread)) : ∀ other, ¬ Blocked machine other := by
  intro other blocked
  obtain ⟨alsoHeld, stuck⟩ := blocked
  rw [held] at alsoHeld
  rw [← Option.some.inj alsoHeld] at stuck
  exact free stuck

theorem unblocked_move {after : ThreadPool Nat} {actor : Thread} {place : Place}
    (unblocked : ∀ thread, ¬ Blocked machine thread) (free : ¬ Stuck after place)
    (queue : after.queue = machine.pool.queue) (tail : after.queueTail = machine.pool.queueTail)
    (other : Thread) : ¬ (machine.holder = some other ∧
      Stuck after (Function.update machine.places actor place other)) := by
  intro blocked
  obtain ⟨held, stuck⟩ := blocked
  by_cases moved : other = actor
  · rw [moved, Function.update_self] at stuck
    exact free stuck
  · exact unblocked other ⟨held, (stuck_other_iff moved queue tail).mp stuck⟩

theorem comes_unblocked_iff {thread : Thread} {task : Nat} (excluded : Excluded machine)
    (unblocked : ∀ thread, ¬ Blocked machine thread)
    (place : (machine.places thread).push? = some none)
    (fits : machine.pool.threadCount + 1 ≠ tpoolMaxTasks) :
    (∀ other, ¬ Blocked (machine.at thread
        ((machine.places thread).withPush (some (.waiting task)))) other) ↔
      StaysOut machine (.push thread (some task)) := by
  rcases push_cases place with client | ⟨worker, called, calling⟩
  · rw [client]
    constructor
    · intro _ calls
      rw [client] at calls
      exact calls.elim
    · exact fun _ => unblocked_move unblocked id rfl rfl
  · constructor
    · intro free
      have inside : (machine.places thread).Inside := by
        rw [calling]
        trivial
      refine absurd ⟨(excluded.exclusive thread).mp inside, ?_⟩ (free thread)
      rw [calling]
      rw [at_self]
      trivial
    · intro staysOut
      have calls : (machine.places thread).Calls := by
        rw [calling]
        trivial
      exact absurd (staysOut calls) fits

theorem locks_unblocked_iff {thread : Thread} {behind : Place} {waiting : List Nat}
    (excluded : Excluded machine) (queued : Holds machine.pool waiting)
    (free : machine.holder = none) (waits : (machine.places thread).behindLock = some behind) :
    (∀ other, ¬ Blocked { machine.at thread behind with holder := some thread } other) ↔
      StaysOut machine (.lock thread : Step Value) := by
  have length := queued.length
  have tail := queued.tail
  have head := queued.head
  rcases behind_lock_cases waits with ⟨task, client, rfl⟩ | ⟨worker, atLock, rfl⟩ | inner
  · constructor
    · intro unblocked other _
      by_contra full
      refine unblocked thread ⟨rfl, ?_⟩
      dsimp only [Machine.at]
      rw [Function.update_self]
      change ¬ machine.pool.queueTail.toNat < machine.pool.queue.length
      omega
    · intro staysOut
      have room := staysOut task client
      refine unblocked_of_holder rfl ?_
      dsimp only [Machine.at]
      rw [Function.update_self]
      change ¬ ¬ machine.pool.queueTail.toNat < machine.pool.queue.length
      omega
  · refine iff_of_true (unblocked_of_holder rfl ?_) ?_
    · dsimp only [Machine.at]
      rw [Function.update_self]
      exact id
    · intro task client
      rw [atLock] at client
      cases client
  · obtain ⟨worker, task, pushed, here, _⟩ := inner
    have exclusive := excluded.exclusive
    rw [free] at exclusive
    have outside : ¬ (machine.places thread).Inside := outside_of_free exclusive
    rw [here] at outside
    exact absurd trivial outside

/-- A step that stays out is all it takes not to get stuck. -/
theorem unblocked_iff {waiting : List Nat} (excluded : Excluded machine)
    (queued : Holds machine.pool waiting) (unblocked : ∀ thread, ¬ Blocked machine thread)
    (effect : Effect machine step report next) :
    (∀ thread, ¬ Blocked next thread) ↔ StaysOut machine step := by
  cases effect with
  | created place => exact iff_of_true (unblocked_move unblocked id rfl rfl) trivial
  | refused full => exact iff_of_true unblocked (fun _ => full)
  | comes place fits => exact comes_unblocked_iff excluded unblocked place fits
  | locks free waits => exact locks_unblocked_iff excluded queued free waits
  | stores place inside => exact iff_of_true (unblocked_of_free rfl) trivial
  | takes place nonempty front => exact iff_of_true (unblocked_move unblocked id rfl rfl) trivial
  | idles place empty => exact iff_of_true (unblocked_move unblocked id rfl rfl) trivial
  | returns place => exact iff_of_true (unblocked_move unblocked id rfl rfl) trivial
  | unlocks place => exact iff_of_true (unblocked_of_free rfl) trivial

structure Orderly (machine : Machine Value) : Prop where
  excluded : Excluded machine
  queued : ∃ waiting, Holds machine.pool waiting
  unblocked : ∀ thread, ¬ Blocked machine thread

theorem orderly_step (orderly : Orderly machine) (staysOut : StaysOut machine step)
    (effect : Effect machine step report next) : Orderly next := by
  obtain ⟨waiting, queued⟩ := orderly.queued
  exact ⟨excluded_step orderly.excluded effect, holds_step queued effect,
    (unblocked_iff orderly.excluded queued orderly.unblocked effect).mpr staysOut⟩

theorem run_orderly {maxThreadCount : Int} {pool : ThreadPool Nat} {history : History Value}
    (created : threadPoolNew Nat maxThreadCount = .ok pool)
    (run : Run perform (fun _ => StaysOut) (start pool) history machine) : Orderly machine := by
  obtain ⟨rfl, _⟩ := Deliveries.thread_pool_new_ok created
  refine run_invariant (fun _ machine => Orderly machine) ?_ ?_ run
  · exact ⟨excluded_start _, ⟨[], holds_new maxThreadCount⟩, unblocked_of_free rfl⟩
  · intro history before step report after orderly staysOut performed
    exact orderly_step orderly staysOut (perform_effect performed)

end Steps

/-- In every run in which no task's function comes to the lock and every push
finds a cell, the lock is never waited for by its holder and never held for
good; and from each state such a step, and no other, leads to such a state. -/
theorem lock_always_released {maxThreadCount : Int} {pool : ThreadPool Nat}
    {history : History Value} {machine : Machine Value}
    (created : threadPoolNew Nat maxThreadCount = .ok pool)
    (run : Run perform (fun _ => StaysOut) (start pool) history machine) :
    Safe machine ∧ ∀ step report next, perform machine step = .ok (report, next) →
      (Safe next ↔ StaysOut machine step) := by
  have orderly := run_orderly created run
  obtain ⟨waiting, queued⟩ := orderly.queued
  refine ⟨(safe_iff orderly.excluded queued).mpr orderly.unblocked, ?_⟩
  intro step report next performed
  have effect := perform_effect performed
  obtain ⟨after, held⟩ := holds_step queued effect
  rw [safe_iff (excluded_step orderly.excluded effect) held]
  exact unblocked_iff orderly.excluded queued orderly.unblocked effect

theorem client_locks : ∃ machine : Machine Nat,
    Run perform (fun _ => StaysOut) (start (newPool Nat 1))
      [⟨.create 0, .silent⟩, ⟨.push (.client 0) (some 7), .silent⟩, ⟨.lock (.client 0), .silent⟩]
      machine ∧
    machine.holder = some (.client 0) ∧
    machine.places (.client 0) = .client (some (.storing 7)) ∧
    machine.places (.worker 0) = .atLock ⟨0, false⟩ ∧
    machine.pool.queueTail = 0 ∧ machine.pool.queueCount = 0 ∧ machine.pool.threadCount = 1 := by
  have created : Run perform (fun _ => StaysOut) (start (newPool Nat 1) : Machine Nat)
      [⟨.create 0, .silent⟩] _ := .call .start trivial rfl
  have waiting := created.call (by exact fun calls => calls.elim)
    (rfl : perform _ (.push (.client 0) (some 7)) = .ok (.silent, _))
  have room : (0 : Int) < tpoolMaxTasks := by decide
  have locked := waiting.call (by exact fun _ _ => room)
    (rfl : perform _ (.lock (.client 0)) = .ok (.silent, _))
  exact ⟨_, locked, rfl, rfl, rfl, rfl, rfl, rfl⟩

theorem client_safe : ∃ (history : History Nat) (machine : Machine Nat),
    Run perform (fun _ => StaysOut) (start (newPool Nat 1)) history machine ∧
      machine.holder = some (.client 0) ∧ Safe machine := by
  obtain ⟨machine, run, held, _⟩ := client_locks
  exact ⟨_, machine, run, held, (lock_always_released (rfl : threadPoolNew Nat 1 = .ok _) run).1⟩

theorem lock_completes {machine : Machine Value} {thread : Thread} {behind : Place}
    (free : machine.holder = none) (waits : (machine.places thread).behindLock = some behind) :
    perform machine (.lock thread) =
      .ok (.silent, { machine.at thread behind with holder := some thread }) := by
  simp only [perform, lockStep, free, waits]

theorem store_leaves {machine next : Machine Value} {thread other : Thread} {report : Report}
    (effect : Effect machine (.store thread) report next) (apart : other ≠ thread) :
    next.holder = none ∧ next.places other = machine.places other ∧
      next.pool.queueCount = machine.pool.queueCount + 1 ∧
      next.pool.threadCount = machine.pool.threadCount := by
  cases effect with
  | stores place inside => exact ⟨rfl, Function.update_of_ne apart _ _, rfl, rfl⟩

theorem take_leaves {machine next : Machine Value} {thread : Thread} {worker : Worker}
    {report : Report} (effect : Effect machine (.take thread) report next)
    (place : machine.places thread = .locked worker) (waiting : 0 < machine.pool.queueCount) :
    next.holder = machine.holder ∧ next.pool.threadCount = machine.pool.threadCount ∧
      ∃ task, next.places thread = .calling worker task none := by
  cases effect with
  | @takes _ _ task there nonempty front =>
      rw [place] at there
      cases there
      exact ⟨rfl, rfl, task, Function.update_self _ _ _⟩
  | idles there empty => exact absurd waiting empty

theorem worker_calls : ∃ (machine : Machine Nat) (task : Nat),
    Run perform (fun _ => StaysOut) (start (newPool Nat 1))
      [⟨.create 0, .silent⟩, ⟨.push (.client 0) (some 7), .silent⟩, ⟨.lock (.client 0), .silent⟩,
        ⟨.store (.client 0), .silent⟩, ⟨.lock (.worker 0), .silent⟩, ⟨.take (.worker 0), .silent⟩]
      machine ∧
    machine.holder = some (.worker 0) ∧
    machine.places (.worker 0) = .calling ⟨0, false⟩ task none ∧
    machine.pool.threadCount = 1 := by
  have created : threadPoolNew Nat 1 = .ok (newPool Nat 1) := rfl
  obtain ⟨storing, run, _, place, atLock, tail, count, threads⟩ := client_locks
  obtain ⟨waiting, queued⟩ := (run_orderly created run).queued
  have room : storing.pool.queueTail.toNat < storing.pool.queue.length := by
    rw [tail, queued.length]
    decide
  obtain ⟨stored, store⟩ := store_completes queued place room
  obtain ⟨free, same, counted, more⟩ :=
    @store_leaves _ _ _ _ (.worker 0) _ (perform_effect store) nofun
  have there : stored.places (.worker 0) = .atLock ⟨0, false⟩ := same.trans atLock
  have waits : (stored.places (.worker 0)).behindLock = some (.locked ⟨0, false⟩) := by
    rw [there]
    rfl
  have notPush : ∀ task, stored.places (.worker 0) = .client (some (.waiting task)) →
      stored.pool.queueTail < tpoolMaxTasks := by
    intro task client
    rw [there] at client
    cases client
  have lockedRun := (run.call (by trivial) store).call (by exact notPush) (lock_completes free waits)
  obtain ⟨after, held⟩ := (run_orderly created lockedRun).queued
  have behind := at_self stored (.worker 0) (.locked ⟨0, false⟩)
  obtain ⟨taken, take⟩ := @take_completes _ _ (.worker 0) ⟨0, false⟩ _ held behind
  have nonempty : 0 < stored.pool.queueCount := by omega
  obtain ⟨holder, kept, task, calling⟩ := take_leaves (perform_effect take) behind nonempty
  exact ⟨taken, task, lockedRun.call (by trivial) take, holder, calling,
    kept.trans (more.trans threads)⟩

/-- The function pushes into its own pool: the worker waits for the lock it
holds, and holds it from there on. -/
theorem pushing_task_stuck : ∃ (history : History Nat) (machine : Machine Nat),
    Run perform (fun _ _ _ => True) (start (newPool Nat 1)) history machine ∧
      history.map Event.call = [.create 0, .push (.client 0) (some 7), .lock (.client 0),
        .store (.client 0), .lock (.worker 0), .take (.worker 0), .push (.worker 0) (some 8)] ∧
      machine.holder = some (.worker 0) ∧ (machine.places (.worker 0)).behindLock ≠ none ∧
      (∀ later after, Run perform (fun _ _ _ => True) machine later after →
        after.holder = some (.worker 0)) ∧
      ¬ Safe machine := by
  obtain ⟨machine, task, run, held, calling, threads⟩ := worker_calls
  have excluded := (run_orderly (rfl : threadPoolNew Nat 1 = .ok _) run).excluded
  have pushed : perform machine (.push (.worker 0) (some 8)) =
      .ok (.silent, machine.at (.worker 0) (.calling ⟨0, false⟩ task (some (.waiting 8)))) := by
    have fits : ¬ machine.pool.threadCount + 1 = tpoolMaxTasks := by
      rw [threads]
      decide
    simp only [perform, pushStep, calling, Place.push?, Pool.pushCheck, if_neg fits, ok_bind]
    rfl
  have there : (machine.at (.worker 0)
      (.calling ⟨0, false⟩ task (some (.waiting 8)))).places (.worker 0) =
        .calling ⟨0, false⟩ task (some (.waiting 8)) := at_self _ _ _
  have waits : ((machine.at (.worker 0)
      (.calling ⟨0, false⟩ task (some (.waiting 8)))).places (.worker 0)).behindLock ≠ none := by
    rw [there]
    exact Option.some_ne_none _
  have blocked : Blocked (machine.at (.worker 0)
      (.calling ⟨0, false⟩ task (some (.waiting 8)))) (.worker 0) := by
    refine ⟨held, ?_⟩
    rw [there]
    trivial
  have anyRun := run_weaken (fun _ _ _ _ => trivial) run
  refine ⟨_, _, anyRun.call trivial pushed, rfl, held, waits, ?_, ?_⟩
  · intro later after goesOn
    exact (blocked_forever (excluded_step excluded (perform_effect pushed)) blocked goesOn).1
  · intro safe
    exact waits (safe.apart _ held)

end Sysprog.Threads.Reentry
