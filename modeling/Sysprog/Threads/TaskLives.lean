import Sysprog.Threads.AccessInvariants

/-!
# The life of one task

What concerns a single task is how often it waits, where the worker stands
that has it in hand, and its struct. Every step of the machine is a step of
this small machine for every task, and at most one step of a client's call.
-/

namespace Sysprog.Threads.TaskLives

open CheckedRuns Accesses AccessInvariants
open Pool (ThreadTask threadTaskNew)
open Deliveries (waitingCells)

set_option autoImplicit false

structure Life where
  waiting : Nat
  hand : Option Place
  cell : Option (ThreadTask Nat)

def handOf (place : Place) (task : Nat) : Option Place :=
  if place.task? = some task then some place else none

def lifeOf (machine : Machine) (task : Nat) : Life where
  waiting := (waitingCells machine.pool).count (some task)
  hand := handOf (place machine) task
  cell := machine.tasks.read task

def Life.Used (life : Life) : Prop := 0 < life.waiting ∨ life.hand ≠ none

/-- The pushes that are not executed to the end. -/
def Life.entries (life : Life) : Nat := life.waiting + if life.hand = none then 0 else 1

/-- A step in the life of a task. -/
inductive Lives (task : Nat) : Report → Life → Life → Prop where
  | other {report : Report} {life : Life} : Lives task report life life
  | made {life : Life} (new : life.cell = none) :
      Lives task (.made task) life { life with cell := some (threadTaskNew Nat) }
  | pushed {life : Life} : Lives task (.pushed task) life { life with waiting := life.waiting + 1 }
  | freed {life : Life} : Lives task (.freed task) life { life with cell := none }
  | took {life : Life} {waiting : Nat} (waits : life.waiting = waiting + 1)
      (free : life.hand = none) :
      Lives task .silent life { life with
        waiting := waiting
        hand := some (.taken task) }
  | executed {life : Life} {res : Option (Nat × Int)} (calling : life.hand = some (.calling task)) :
      Lives task (.executed task res) life { life with
        hand := some (.returned task (res.map Prod.fst)) }
  | accessed {life : Life} {before after : Place} {cell changed : ThreadTask Nat}
      (hand : life.hand = some before) (isTask : before.task? = some task)
      (present : life.cell = some cell) (access : Access cell before changed after) :
      Lives task .silent life { life with
        hand := handOf after task
        cell := some changed }

theorem used_iff (machine : Machine) (task : Nat) :
    (lifeOf machine task).Used ↔ InUse machine task := by
  unfold Life.Used InUse Waits lifeOf handOf
  dsimp only
  rw [List.count_pos_iff]
  by_cases busy : (place machine).task? = some task
  · simp [busy]
  · simp [busy]

theorem place_of_hand {place here : Place} {task : Nat} (hand : handOf place task = some here) :
    place = here ∧ place.task? = some task := by
  unfold handOf at hand
  split_ifs at hand with isTask
  exact ⟨Option.some.inj hand, isTask⟩

theorem hand_of_task {place : Place} {task other : Nat} (isTask : place.task? = some other) :
    handOf place task = if task = other then some place else none := by
  unfold handOf
  rw [isTask]
  by_cases same : task = other
  · rw [if_pos (congrArg some same.symm), if_pos same]
  · rw [if_neg fun equal => same (Option.some.inj equal).symm, if_neg same]

section Steps

variable {pushes : Nat → Nat} {executions : Nat → List (Option (Nat × Int))}
  {machine next : Machine} {step : Step} {report : Report}

theorem lives_same (task : Nat) (pool : waitingCells next.pool = waitingCells machine.pool)
    (samePlace : place next = place machine) (tasks : next.tasks = machine.tasks) :
    Lives task report (lifeOf machine task) (lifeOf next task) := by
  have same : lifeOf next task = lifeOf machine task := by
    rw [lifeOf, pool, samePlace, tasks, lifeOf]
  rw [same]
  exact .other

theorem lives_made (task : Nat) :
    Lives task (.made machine.tasks.next) (lifeOf machine task)
      (lifeOf { machine with tasks := machine.tasks.alloc (threadTaskNew Nat) } task) := by
  unfold lifeOf
  dsimp only
  by_cases new : task = machine.tasks.next
  · subst new
    rw [Heap.read_alloc_next]
    exact .made (Heap.read_of_next_le (Nat.le_refl _))
  · rw [Heap.read_alloc_of_ne _ new]
    exact .other

theorem lives_pushed (holds : Consistent pushes executions machine) {other : Nat}
    (clients : Nat → Within) (task : Nat)
    (inside : 0 ≤ machine.pool.queueTail ∧
      machine.pool.queueTail.toNat < machine.pool.queue.length) :
    Lives task (.pushed other) (lifeOf machine task) (lifeOf { machine with
      pool := { machine.pool with
        queue := machine.pool.queue.set machine.pool.queueTail.toNat (some other)
        queueTail := machine.pool.queueTail + 1
        queueCount := machine.pool.queueCount + 1 }
      clients } task) := by
  obtain ⟨waiting, queued, _⟩ := holds.queue
  have more := (holds_pushed queued other inside).cells
  rw [List.map_append, ← queued.cells] at more
  unfold lifeOf
  dsimp only
  rw [more, List.count_append, List.map_singleton, List.count_singleton]
  by_cases same : task = other
  · rw [same, beq_self_eq_true]
    exact .pushed
  · rw [beq_false_of_ne fun equal => same (Option.some.inj equal).symm]
    exact .other

theorem lives_took (holds : Consistent pushes executions machine) {worker other : Nat} (task : Nat)
    (unlocked : machine.critical = none) (nonempty : 0 < machine.pool.queueCount)
    (front : machine.pool.queue[machine.pool.queueHead.toNat]? = some (some other)) :
    Lives task .silent (lifeOf machine task) (lifeOf { machine with
      pool := { machine.pool with
        queueHead := machine.pool.queueHead + 1
        queueCount := machine.pool.queueCount - 1 }
      critical := some (worker, .taken other) } task) := by
  obtain ⟨waiting, queued, _⟩ := holds.queue
  obtain ⟨rest, rfl, shorter⟩ := holds_took queued nonempty front
  have before := queued.cells
  rw [List.map_cons, ← shorter.cells] at before
  have free : handOf (place machine) task = none := by
    rw [place, unlocked]
    rfl
  have busy : handOf (.taken other) task = if task = other then some (.taken other) else none :=
    hand_of_task rfl
  unfold lifeOf
  rw [before, List.count_cons, free]
  change Lives task _ _ ⟨_, handOf (.taken other) task, _⟩
  rw [busy]
  by_cases same : task = other
  · rw [if_pos same, same, beq_self_eq_true]
    exact .took rfl rfl
  · rw [if_neg same, beq_false_of_ne fun equal => same (Option.some.inj equal).symm]
    exact .other

theorem lives_executed {worker other : Nat} {results : Heap Int} (res : Option (Nat × Int))
    (task : Nat) (calling : machine.critical = some (worker, .calling other)) :
    Lives task (.executed other res) (lifeOf machine task) (lifeOf { machine with
      results
      critical := some (worker, .returned other (res.map Prod.fst)) } task) := by
  have before : handOf (place machine) task = if task = other then some (.calling other) else none := by
    rw [place_of_holds calling]
    exact hand_of_task rfl
  have after : handOf (.returned other (res.map Prod.fst)) task =
      if task = other then some (.returned other (res.map Prod.fst)) else none := hand_of_task rfl
  unfold lifeOf
  rw [before]
  change Lives task _ _ ⟨_, handOf (.returned other _) task, _⟩
  rw [after]
  by_cases same : task = other
  · rw [if_pos same, if_pos same, same]
    exact .executed rfl
  · rw [if_neg same, if_neg same]
    exact .other

theorem lives_accessed {worker other : Nat} {before after : Place} {cell changed : ThreadTask Nat}
    (task : Nat) (held : machine.critical = some (worker, before))
    (isTask : before.task? = some other) (present : machine.tasks.read other = some cell)
    (access : Access cell before changed after) :
    Lives task .silent (lifeOf machine task)
      (lifeOf ((machine.store other changed).holding worker after) task) := by
  have hand : handOf (place machine) task = if task = other then some before else none := by
    rw [place_of_holds held]
    exact hand_of_task isTask
  unfold lifeOf
  rw [hand]
  change Lives task _ _ ⟨_, handOf after task, (machine.tasks.write other changed).read task⟩
  by_cases same : task = other
  · rw [if_pos same, same, Heap.read_write_self _ (Heap.lt_next_of_read present), present]
    exact .accessed rfl isTask rfl access
  · have none : handOf after task = none := by
      unfold handOf
      apply if_neg
      intro equal
      cases access
      all_goals
        cases isTask
        cases equal
      all_goals exact same rfl
    rw [if_neg same, Heap.read_write_of_ne _ same, none]
    exact .other

/-- Every step of the machine is a step in the life of each task. -/
theorem step_lives (holds : Consistent pushes executions machine)
    (effect : Effect machine step report next) (task : Nat) :
    Lives task report (lifeOf machine task) (lifeOf next task) := by
  cases effect with
  | created alive => exact lives_same task rfl rfl rfl
  | made => exact lives_made task
  | poolFreed alive => exact lives_same task rfl rfl rfl
  | stays stays => exact .other
  | moved place moves => exact lives_same task rfl rfl rfl
  | pushed place alive unlocked inside => exact lives_pushed holds _ task inside
  | joinedNull place present ret => exact lives_same task rfl rfl rfl
  | joined place present ret result => exact lives_same task rfl rfl rfl
  | @freed client other cell place present =>
      unfold lifeOf
      change Lives task _ _ ⟨_, _, (machine.tasks.release other).read task⟩
      by_cases same : task = other
      · rw [same, Heap.read_release_self]
        exact .freed
      · rw [Heap.read_release_of_ne same]
        exact .other
  | took unlocked present runs alive nonempty nonneg front =>
      exact lives_took holds task unlocked nonempty front
  | idle unlocked present runs alive empty =>
      refine lives_same task rfl ?_ rfl
      rw [place, place, unlocked]
      rfl
  | executedNull calling present => exact lives_executed none task calling
  | executed calling present => exact lives_executed (some _) task calling
  | accessed held isTask present access => exact lives_accessed task held isTask present access
  | unlocked held alive present =>
      refine lives_same task rfl ?_ rfl
      rw [place, place, held]

/-! ## Clients -/

/-- A step in the call of one client. -/
inductive CallStep (machine : Machine) (client : Nat) (step : Step) (report : Report)
    (next : Machine) : Within → Within → Prop where
  | other {place : Within} : CallStep machine client step report next place place
  | moved {before after : Within} (moves : Moves machine client step report before after)
      (only : next = machine.at client after) :
      CallStep machine client step report next before after
  | pushed {task : Nat} (isPush : report = .pushed task) :
      CallStep machine client step report next (.pushing task) .outside
  | joined {task : Nat} {value : Int} (isJoin : report = .joined task value) :
      CallStep machine client step report next (.freeing task value) .outside
  | freed {task : Nat} (isFree : report = .freed task) :
      CallStep machine client step report next (.deleting task) .outside

theorem at_client (machine : Machine) (client other : Nat) (place : Within) :
    (machine.at client place).clients other =
      if other = client then place else machine.clients other := by
  unfold Machine.at
  by_cases same : other = client
  · rw [same, if_pos rfl]
    exact Function.update_self _ _ _
  · rw [if_neg same]
    exact Function.update_of_ne same _ _

theorem step_calls (effect : Effect machine step report next) (client : Nat) :
    CallStep machine client step report next (machine.clients client) (next.clients client) := by
  cases effect with
  | @moved actor step report before after place moves =>
      rw [at_client]
      by_cases same : client = actor
      · rw [if_pos same, same, place]
        exact .moved moves rfl
      · rw [if_neg same]
        exact .other
  | @pushed actor task place alive unlocked inside =>
      rw [at_client]
      by_cases same : client = actor
      · rw [if_pos same, same, place]
        exact .pushed rfl
      · rw [if_neg same]
        exact .other
  | @joinedNull actor task value cell place present ret =>
      rw [at_client]
      by_cases same : client = actor
      · rw [if_pos same, same, place]
        exact .joined rfl
      · rw [if_neg same]
        exact .other
  | @joined actor task address value cell place present ret stored result =>
      rw [at_client]
      by_cases same : client = actor
      · rw [if_pos same, same, place]
        exact .joined rfl
      · rw [if_neg same]
        exact .other
  | @freed actor task cell place present =>
      rw [at_client]
      by_cases same : client = actor
      · rw [if_pos same, same, place]
        exact .freed rfl
      · rw [if_neg same]
        exact .other
  | _ => exact .other

theorem to_reading_finished {client task : Nat} {before : Within}
    (call : CallStep machine client step report next before (.readingFinished task)) :
    before = .readingFinished task ∨
      (step = .join client (some task) ∧ next = machine.at client (.readingFinished task)) ∨
      (before = .readingRunning task ∧ next = machine.at client (.readingFinished task)) := by
  cases call with
  | other => exact .inl rfl
  | moved moves only =>
      cases moves with
      | joining => exact .inr (.inl ⟨rfl, only⟩)
      | sawRunning _ _ => exact .inr (.inr ⟨rfl, only⟩)

theorem to_reading_running {client task : Nat} {before : Within}
    (call : CallStep machine client step report next before (.readingRunning task)) :
    before = .readingRunning task ∨
      (before = .readingFinished task ∧ next = machine.at client (.readingRunning task) ∧
        ∃ cell, machine.tasks.read task = some cell ∧ cell.isFinished = true) := by
  cases call with
  | other => exact .inl rfl
  | moved moves only =>
      cases moves with
      | sawFinished present isFinished => exact .inr ⟨rfl, only, _, present, isFinished⟩

theorem to_copying {client task : Nat} {before : Within}
    (call : CallStep machine client step report next before (.copying task)) :
    before = .copying task ∨
      (before = .readingRunning task ∧ step = .advance client ∧ report = .waited task ∧
        next = machine.at client (.copying task) ∧
          ∃ cell, machine.tasks.read task = some cell ∧ cell.isRunning = false) := by
  cases call with
  | other => exact .inl rfl
  | moved moves only =>
      cases moves with
      | waited present idle => exact .inr ⟨rfl, rfl, rfl, only, _, present, idle⟩

theorem to_freeing {client task : Nat} {value : Int} {before : Within}
    (call : CallStep machine client step report next before (.freeing task value)) :
    before = .freeing task value ∨
      (before = .copying task ∧ next = machine.at client (.freeing task value) ∧
        ∃ cell address, machine.tasks.read task = some cell ∧ cell.ret = some address ∧
          machine.results.read address = some value) := by
  cases call with
  | other => exact .inl rfl
  | moved moves only =>
      cases moves with
      | copied present ret result => exact .inr ⟨rfl, only, _, _, present, ret, result⟩

theorem to_deleting {client task : Nat} {before : Within}
    (call : CallStep machine client step report next before (.deleting task)) :
    before = .deleting task ∨
      (step = .delete client (some task) ∧ report = .silent ∧
        next = machine.at client (.deleting task) ∧
          ∃ cell, machine.tasks.read task = some cell ∧ cell.isFinished = true) := by
  cases call with
  | other => exact .inl rfl
  | moved moves only =>
      cases moves with
      | deleting present isFinished => exact .inr ⟨rfl, rfl, only, _, present, isFinished⟩

theorem unused_stays {task : Nat} {life after : Life} (lives : Lives task report life after)
    (unused : ¬ life.Used) (notPushed : report ≠ .pushed task) : ¬ after.Used := by
  cases lives with
  | other => exact unused
  | made new => exact unused
  | pushed => exact absurd rfl notPushed
  | freed => exact unused
  | took waits free => exact absurd (.inl (by omega)) unused
  | executed calling => exact absurd (.inr (by rw [calling]; exact nofun)) unused
  | accessed hand _ _ _ => exact absurd (.inr (by rw [hand]; exact nofun)) unused

theorem present_step {task : Nat} (holds : Consistent pushes executions machine) (effect : Effect machine step report next)
    (notFreed : report ≠ .freed task) {cell : ThreadTask Nat}
    (present : machine.tasks.read task = some cell) :
    ∃ now, next.tasks.read task = some now := by
  have lives := step_lives holds effect task
  have found : (lifeOf machine task).cell = some cell := present
  change ∃ now, (lifeOf next task).cell = some now
  generalize lifeOf machine task = life at lives found
  generalize lifeOf next task = after at lives
  cases lives with
  | freed => exact absurd rfl notFreed
  | made new => exact ⟨_, rfl⟩
  | accessed _ _ _ _ => exact ⟨_, rfl⟩
  | _ => exact ⟨cell, found⟩

/-! ## Who pushes, joins and frees -/

theorem pusher {task : Nat} (effect : Effect machine step (.pushed task) next) :
    ∃ client, step = .advance client ∧ machine.clients client = .pushing task := by
  cases effect with
  | stays stays => cases stays
  | moved place moves => cases moves
  | pushed place _ _ _ => exact ⟨_, rfl, place⟩

theorem joiner {task : Nat} {value : Int} (effect : Effect machine step (.joined task value) next) :
    ∃ client, step = .advance client ∧ machine.clients client = .freeing task value ∧
      next.clients client = .outside := by
  cases effect with
  | stays stays => cases stays
  | moved place moves => cases moves
  | joinedNull place _ _ => exact ⟨_, rfl, place, Function.update_self _ _ _⟩
  | joined place _ _ _ => exact ⟨_, rfl, place, Function.update_self _ _ _⟩

theorem join_releases {task : Nat} {value : Int}
    (effect : Effect machine step (.joined task value) next) :
    ∃ cell, machine.tasks.read task = some cell ∧ ∀ address, cell.ret = some address →
      (∃ stored, machine.results.read address = some stored) ∧
        next.results.read address = none := by
  cases effect with
  | stays stays => cases stays
  | moved place moves => cases moves
  | @joinedNull _ _ _ cell place present ret =>
      refine ⟨cell, present, ?_⟩
      intro address points
      rw [ret] at points
      cases points
  | @joined _ _ freed _ cell place present ret stored result =>
      refine ⟨cell, present, ?_⟩
      intro address points
      rw [ret] at points
      cases points
      exact ⟨⟨stored, result⟩, Heap.read_release_self _ _⟩

theorem freer {task : Nat} (effect : Effect machine step (.freed task) next) :
    ∃ client, machine.clients client = .deleting task ∧ next.clients client = .outside := by
  cases effect with
  | stays stays => cases stays
  | moved place moves => cases moves
  | freed place _ => exact ⟨_, place, Function.update_self _ _ _⟩

theorem waiter {task : Nat} (effect : Effect machine step (.waited task) next) :
    ∃ client, machine.clients client = .readingRunning task ∧ next.tasks = machine.tasks ∧
      ∃ cell, machine.tasks.read task = some cell ∧ cell.isRunning = false := by
  cases effect with
  | stays stays => cases stays
  | moved place moves =>
      cases moves with
      | waited present idle => exact ⟨_, place, rfl, _, present, idle⟩

theorem executer {task : Nat} {res : Option (Nat × Int)}
    (effect : Effect machine step (.executed task res) next) :
    ∃ worker, machine.critical = some (worker, .calling task) := by
  cases effect with
  | stays stays => cases stays
  | moved place moves => cases moves
  | executedNull calling _ => exact ⟨_, calling⟩
  | executed calling _ => exact ⟨_, calling⟩

theorem maker {task : Nat} (effect : Effect machine step (.made task) next) :
    task = machine.tasks.next := by
  cases effect with
  | made => rfl
  | stays stays => cases stays
  | moved place moves => cases moves

/-- A result goes away with the join of a task that has it in `ret` only. -/
theorem result_kept {address : Nat} {value : Int} (effect : Effect machine step report next)
    (read : machine.results.read address = some value)
    (notFreed : ∀ other found cell, report = .joined other found →
      machine.tasks.read other = some cell → cell.ret ≠ some address) :
    next.results.read address = some value := by
  cases effect with
  | @joined client other freed found cell place present ret stored result =>
      have different : address ≠ freed := by
        intro same
        exact notFreed other found cell rfl present (by rw [same, ret])
      exact (Heap.read_release_of_ne different).trans read
  | executed calling present => exact Heap.read_alloc_of_read _ read
  | _ => exact read

theorem executed_live {task address : Nat} {value : Int}
    (effect : Effect machine step (.executed task (some (address, value))) next) :
    next.results.read address = some value := by
  cases effect with
  | stays stays => cases stays
  | moved place moves => cases moves
  | executed calling present => exact Heap.read_alloc_next _ _

/-- Only a join of the task itself takes away a result of its executions. -/
theorem own_result_kept {task address : Nat} {value : Int}
    (holds : Consistent pushes executions machine) (effect : Effect machine step report next)
    (own : ∃ found, some (address, found) ∈ executions task)
    (notJoined : ∀ found, report ≠ .joined task found)
    (read : machine.results.read address = some value) : next.results.read address = some value := by
  apply result_kept effect read
  intro other found cell isJoin present ret
  obtain ⟨first, mine⟩ := own
  obtain ⟨second, theirs⟩ := holds.retOwned other cell address present ret
  have same := (holds.owned task other address first second mine theirs).1
  rw [← same] at isJoin
  exact notJoined found isJoin

end Steps

end Sysprog.Threads.TaskLives
