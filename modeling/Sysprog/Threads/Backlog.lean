import Sysprog.Threads.AccessRefinement

/-!
# Working off a backlog

Whatever the clients and the workers have done, the workers alone can empty the
queue: the one that holds the lock gets its task on and unlocks, and then a
worker with enough iterations left takes one task after another. It takes
that no task in use has been freed and that the pool is still there.
-/

namespace Sysprog.Threads.Backlog

open CheckedRuns Accesses AccessInvariants AccessRefinement
open Pool (ThreadPool ThreadTask Worker System Outcome threadPoolNew newPool countIteration
  lastIteration)

set_option autoImplicit false

/-! ## Executed tasks -/

/-- A task whose function was called is finished and not running when its
critical section is over. -/
theorem executed_finished {allowed : Pool.History Nat Nat → System Nat Nat →
      Pool.Action Nat Nat → Prop} {first system : System Nat Nat}
    {observed : Pool.History Nat Nat} (run : Run Pool.perform allowed first observed system) :
    ∀ task ∈ Deliveries.executed observed,
      (system.tasks task).isFinished = true ∧ (system.tasks task).isRunning = false := by
  refine run_invariant (fun observed system => ∀ task ∈ Deliveries.executed observed,
    (system.tasks task).isFinished = true ∧ (system.tasks task).isRunning = false) ?_ ?_ run
  · intro task impossible
    cases impossible
  · intro observed system action outcome next held _ performed task member
    rw [Deliveries.executed_snoc] at member
    cases Pool.perform_effect performed with
    | @executed worker thread returned other nonempty nonneg front =>
        dsimp only
        by_cases same : task = other
        · subst same
          rw [Function.update_self]
          exact ⟨rfl, rfl⟩
        · rw [Function.update_of_ne same]
          apply held
          cases List.mem_append.mp member with
          | inl earlier => exact earlier
          | inr last => exact absurd (List.mem_singleton.mp last) same
    | _ =>
        apply held
        cases List.mem_append.mp member with
        | inl earlier => exact earlier
        | inr last => cases last

/-! ## The steps of the workers -/

def Works (results : Nat → Option Int) (machine : Machine) : Step → Prop
  | .work worker returned =>
      ∀ task, machine.critical = some (worker, .calling task) → returned = results task
  | _ => False

/-- The accesses before the next unlock. -/
def placeLeft : Option (Nat × Place) → Nat
  | none => 0
  | some (_, .unlocking) => 1
  | some (_, .finished _) => 2
  | some (_, .stored _) => 3
  | some (_, .returned _ _) => 4
  | some (_, .calling _) => 5
  | some (_, .taken _) => 6

def backlog (machine : Machine) : Nat :=
  7 * machine.pool.queueCount.toNat + placeLeft machine.critical

/-- The iterations `worker` has before it, when it takes every task. -/
def owed (machine : Machine) (worker : Nat) : Nat :=
  machine.pool.queueCount.toNat +
    match machine.critical with
    | none => 0
    | some (holder, _) => if holder = worker then 1 else 0

/-- What holds while the workers empty the queue of `first`. -/
structure Draining (first : Machine) (worker : Nat) (machine : Machine) : Prop where
  alive : machine.poolFreed = false
  clients : machine.clients = first.clients
  queue : ∃ waiting, Holds machine.pool waiting ∧
    ∀ task ∈ waiting, ∃ cell, machine.tasks.read task = some cell
  inHand : ∀ task, (place machine).task? = some task → ∃ cell, machine.tasks.read task = some cell
  kept : ∀ task cell, first.tasks.read task = some cell →
    ∃ now, machine.tasks.read task = some now
  holder : ∀ other here, machine.critical = some (other, here) →
    ∃ thread, machine.workers[other]? = some thread
  left : ∃ thread, machine.workers[worker]? = some thread ∧
    thread.counter + owed machine worker ≤ lastIteration ∧
    (thread.exited = true → lastIteration ≤ thread.counter)

section Steps

variable {first machine : Machine} {worker : Nat} {results : Nat → Option Int}

def Onward (results : Nat → Option Int) (first : Machine) (worker : Nat) (machine : Machine) :
    Prop :=
  ∃ step report next, Works results machine step ∧ perform machine step = .ok (report, next) ∧
    Draining first worker next ∧ backlog next < backlog machine

theorem take_onward (held : Draining first worker machine) (unlocked : machine.critical = none)
    (nonempty : 0 < machine.pool.queueCount) : Onward results first worker machine := by
  obtain ⟨waiting, queued, allocated⟩ := held.queue
  obtain ⟨task, front⟩ := holds_front queued nonempty
  obtain ⟨thread, present, enough, exits⟩ := held.left
  have running : thread.exited = false := by
    cases exited : thread.exited with
    | false => rfl
    | true =>
        have last := exits exited
        rw [owed, unlocked] at enough
        dsimp only at enough
        omega
  obtain ⟨rest, split, shorter⟩ := holds_took queued nonempty (Pool.queue_front_ok front).2
  refine ⟨.work worker none, .silent, { machine with
    pool := { machine.pool with
      queueHead := machine.pool.queueHead + 1
      queueCount := machine.pool.queueCount - 1 }
    critical := some (worker, .taken task) }, ?_, ?_, ?_, ?_⟩
  · intro other calling
    rw [unlocked] at calling
    cases calling
  · simp only [perform, workStep, unlocked, present, running, Bool.false_eq_true, if_false,
      lockQueue, held.alive, if_pos nonempty, front]
  · refine ⟨held.alive, held.clients, ⟨rest, shorter, ?_⟩, ?_, held.kept, ?_, ?_⟩
    · intro other member
      apply allocated
      rw [split]
      exact List.mem_cons_of_mem _ member
    · intro other same
      cases same
      apply allocated
      rw [split]
      exact List.mem_cons_self
    · intro other here holds
      cases holds
      exact ⟨thread, present⟩
    · refine ⟨thread, present, ?_, exits⟩
      rw [owed, unlocked] at enough
      rw [owed]
      dsimp only at enough ⊢
      rw [if_pos rfl]
      omega
  · rw [backlog, backlog, unlocked, placeLeft, placeLeft]
    dsimp only
    omega

theorem access_performed {holder task : Nat} {before after : Place} {cell changed : ThreadTask Nat}
    (holds : machine.critical = some (holder, before)) (isTask : before.task? = some task)
    (present : machine.tasks.read task = some cell) (access : Access cell before changed after) :
    perform machine (.work holder none) =
      .ok (.silent, (machine.store task changed).holding holder after) := by
  unfold perform workStep
  rw [holds]
  dsimp only
  rw [if_pos rfl, isTask]
  dsimp only
  rw [present]
  cases access <;> cases isTask <;> rfl

theorem in_hand_onward {holder task : Nat} {before after : Place} {step : Step} {report : Report}
    {tasks : Heap (ThreadTask Nat)} {heap : Heap Int} (held : Draining first worker machine)
    (holds : machine.critical = some (holder, before)) (isTask : before.task? = some task)
    (works : Works results machine step)
    (performed : perform machine step = .ok (report, { machine with
      critical := some (holder, after)
      tasks := tasks
      results := heap }))
    (still : ∀ other cell, machine.tasks.read other = some cell →
      ∃ now, tasks.read other = some now)
    (same : ∀ other, after.task? = some other → other = task)
    (closer : placeLeft (some (holder, after)) < placeLeft (some (holder, before))) :
    Onward results first worker machine := by
  obtain ⟨waiting, queued, allocated⟩ := held.queue
  refine ⟨step, report, _, works, performed, ⟨held.alive, held.clients, ⟨waiting, queued, ?_⟩, ?_,
    ?_, ?_, ?_⟩, ?_⟩
  · intro other member
    obtain ⟨cell, present⟩ := allocated other member
    exact still other cell present
  · intro other inHand
    rw [same other inHand]
    obtain ⟨cell, present⟩ := held.inHand task (by rw [place_of_holds holds]; exact isTask)
    exact still task cell present
  · intro other cell before
    obtain ⟨now, present⟩ := held.kept other cell before
    exact still other now present
  · intro other here moved
    cases moved
    exact held.holder _ _ holds
  · have left := held.left
    rw [owed, holds] at left
    exact left
  · rw [backlog, backlog, holds]
    exact Nat.add_lt_add_left closer _

theorem access_onward {holder task : Nat} {before after : Place} {cell changed : ThreadTask Nat}
    (held : Draining first worker machine) (holds : machine.critical = some (holder, before))
    (isTask : before.task? = some task) (notCalling : ∀ other, before ≠ .calling other)
    (present : machine.tasks.read task = some cell) (access : Access cell before changed after) :
    Onward results first worker machine := by
  refine in_hand_onward held holds isTask ?_ (access_performed holds isTask present access) ?_ ?_ ?_
  · intro other calling
    rw [holds] at calling
    exact absurd (Prod.mk.inj (Option.some.inj calling)).2 (notCalling other)
  · intro other found there
    exact Heap.exists_read_write changed there
  · intro other inHand
    cases access <;> cases isTask <;> cases inHand <;> rfl
  · cases access <;> exact Nat.lt_succ_self _

theorem call_onward {holder task : Nat} (held : Draining first worker machine)
    (holds : machine.critical = some (holder, .calling task)) :
    Onward results first worker machine := by
  obtain ⟨cell, present⟩ := held.inHand task (by rw [place_of_holds holds]; rfl)
  have works : Works results machine (.work holder (results task)) := by
    intro other calling
    rw [holds] at calling
    cases calling
    rfl
  have called : perform machine (.work holder (results task)) =
      callFunction machine holder task (results task) := by
    unfold perform workStep
    rw [holds]
    dsimp only [Place.task?]
    rw [if_pos rfl, present]
    rfl
  cases returned : results task with
  | none =>
      rw [returned] at called works
      exact in_hand_onward held holds rfl works called (fun _ found there => ⟨found, there⟩)
        (fun _ inHand => (Option.some.inj inHand).symm) (Nat.lt_succ_self _)
  | some value =>
      rw [returned] at called works
      exact in_hand_onward held holds rfl works called (fun _ found there => ⟨found, there⟩)
        (fun _ inHand => (Option.some.inj inHand).symm) (Nat.lt_succ_self _)

theorem unlock_onward {holder : Nat} (held : Draining first worker machine)
    (holds : machine.critical = some (holder, .unlocking)) :
    Onward results first worker machine := by
  obtain ⟨thread, present⟩ := held.holder _ _ holds
  obtain ⟨own, ownPresent, enough, exits⟩ := held.left
  refine ⟨.work holder none, .silent, { machine with
    critical := none
    workers := machine.workers.set holder (countIteration thread) }, ?_, ?_, ?_, ?_⟩
  · intro other calling
    rw [holds] at calling
    cases calling
  · unfold perform workStep
    rw [holds]
    dsimp only [Place.task?]
    rw [if_pos rfl, unlockQueue, held.alive, if_neg Bool.false_ne_true, present]
  · refine ⟨held.alive, held.clients, held.queue, ?_, held.kept, ?_, ?_⟩
    · intro other inHand
      cases inHand
    · intro other here impossible
      cases impossible
    · rw [owed, holds] at enough
      dsimp only at enough
      by_cases same : holder = worker
      · subst same
        have one : own = thread := Option.some.inj (ownPresent.symm.trans present)
        rw [one, if_pos rfl] at enough
        refine ⟨countIteration thread, ?_, ?_, ?_⟩
        · exact List.getElem?_set_self (List.getElem?_eq_some_iff.mp present).1
        · rw [owed, countIteration]
          dsimp only
          omega
        · intro exited
          exact Nat.le_of_eq (of_decide_eq_true exited).symm
      · rw [if_neg same] at enough
        refine ⟨own, ?_, enough, exits⟩
        exact (List.getElem?_set_ne same).trans ownPresent
  · rw [backlog, backlog, holds]
    exact Nat.add_lt_add_left Nat.zero_lt_one _

/-- Until the queue is empty and the lock is free there is a step that leads on.
-/
theorem drain_onward (held : Draining first worker machine) :
    (machine.critical = none ∧ machine.pool.queueCount = 0) ∨
      Onward results first worker machine := by
  cases critical : machine.critical with
  | none =>
      by_cases nonempty : 0 < machine.pool.queueCount
      · exact .inr (take_onward held critical nonempty)
      · obtain ⟨waiting, queued, _⟩ := held.queue
        have count := queued.count
        exact .inl ⟨rfl, by omega⟩
  | some pair =>
      obtain ⟨holder, here⟩ := pair
      right
      have inHand := held.inHand
      rw [place_of_holds critical] at inHand
      cases here with
      | unlocking => exact unlock_onward held critical
      | calling task => exact call_onward held critical
      | taken task =>
          obtain ⟨cell, present⟩ := inHand task rfl
          exact access_onward held critical rfl (fun _ => Place.noConfusion) present .running
      | returned task res =>
          obtain ⟨cell, present⟩ := inHand task rfl
          exact access_onward held critical rfl (fun _ => Place.noConfusion) present .stored
      | stored task =>
          obtain ⟨cell, present⟩ := inHand task rfl
          exact access_onward held critical rfl (fun _ => Place.noConfusion) present .finished
      | finished task =>
          obtain ⟨cell, present⟩ := inHand task rfl
          exact access_onward held critical rfl (fun _ => Place.noConfusion) present .cleared

/-- The workers empty the queue. -/
theorem drained_run (held : Draining first worker machine) :
    ∃ later drained, Run perform (fun _ => Works results) machine later drained ∧
      Draining first worker drained ∧
      (drained.critical = none ∧ drained.pool.queueCount = 0) := by
  refine run_reaches backlog (Draining first worker)
    (fun machine => machine.critical = none ∧ machine.pool.queueCount = 0) ?_ held
  intro machine held
  rcases drain_onward held with done | ⟨step, report, next, works, performed, kept, less⟩
  · exact .inl done
  · exact .inr ⟨step, report, next, works, performed, kept, less⟩

theorem works_push_nothing {history later : History} {machine drained : Machine}
    (run : Run perform (fun _ => Works results) machine later drained) :
    pushes (history ++ later) = pushes history := by
  refine run_invariant (fun later _ => pushes (history ++ later) = pushes history)
    (by rw [List.append_nil]) ?_ run
  intro later before step report next same works performed
  rw [← List.append_assoc, pushes_snoc, same]
  have quiet : (seen report).inserted? = none := by
    cases perform_effect performed with
    | stays stays => cases stays <;> rfl
    | moved here moves => cases moves <;> rfl
    | pushed here alive unlocked inside => exact works.elim
    | _ => rfl
  rw [quiet]
  exact List.append_nil _

end Steps

/-! ## Every backlog -/

/-- The accesses that take a join out of its loop. -/
def loopExit (client task : Nat) : Within → History
  | .readingFinished _ => [⟨.advance client, .silent⟩, ⟨.advance client, .waited task⟩]
  | _ => [⟨.advance client, .waited task⟩]

theorem loop_left {machine : Machine} {client task : Nat} {cell : ThreadTask Nat}
    (waits : machine.clients client = .readingFinished task ∨
      machine.clients client = .readingRunning task)
    (present : machine.tasks.read task = some cell) (finished : cell.isFinished = true)
    (idle : cell.isRunning = false) :
    ∃ after, Run perform (fun _ _ step => step = .advance client) machine
      (loopExit client task (machine.clients client)) after ∧
        after.clients client = .copying task := by
  have ends : ∀ before : Machine, before.clients client = .readingRunning task →
      before.tasks.read task = some cell →
      perform before (.advance client) = .ok (.waited task, before.at client (.copying task)) := by
    intro before here there
    simp only [perform, clientStep, here, joinAccess, there, joinStep, idle, Bool.false_eq_true,
      if_false]
  cases waits with
  | inl here =>
      have first : perform machine (.advance client) =
          .ok (.silent, machine.at client (.readingRunning task)) := by
        simp only [perform, clientStep, here, joinAccess, present, joinStep, finished, if_true]
      have second := ends (machine.at client (.readingRunning task)) (Function.update_self _ _ _)
        present
      rw [here]
      exact ⟨_, (Run.call .start rfl first).call rfl second, Function.update_self _ _ _⟩
  | inr here =>
      rw [here]
      exact ⟨_, Run.call .start rfl (ends machine here present), Function.update_self _ _ _⟩

variable {maxThreadCount : Int} {pool : ThreadPool Nat} {history : History} {machine : Machine}
  {worker : Nat} {thread : Worker}

theorem draining_reached
    (run : Run perform (fun _ _ _ => True) (start (newPool Nat maxThreadCount)) history machine)
    (alive : machine.poolFreed = false)
    (allocated : ∀ task, InUse machine task → ∃ cell, machine.tasks.read task = some cell)
    (present : machine.workers[worker]? = some thread) (runs : thread.exited = false)
    (left : thread.counter + machine.pool.queueCount < lastIteration) :
    Draining machine worker machine := by
  obtain ⟨observed, system, matched, related⟩ := run_related run
  obtain ⟨waiting, queued, _⟩ := related.tracks.queue
  refine ⟨alive, rfl, ⟨waiting, queued, ?_⟩, ?_, ?_, ?_, ?_⟩
  · intro task member
    exact allocated task (.inl ((waits_iff queued task).mpr member))
  · intro task inHand
    exact allocated task (.inr inHand)
  · intro task cell found
    exact ⟨cell, found⟩
  · intro other here holds
    obtain ⟨holder, there, _⟩ := related.refines.working other here holds
    exact ⟨holder, there⟩
  · refine ⟨thread, present, ?_, ?_⟩
    · have count := queued.count
      unfold owed
      split
      · omega
      · split_ifs <;> omega
    · intro exited
      rw [runs] at exited
      cases exited

/-- From wherever a run has come to, the workers alone can empty the queue and
free the lock, one worker having more iterations left than tasks wait: every
task pushed has been called, in the order of the pushes, and each one still
allocated is finished, so that no join of it waits any longer. -/
theorem backlog_drained (results : Nat → Option Int)
    (created : threadPoolNew Nat maxThreadCount = .ok pool)
    (run : Run perform (fun _ _ _ => True) (start pool) history machine)
    (alive : machine.poolFreed = false)
    (allocated : ∀ task, InUse machine task → ∃ cell, machine.tasks.read task = some cell)
    (present : machine.workers[worker]? = some thread) (runs : thread.exited = false)
    (left : thread.counter + machine.pool.queueCount < lastIteration) :
    ∃ later drained, Run perform (fun _ => Works results) machine later drained ∧
      drained.critical = none ∧ drained.pool.queueCount = 0 ∧
      calls (history ++ later) = pushes history ∧
      ∀ task cell, task ∈ pushes history → machine.tasks.read task = some cell →
        (∃ now, drained.tasks.read task = some now ∧ now.isFinished = true ∧
          now.isRunning = false) ∧
        ∀ client, machine.clients client = .readingFinished task ∨
          machine.clients client = .readingRunning task →
            ∃ after, Run perform (fun _ _ step => step = .advance client) drained
              (loopExit client task (machine.clients client)) after ∧
                after.clients client = .copying task := by
  obtain ⟨rfl, _, _⟩ := Deliveries.thread_pool_new_ok created
  obtain ⟨later, drained, rest, kept, unlocked, empty⟩ :=
    @drained_run machine machine worker results
      (draining_reached run alive allocated present runs left)
  have whole := run_append (fun _ _ _ _ => trivial) run rest
  have noTask : place drained = .unlocking := by
    rw [place, unlocked]
  have none : pending? (place drained) = none := by
    rw [noTask]
    rfl
  obtain ⟨observed, system, matched, related⟩ := run_related whole
  have called : calls (history ++ later) = pushes history :=
    ((calls_follow_pushes whole).2 empty none).trans (works_push_nothing rest)
  refine ⟨later, drained, rest, unlocked, empty, called, ?_⟩
  intro task cell pushed found
  obtain ⟨now, there⟩ := kept.kept task cell found
  have cells := related.refines.tasks task now there
  rw [noTask] at cells
  have settled : system.tasks task = now := cells
  have executed : task ∈ Deliveries.executed observed := by
    rw [related.calls, called]
    exact pushed
  have flags := executed_finished matched task executed
  rw [settled] at flags
  refine ⟨⟨now, there, flags⟩, ?_⟩
  intro client waits
  rw [← kept.clients] at waits ⊢
  exact loop_left waits there flags.1 flags.2

/-- A client waits for the one task pushed, and the only worker has not begun. -/
theorem waiting_join_released : ∃ later drained after,
    Run perform (fun _ => Works fun _ => some 5) (pushedOnce.at 1 (.readingFinished 0)) later
      drained ∧ drained.pool.queueCount = 0 ∧
      Run perform (fun _ _ step => step = .advance 1) drained
        [⟨.advance 1, .silent⟩, ⟨.advance 1, .waited 0⟩] after ∧
      after.clients 1 = .copying 0 := by
  have pushed : Run perform (fun _ _ _ => True) (start (newPool Nat 1)) pushedHistory pushedOnce :=
    run_pushed_once (fun _ _ _ _ => trivial) (fun _ _ _ => trivial) fun _ _ _ => trivial
  have joining := pushed.call trivial
    (rfl : perform pushedOnce (.join 1 (some 0)) =
      .ok (.silent, pushedOnce.at 1 (.readingFinished 0)))
  have allocated : ∀ task, InUse (pushedOnce.at 1 (.readingFinished 0)) task →
      ∃ cell, (pushedOnce.at 1 (.readingFinished 0)).tasks.read task = some cell := by
    intro task used
    obtain ⟨waiting, queued, counts⟩ := (run_tracks joining).queue
    have waits : task ∈ waiting := by
      cases used with
      | inl waits => exact (waits_iff queued task).mp waits
      | inr inHand => cases inHand
    have counted := counts task
    have once := List.count_pos_iff.mpr waits
    by_cases zero : task = 0
    · subst zero
      exact ⟨_, rfl⟩
    · have none : pushesOf (pushedHistory ++ [⟨.join 1 (some 0), .silent⟩]) task = 0 := by
        simp [pushesOf, pushedHistory, Ne.symm zero]
      omega
  obtain ⟨later, drained, works, _, empty, _, released⟩ :=
    @backlog_drained 1 _ _ _ 0 ⟨0, false⟩ (fun _ => some 5) rfl joining rfl allocated rfl rfl
      (by decide)
  obtain ⟨_, joins⟩ := released 0 _ (by decide) rfl
  obtain ⟨after, exits, copying⟩ := joins 1 (.inl rfl)
  exact ⟨later, drained, after, works, empty, exits, copying⟩

end Sysprog.Threads.Backlog
