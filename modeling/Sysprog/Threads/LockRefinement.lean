import Sysprog.Library.Refinement
import Sysprog.Threads.Reentry
import Sysprog.Threads.Sections

/-!
# The mutex makes the critical sections

With `queue_mtx` as a value a critical section is several steps: the lock,
the take, the function of the task and the unlock. Whatever their order, and
whether or not the functions push into their own pool, the sections come in
some order as whole ones. A push counts when it stores and an iteration when
the function of its task returns, or when it finds the queue empty.
-/

namespace Sysprog.Threads.LockRefinement

open CheckedRuns Refinement Mutex LockSteps Sections
open AccessInvariants (Holds holds_new)
open Pool (ThreadPool ThreadTask Worker System Outcome newPool threadTaskNew countIteration
  tpoolMaxTasks)

set_option autoImplicit false

variable {Value : Type}

/-! ## What the sections have done -/

def iterated : Place → Worker
  | .atLock worker => worker
  | .locked worker => worker
  | .calling worker _ _ => worker
  | .unlocking worker => countIteration worker
  | _ => ⟨0, false⟩

def taken? : Place → Option Nat
  | .calling _ task _ => some task
  | _ => none

def taken (machine : Machine Value) : Option Nat :=
  machine.holder.bind fun thread => taken? (machine.places thread)

/-- The fields of a task when the function in question has been called. -/
def marked (taken : Option Nat) (task : Nat) (cell : ThreadTask Value) : ThreadTask Value :=
  if taken = some task then { cell with isRunning := true } else cell

def Push.task : Push → Nat
  | .waiting task => task
  | .storing task => task

/-- Behind the lock a worker has not exited. -/
def Goes : Place → Prop
  | .locked worker => worker.exited = false
  | .calling worker _ _ => worker.exited = false
  | _ => True

/-- `order` are the workers, in the order of their creation. -/
structure Refines (machine : Machine Value) (order : List Nat) (system : System Nat Value) :
    Prop where
  pool : system.pool = putBack (taken machine) machine.pool
  once : order.Nodup
  created : ∀ index, index ∈ order ↔ machine.places (.worker index) ≠ .absent
  workers : system.workers = order.map fun index => iterated (machine.places (.worker index))
  clients : ∀ client, ∃ push, machine.places (.client client) = .client push ∧
    system.clients client = push.map Push.task
  noClient : ∀ index push, machine.places (.worker index) ≠ .client push
  goes : ∀ thread, Goes (machine.places thread)
  tasks : ∀ task, machine.tasks task = marked (taken machine) task (system.tasks task)
  front : ∀ task, taken machine = some task → TakenFrom machine.pool task

inductive Section where
  | push
  | call
  deriving DecidableEq

def sectionOf : Outcome Nat → Option Section
  | .stored _ _ => some .push
  | .executed _ _ => some .call
  | _ => none

def sectionAt : Step Value → Option Section
  | .store _ => some .push
  | .finish _ _ => some .call
  | _ => none

/-- How the critical sections answer a step. -/
inductive Answered (system : System Nat Value) (seen : Option Section)
    (next : Machine Value) : Prop where
  | silent {order : List Nat} (quiet : seen = none) (refines : Refines next order system)
  | step {action : Pool.Action Nat Value} {outcome : Outcome Nat} {after : System Nat Value}
      {order : List Nat} (performed : Pool.perform system action = .ok (outcome, after))
      (sees : sectionOf outcome = seen) (refines : Refines next order after)

/-! ## Workers and their order -/

section Places

variable {machine : Machine Value} {order : List Nat} {system : System Nat Value}

theorem client_of_place {thread : Thread} {push : Option Push} (held : Refines machine order system)
    (place : machine.places thread = .client push) :
    ∃ client, thread = .client client ∧ system.clients client = push.map Push.task := by
  cases thread with
  | worker index => exact absurd place (held.noClient index push)
  | client client =>
      obtain ⟨found, here, pending⟩ := held.clients client
      rw [place] at here
      cases here
      exact ⟨client, rfl, pending⟩

theorem worker_of_place {thread : Thread} (held : Refines machine order system)
    (apart : ∀ push, machine.places thread ≠ .client push) : ∃ index, thread = .worker index := by
  cases thread with
  | worker index => exact ⟨index, rfl⟩
  | client client =>
      obtain ⟨push, here, _⟩ := held.clients client
      exact absurd here (apart push)

theorem position_of_worker {index : Nat} (held : Refines machine order system)
    (present : machine.places (.worker index) ≠ .absent) :
    ∃ position : Nat, order[position]? = some index ∧
      system.workers[position]? = some (iterated (machine.places (.worker index))) := by
  obtain ⟨position, found⟩ := List.mem_iff_getElem?.mp ((held.created index).mpr present)
  refine ⟨position, found, ?_⟩
  rw [held.workers, List.getElem?_map, found]
  rfl

theorem set_map_of_nodup {Item : Type} (first second : Nat → Item) {order : List Nat}
    {position index : Nat} (once : order.Nodup) (found : order[position]? = some index)
    (others : ∀ other, other ≠ index → second other = first other) :
    (order.map first).set position (second index) = order.map second := by
  obtain ⟨inside, here⟩ := List.getElem?_eq_some_iff.mp found
  apply List.ext_getElem
  · simp
  · intro other leftBound rightBound
    rw [List.getElem_set, List.getElem_map, List.getElem_map]
    split_ifs with same
    · subst same
      rw [here]
    · have otherInside : other < order.length := by simpa using rightBound
      refine (others _ ?_).symm
      intro equal
      exact same ((List.getElem_inj once).mp (here.trans equal.symm))

end Places

/-! ## A thread moves -/

section Moves

variable {machine : Machine Value} {order : List Nat} {system : System Nat Value}
  {thread : Thread} {place : Place}

theorem at_other {other : Thread} (apart : other ≠ thread) :
    (machine.at thread place).places other = machine.places other := by
  change Function.update machine.places thread place other = machine.places other
  exact Function.update_of_ne apart _ _

theorem taken_of_free (free : machine.holder = none) : taken machine = none := by
  rw [taken, free]
  rfl

theorem taken_moved {next : Machine Value} (holder : next.holder = machine.holder)
    (moved : next.places = (machine.at thread place).places)
    (same : taken? place = taken? (machine.places thread)) : taken next = taken machine := by
  unfold taken
  rw [holder, moved]
  cases machine.holder with
  | none => rfl
  | some other =>
      dsimp only [Option.bind_some]
      by_cases own : other = thread
      · rw [own, at_self, same]
      · rw [at_other own]

theorem workers_at (same : iterated place = iterated (machine.places thread)) (index : Nat) :
    iterated ((machine.at thread place).places (.worker index)) =
      iterated (machine.places (.worker index)) := by
  by_cases moved : Thread.worker index = thread
  · rw [moved, at_self, same]
  · rw [at_other moved]

theorem goes_at (held : Refines machine order system) (runs : Goes place) (other : Thread) :
    Goes ((machine.at thread place).places other) := by
  by_cases moved : other = thread
  · rw [moved, at_self]
    exact runs
  · rw [at_other moved]
    exact held.goes other

theorem created_at {index : Nat} (held : Refines machine order system) (present : place ≠ .absent)
    (before : machine.places (.worker index) ≠ .absent) (other : Nat) :
    other ∈ order ↔ (machine.at (.worker index) place).places (.worker other) ≠ .absent := by
  by_cases moved : other = index
  · rw [moved, at_self]
    exact iff_of_true ((held.created index).mpr before) present
  · rw [at_other (by simpa using moved)]
    exact held.created other

theorem clients_at_worker {index : Nat} (held : Refines machine order system) (client : Nat) :
    ∃ push, (machine.at (.worker index) place).places (.client client) = .client push ∧
      system.clients client = push.map Push.task := by
  have apart : Thread.client client ≠ .worker index := (by rintro ⟨⟩)
  rw [at_other apart]
  exact held.clients client

theorem no_client_at {index : Nat} (held : Refines machine order system)
    (apart : ∀ push, place ≠ .client push) (other : Nat) (push : Option Push) :
    (machine.at (.worker index) place).places (.worker other) ≠ .client push := by
  by_cases moved : other = index
  · rw [moved, at_self]
    exact apart push
  · rw [at_other (by simpa using moved)]
    exact held.noClient other push

theorem clients_at_client {client : Nat} {push : Option Push} (held : Refines machine order system)
    (other : Nat) :
    ∃ found, (machine.at (.client client) (.client push)).places (.client other) = .client found ∧
      Function.update system.clients client (push.map Push.task) other = found.map Push.task := by
  by_cases moved : other = client
  · subst moved
    rw [at_self, Function.update_self]
    exact ⟨push, rfl, rfl⟩
  · rw [at_other (by simpa using moved), Function.update_of_ne moved]
    exact held.clients other

theorem worker_moved {index : Nat} {next : Machine Value} {after : System Nat Value}
    {inHand : Option Nat}
    (held : Refines machine order system)
    (moved : next.places = (machine.at (.worker index) place).places)
    (present : place ≠ .absent) (before : machine.places (.worker index) ≠ .absent)
    (apart : ∀ push, place ≠ .client push) (runs : Goes place)
    (clients : after.clients = system.clients)
    (workers : after.workers = order.map fun other => iterated (next.places (.worker other)))
    (now : taken next = inHand) (pool : after.pool = putBack inHand next.pool)
    (tasks : ∀ task, next.tasks task = marked inHand task (after.tasks task))
    (front : ∀ task, inHand = some task → TakenFrom next.pool task) :
    Refines next order after := by
  subst now
  constructor
  · exact pool
  · exact held.once
  · rw [moved]
    exact created_at held present before
  · exact workers
  · rw [moved, clients]
    exact clients_at_worker held
  · rw [moved]
    exact no_client_at held apart
  · rw [moved]
    exact goes_at held runs
  · exact tasks
  · exact front

theorem client_moved {client : Nat} {push : Option Push} {next : Machine Value}
    {after : System Nat Value} {inHand : Option Nat} (held : Refines machine order system)
    (moved : next.places = (machine.at (.client client) (.client push)).places)
    (clients : after.clients = Function.update system.clients client (push.map Push.task))
    (workers : after.workers = system.workers)
    (now : taken next = inHand) (pool : after.pool = putBack inHand next.pool)
    (tasks : ∀ task, next.tasks task = marked inHand task (after.tasks task))
    (front : ∀ task, inHand = some task → TakenFrom next.pool task) :
    Refines next order after := by
  subst now
  have workerPlaces : ∀ index, next.places (.worker index) = machine.places (.worker index) := by
    intro index
    have apart : Thread.worker index ≠ .client client := (by rintro ⟨⟩)
    rw [moved, at_other apart]
  constructor
  · exact pool
  · exact held.once
  · intro index
    rw [workerPlaces]
    exact held.created index
  · rw [workers, held.workers]
    simp only [workerPlaces]
  · rw [moved, clients]
    exact clients_at_client held
  · intro index other
    rw [workerPlaces]
    exact held.noClient index other
  · rw [moved]
    exact goes_at held trivial
  · exact tasks
  · exact front

theorem workers_same {index : Nat} {next : Machine Value} (held : Refines machine order system)
    (moved : next.places = (machine.at (.worker index) place).places)
    (same : iterated place = iterated (machine.places (.worker index))) :
    system.workers = order.map fun other => iterated (next.places (.worker other)) := by
  rw [moved, held.workers]
  exact List.map_congr_left fun other _ => (workers_at same other).symm

theorem workers_counted {index position : Nat} {next : Machine Value}
    (held : Refines machine order system) (found : order[position]? = some index)
    (moved : next.places = (machine.at (.worker index) place).places) :
    system.workers.set position (iterated place) =
      order.map fun other => iterated (next.places (.worker other)) := by
  have here : iterated (next.places (.worker index)) = iterated place := by
    rw [moved, at_self]
  rw [held.workers, ← here]
  refine set_map_of_nodup _ (fun other => iterated (next.places (.worker other))) held.once found ?_
  intro other apart
  rw [moved, at_other (by simpa using apart)]

end Moves

/-! ## One step -/

section Steps

variable {machine next : Machine Value} {order : List Nat} {system : System Nat Value}
  {thread : Thread}

theorem refines_start (pool : ThreadPool Nat) :
    Refines (start pool : Machine Value) [] (Pool.start pool) := by
  constructor
  · rfl
  · exact List.nodup_nil
  · intro index
    exact iff_of_false List.not_mem_nil (fun present => present rfl)
  · rfl
  · intro client
    exact ⟨none, rfl, rfl⟩
  · intro index push
    rintro ⟨⟩
  · intro other
    cases other with
    | worker index => trivial
    | client index => trivial
  · intro task
    rfl
  · intro task held
    cases held

/-- The thread inside is the holder, and stays it. -/
theorem taken_actor {place : Place} (excluded : Excluded machine)
    (inside : (machine.places thread).Inside) (holder : next.holder = machine.holder)
    (moved : next.places = (machine.at thread place).places) : taken next = taken? place := by
  rw [taken, holder, (excluded.exclusive thread).mp inside, moved]
  change taken? ((machine.at thread place).places thread) = taken? place
  rw [at_self]

theorem taken_inside (excluded : Excluded machine) (inside : (machine.places thread).Inside) :
    taken machine = taken? (machine.places thread) := by
  rw [taken, (excluded.exclusive thread).mp inside]
  rfl

theorem same_of_untaken (held : Refines machine order system) (untaken : taken machine = none) :
    system.pool = machine.pool ∧ system.tasks = machine.tasks := by
  have pool := held.pool
  rw [untaken] at pool
  refine ⟨pool, ?_⟩
  funext task
  have same := held.tasks task
  rw [untaken] at same
  exact same.symm

theorem created_answered {index : Nat} (held : Refines machine order system)
    (place : machine.places (.worker index) = .absent) (holder : next.holder = machine.holder)
    (moved : next.places = (machine.at (.worker index) (.atLock ⟨0, false⟩)).places)
    (pool : next.pool = { machine.pool with threadCount := machine.pool.threadCount + 1 })
    (tasks : next.tasks = machine.tasks) : Answered system none next := by
  have new : index ∉ order := by
    intro old
    exact (held.created index).mp old place
  have same : taken next = taken machine := taken_moved holder moved (by rw [place]; rfl)
  have here : next.places (.worker index) = .atLock ⟨0, false⟩ := by
    rw [moved, at_self]
  have others : ∀ other, other ≠ index →
      next.places (.worker other) = machine.places (.worker other) := by
    intro other apart
    rw [moved, at_other (by simpa using apart)]
  refine @Answered.step _ _ _ _ _ _ _ (order ++ [index])
    (rfl : Pool.perform system .create = .ok (.created, _)) rfl ?_
  constructor
  · rw [same, pool, put_back_created, ← held.pool]
  · refine List.nodup_append.mpr ⟨held.once, List.pairwise_singleton _ _, ?_⟩
    intro first old second alone equal
    rw [List.mem_singleton.mp alone] at equal
    exact new (equal ▸ old)
  · intro other
    rw [List.mem_append, List.mem_singleton]
    by_cases own : other = index
    · rw [own, here]
      exact iff_of_true (.inr rfl) (by rintro ⟨⟩)
    · rw [others other own, or_iff_left own]
      exact held.created other
  · change system.workers ++ [⟨0, false⟩] = _
    rw [held.workers, List.map_append, List.map_singleton, here]
    congr 1
    refine List.map_congr_left ?_
    intro other old
    rw [others other (fun equal => new (equal ▸ old))]
  · rw [moved]
    exact @clients_at_worker _ _ _ system _ _ held
  · rw [moved]
    exact no_client_at held (by rintro _ ⟨⟩)
  · rw [moved]
    exact goes_at held trivial
  · rw [same, tasks]
    exact held.tasks
  · rw [same, pool]
    exact held.front

theorem comes_answered {client task : Nat} (held : Refines machine order system)
    (place : machine.places (.client client) = .client none)
    (fits : machine.pool.threadCount + 1 ≠ tpoolMaxTasks) :
    Answered system none (machine.at (.client client) (.client (some (.waiting task)))) := by
  have same : taken (machine.at (.client client) (.client (some (.waiting task)))) =
      taken machine := taken_moved rfl rfl (by rw [place]; rfl)
  have free : system.clients client = none := by
    obtain ⟨push, here, pending⟩ := held.clients client
    rw [place] at here
    cases here
    exact pending
  have still : system.pool.threadCount + 1 ≠ tpoolMaxTasks := by
    rw [held.pool, put_back_thread_count]
    exact fits
  exact .step (push_completes task free still) rfl
    (client_moved held rfl rfl rfl same held.pool held.tasks held.front)

theorem comes_inside {index task pushed : Nat} {worker : Worker} (held : Refines machine order system)
    (place : machine.places (.worker index) = .calling worker task none) :
    Refines (machine.at (.worker index) (.calling worker task (some (.waiting pushed)))) order
      system := by
  have same : taken (machine.at (.worker index) (.calling worker task (some (.waiting pushed)))) =
      taken machine := taken_moved rfl rfl (by rw [place]; rfl)
  have runs := held.goes (.worker index)
  rw [place] at runs
  exact worker_moved held rfl (by rintro ⟨⟩) (by rw [place]; rintro ⟨⟩) (by rintro _ ⟨⟩) runs rfl
    (workers_same held rfl (by rw [place]; rfl)) same held.pool held.tasks held.front

theorem behind_lock_runs {worker : Worker}
    (waits : (Place.atLock worker).behindLock = some (.locked worker)) :
    Goes (.locked worker) := by
  simp only [Place.behindLock] at waits
  split_ifs at waits with exited
  simpa [Goes] using exited

theorem tasks_of_untaken (held : Refines machine order system) (untaken : taken machine = none)
    (task : Nat) : machine.tasks task = marked none task (system.tasks task) := by
  rw [(same_of_untaken held untaken).2]
  rfl

theorem locks_refines {behind : Place} (excluded : Excluded machine)
    (held : Refines machine order system) (free : machine.holder = none)
    (waits : (machine.places thread).behindLock = some behind) :
    Refines { machine.at thread behind with holder := some thread } order system := by
  have untaken := taken_of_free free
  obtain ⟨pool, _⟩ := same_of_untaken held untaken
  have tasks := tasks_of_untaken held untaken
  have now : taken { machine.at thread behind with holder := some thread } = taken? behind := by
    change taken? ((machine.at thread behind).places thread) = taken? behind
    rw [at_self]
  rcases behind_lock_cases waits with ⟨task, here, rfl⟩ | ⟨worker, here, rfl⟩ | inner
  · obtain ⟨client, rfl, pending⟩ := client_of_place held here
    have same : system.clients = Function.update system.clients client (some task) := by
      rw [← show system.clients client = some task from pending, Function.update_eq_self]
    exact client_moved held rfl same rfl now pool tasks (by rintro _ ⟨⟩)
  · obtain ⟨index, rfl⟩ := worker_of_place held (by rw [here]; rintro _ ⟨⟩)
    rw [here] at waits
    exact worker_moved held rfl (by rintro ⟨⟩) (by rw [here]; rintro ⟨⟩) (by rintro _ ⟨⟩)
      (behind_lock_runs waits) rfl (workers_same held rfl (by rw [here]; rfl)) now pool tasks
      (by rintro _ ⟨⟩)
  · obtain ⟨worker, task, pushed, here, _⟩ := inner
    have exclusive := excluded.exclusive
    rw [free] at exclusive
    have outside : ¬ (machine.places thread).Inside := outside_of_free exclusive
    rw [here] at outside
    exact absurd trivial outside

theorem stores_answered {task : Nat} (excluded : Excluded machine)
    (held : Refines machine order system)
    (place : (machine.places thread).push? = some (some (.storing task)))
    (inside : 0 ≤ machine.pool.queueTail ∧
      machine.pool.queueTail.toNat < machine.pool.queue.length) :
    Answered system (some .push) { machine.at thread ((machine.places thread).withPush none) with
      pool := { machine.pool with
        queue := machine.pool.queue.set machine.pool.queueTail.toNat (some task)
        queueTail := machine.pool.queueTail + 1
        queueCount := machine.pool.queueCount + 1 }
      holder := none } := by
  rcases push_cases place with here | ⟨worker, called, here⟩
  · obtain ⟨client, rfl, pending⟩ := client_of_place held here
    have untaken : taken machine = none := by
      rw [taken_inside excluded (by rw [here]; trivial), here]
      rfl
    obtain ⟨pool, _⟩ := same_of_untaken held untaken
    have tasks := tasks_of_untaken held untaken
    rw [here]
    exact .step (enqueue_completes pending pool inside) rfl
      (client_moved held rfl rfl rfl rfl rfl tasks (by rintro _ ⟨⟩))
  · exact absurd here (excluded.outer _ _ _ _)

theorem takes_refines {worker : Worker} {task : Nat} (excluded : Excluded machine)
    (held : Refines machine order system) (place : machine.places thread = .locked worker)
    (nonneg : 0 ≤ machine.pool.queueHead)
    (front : machine.pool.queue[machine.pool.queueHead.toNat]? = some (some task)) :
    Refines { machine.at thread (.calling worker task none) with
      pool := { machine.pool with
        queueHead := machine.pool.queueHead + 1
        queueCount := machine.pool.queueCount - 1 }
      tasks := Function.update machine.tasks task { machine.tasks task with isRunning := true } }
      order system := by
  have inside : (machine.places thread).Inside := by
    rw [place]
    trivial
  have untaken : taken machine = none := by
    rw [taken_inside excluded inside, place]
    rfl
  obtain ⟨pool, tasks⟩ := same_of_untaken held untaken
  obtain ⟨index, rfl⟩ := worker_of_place held (by rw [place]; rintro _ ⟨⟩)
  have runs := held.goes (.worker index)
  rw [place] at runs
  refine worker_moved held rfl (by rintro ⟨⟩) (by rw [place]; rintro ⟨⟩) (by rintro _ ⟨⟩) runs rfl
    (workers_same held rfl (by rw [place]; rfl)) (taken_actor excluded inside rfl rfl) ?_ ?_ ?_
  · exact pool.trans (put_back_taken _ _).symm
  · intro other
    rw [tasks]
    change Function.update machine.tasks task _ other = marked (some task) other _
    by_cases own : other = task
    · rw [own, marked, if_pos rfl, Function.update_self]
    · rw [marked, if_neg (by simpa using Ne.symm own), Function.update_of_ne own]
  · intro other same
    cases same
    exact taken_from_front nonneg front

theorem idles_answered {worker : Worker} (excluded : Excluded machine)
    (held : Refines machine order system) (place : machine.places thread = .locked worker)
    (empty : ¬ 0 < machine.pool.queueCount) :
    Answered system none (machine.at thread (.unlocking worker)) := by
  have inside : (machine.places thread).Inside := by
    rw [place]
    trivial
  have untaken : taken machine = none := by
    rw [taken_inside excluded inside, place]
    rfl
  obtain ⟨pool, _⟩ := same_of_untaken held untaken
  obtain ⟨index, rfl⟩ := worker_of_place held (by rw [place]; rintro _ ⟨⟩)
  have runs := held.goes (.worker index)
  obtain ⟨position, found, present⟩ := position_of_worker held
    (show machine.places (.worker index) ≠ .absent by rw [place]; rintro ⟨⟩)
  rw [place] at runs present
  have still : ¬ 0 < system.pool.queueCount := by
    rw [pool]
    exact empty
  have tasks := tasks_of_untaken held untaken
  have now := @taken_actor _ machine (machine.at (.worker index) (.unlocking worker)) _
    (.unlocking worker) excluded inside rfl rfl
  have workers := @workers_counted _ _ _ _ (.unlocking worker) _ _
    (machine.at (.worker index) (.unlocking worker)) held found rfl
  exact .step (idle_completes none present runs still) rfl
    (worker_moved held rfl (by rintro ⟨⟩) (by rw [place]; rintro ⟨⟩) (by rintro _ ⟨⟩) trivial rfl
      workers now pool tasks (by rintro _ ⟨⟩))

theorem returns_answered {worker : Worker} {task : Nat} {returned : Option Value}
    (excluded : Excluded machine) (held : Refines machine order system)
    (nonneg : 0 ≤ machine.pool.queueCount)
    (place : machine.places thread = .calling worker task none) :
    Answered system (some .call) { machine.at thread (.unlocking worker) with
      tasks := Function.update machine.tasks task ⟨returned, true, false⟩ } := by
  have inside : (machine.places thread).Inside := by
    rw [place]
    trivial
  have before : taken machine = some task := by
    rw [taken_inside excluded inside, place]
    rfl
  obtain ⟨index, rfl⟩ := worker_of_place held (by rw [place]; rintro _ ⟨⟩)
  have pool := held.pool
  rw [before] at pool
  have runs := held.goes (.worker index)
  obtain ⟨position, found, present⟩ := position_of_worker held
    (show machine.places (.worker index) ≠ .absent by rw [place]; rintro ⟨⟩)
  rw [place] at runs present
  have now := @taken_actor _ machine { machine.at (.worker index) (.unlocking worker) with
    tasks := Function.update machine.tasks task ⟨returned, true, false⟩ } _
      (.unlocking worker) excluded inside rfl rfl
  have workers := @workers_counted _ _ _ _ (.unlocking worker) _ _
    (machine.at (.worker index) (.unlocking worker)) held found rfl
  refine .step (iterate_completes returned present runs pool nonneg (held.front task before)) rfl
    (worker_moved held rfl (by rintro ⟨⟩) (by rw [place]; rintro ⟨⟩) (by rintro _ ⟨⟩) trivial rfl
      workers now rfl ?_ (by rintro _ ⟨⟩))
  intro other
  change Function.update machine.tasks task _ other = Function.update system.tasks task _ other
  by_cases own : other = task
  · rw [own, Function.update_self, Function.update_self]
  · rw [Function.update_of_ne own, Function.update_of_ne own, held.tasks other, before, marked,
      if_neg (by simpa using Ne.symm own)]

theorem unlocks_refines {worker : Worker} (excluded : Excluded machine)
    (held : Refines machine order system) (place : machine.places thread = .unlocking worker) :
    Refines { machine.at thread (.atLock (countIteration worker)) with holder := none } order
      system := by
  have untaken : taken machine = none := by
    rw [taken_inside excluded (by rw [place]; trivial), place]
    rfl
  obtain ⟨pool, _⟩ := same_of_untaken held untaken
  have tasks := tasks_of_untaken held untaken
  obtain ⟨index, rfl⟩ := worker_of_place held (by rw [place]; rintro _ ⟨⟩)
  exact worker_moved held rfl (by rintro ⟨⟩) (by rw [place]; rintro ⟨⟩) (by rintro _ ⟨⟩) trivial rfl
    (workers_same held rfl (by rw [place]; rfl)) rfl pool tasks (by rintro _ ⟨⟩)

/-- Every step is answered by the critical sections. -/
theorem step_answered {step : Step Value} {report : Report} {waiting : List Nat}
    (excluded : Excluded machine) (queued : Holds machine.pool waiting)
    (held : Refines machine order system) (effect : Effect machine step report next) :
    Answered system (sectionAt step) next := by
  cases effect with
  | created place => exact created_answered held place rfl rfl rfl rfl
  | refused full => exact .silent rfl held
  | comes place fits =>
      rcases push_cases place with here | ⟨worker, task, here⟩
      · obtain ⟨client, rfl, _⟩ := client_of_place held here
        rw [here]
        exact comes_answered held here fits
      · obtain ⟨index, rfl⟩ := worker_of_place held (by rw [here]; rintro _ ⟨⟩)
        rw [here]
        exact .silent rfl (comes_inside held here)
  | locks free waits => exact .silent rfl (locks_refines excluded held free waits)
  | stores place inside => exact stores_answered excluded held place inside
  | takes place nonempty front =>
      exact .silent rfl (takes_refines excluded held place queued.head front)
  | idles place empty => exact idles_answered excluded held place empty
  | returns place =>
      have nonneg : 0 ≤ machine.pool.queueCount := by
        rw [queued.count]
        exact Int.natCast_nonneg _
      exact returns_answered excluded held nonneg place
  | unlocks place => exact .silent rfl (unlocks_refines excluded held place)

end Steps

/-! ## Every order of steps -/

/-- The pushes and calls of a run, in the order in which they have their effect. -/
def sections (history : LockSteps.History Value) : List Section :=
  history.filterMap fun event => sectionAt event.call

def observedSections (observed : Pool.History Nat Value) : List Section :=
  observed.filterMap fun event => sectionOf event.result

theorem filter_map_snoc {Item Shown : Type} (show? : Item → Option Shown) (items : List Item)
    (item : Item) :
    (items ++ [item]).filterMap show? = items.filterMap show? ++ (show? item).toList := by
  rw [List.filterMap_append]
  cases shown : show? item with
  | none => simp [shown]
  | some value => simp [shown]

structure Related (history : LockSteps.History Value) (machine : Machine Value)
    (observed : Pool.History Nat Value) (system : System Nat Value) : Prop where
  excluded : Excluded machine
  queued : ∃ waiting, Holds machine.pool waiting
  order : observedSections observed = sections history
  refines : ∃ order, Refines machine order system

theorem related_step {first : System Nat Value} {history : LockSteps.History Value}
    {machine next : Machine Value} {step : Step Value} {report : Report}
    {observed : Pool.History Nat Value} {system : System Nat Value}
    (held : Related history machine observed system)
    (performed : perform machine step = .ok (report, next))
    (matched : Run Pool.perform (fun _ _ _ => True) first observed system) :
    ∃ observed' system', Run Pool.perform (fun _ _ _ => True) first observed' system' ∧
      Related (history ++ [⟨step, report⟩]) next observed' system' := by
  have effect := perform_effect performed
  obtain ⟨waiting, queued⟩ := held.queued
  obtain ⟨order, refines⟩ := held.refines
  have excluded := excluded_step held.excluded effect
  have queue := Reentry.holds_step queued effect
  have more : sections (history ++ [⟨step, report⟩]) =
      sections history ++ (sectionAt step).toList := filter_map_snoc _ history _
  cases step_answered held.excluded queued refines effect with
  | silent quiet refines =>
      refine ⟨observed, system, matched, excluded, queue, ?_, _, refines⟩
      rw [more, quiet, held.order]
      exact (List.append_nil _).symm
  | @step action outcome after _ answered sees refines =>
      refine ⟨_, _, matched.call trivial answered, excluded, queue, ?_, _, refines⟩
      have seen : observedSections (observed ++ [⟨action, outcome⟩]) =
          observedSections observed ++ (sectionOf outcome).toList := filter_map_snoc _ observed _
      rw [seen, more, sees, held.order]

/-- Whatever the order of the steps, and whatever the tasks' functions push,
the machine has done what a run of whole critical sections does: the pushes
and calls in the same order, and the pool, the workers, the clients and the
tasks as they are once the task in hand is put back. -/
theorem locks_refine_sections {allowed : LockSteps.History Value → Machine Value → Step Value → Prop}
    {maxThreadCount : Int} {history : LockSteps.History Value} {machine : Machine Value}
    (run : Run perform allowed (start (newPool Nat maxThreadCount)) history machine) :
    ∃ observed system order, Run Pool.perform (fun _ _ _ => True)
      (Pool.start (newPool Nat maxThreadCount)) observed system ∧
        observedSections observed = sections history ∧ Refines machine order system := by
  obtain ⟨observed, system, matched, related⟩ := simulated_run Related
    ⟨excluded_start _, ⟨[], holds_new maxThreadCount⟩, rfl, [], refines_start _⟩
    (fun _ _ _ _ _ _ _ held _ performed matched => related_step held performed matched) run
  obtain ⟨order, refines⟩ := related.refines
  exact ⟨observed, system, order, matched, related.order, refines⟩

/-- A worker in the function of a task, which is at the front of the queue for
the critical sections. -/
theorem worker_calls_refined : ∃ (history : LockSteps.History Nat) (machine : Machine Nat)
    (task : Nat) (observed : Pool.History Nat Nat) (system : System Nat Nat) (order : List Nat),
    Run perform (fun _ => Reentry.StaysOut) (start (newPool Nat 1)) history machine ∧
    history.map Event.call = [.create 0, .push (.client 0) (some 7), .lock (.client 0),
      .store (.client 0), .lock (.worker 0), .take (.worker 0)] ∧
    machine.places (.worker 0) = .calling ⟨0, false⟩ task none ∧
    Run Pool.perform (fun _ _ _ => True) (Pool.start (newPool Nat 1)) observed system ∧
    observedSections observed = [.push] ∧ Refines machine order system := by
  obtain ⟨machine, task, run, _, calling, _⟩ := Reentry.worker_calls
  obtain ⟨observed, system, order, matched, same, refines⟩ := locks_refine_sections run
  exact ⟨_, machine, task, observed, system, order, run, rfl, calling, matched, same, refines⟩

end Sysprog.Threads.LockRefinement
