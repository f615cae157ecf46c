import Sysprog.Threads.Accesses
import Sysprog.Threads.Deliveries

/-!
# What every order of accesses keeps

Each push of a task is one entry of the queue, one execution in progress or
one execution done, every result belongs to one execution, and the fields of
a task tell of its executions.
-/

namespace Sysprog.Threads.AccessInvariants

open CheckedRuns Accesses
open ArrayQueue (segment segment_self segment_store segment_take)
open Pool (ThreadPool ThreadTask Worker threadPoolNew newPool queueFront threadTaskNew tpoolMaxTasks)
open Deliveries (waitingCells)

set_option autoImplicit false

/-! ## The queue -/

structure Holds (pool : ThreadPool Nat) (waiting : List Nat) : Prop where
  length : pool.queue.length = tpoolMaxTasks
  head : 0 ≤ pool.queueHead
  tail : pool.queueTail = pool.queueHead + waiting.length
  bound : pool.queueTail ≤ tpoolMaxTasks
  count : pool.queueCount = waiting.length
  cells : waitingCells pool = waiting.map some

theorem holds_new (maxThreadCount : Int) : Holds (newPool Nat maxThreadCount) [] := by
  constructor
  · exact List.length_replicate
  · exact Int.le_refl 0
  · rfl
  · exact Int.natCast_nonneg tpoolMaxTasks
  · rfl
  · exact segment_self _ _

theorem holds_pushed {pool : ThreadPool Nat} {waiting : List Nat} (holds : Holds pool waiting)
    (task : Nat) (inside : 0 ≤ pool.queueTail ∧ pool.queueTail.toNat < pool.queue.length) :
    Holds { pool with
      queue := pool.queue.set pool.queueTail.toNat (some task)
      queueTail := pool.queueTail + 1
      queueCount := pool.queueCount + 1 } (waiting ++ [task]) := by
  have tail := holds.tail
  have head := holds.head
  have room := inside.2
  have more : (pool.queueTail + 1).toNat = pool.queueTail.toNat + 1 := by omega
  rw [holds.length] at room
  constructor
  · rw [List.length_set]
    exact holds.length
  · exact head
  · dsimp only
    rw [tail, List.length_append, List.length_singleton]
    omega
  · dsimp only
    omega
  · dsimp only
    rw [holds.count, List.length_append, List.length_singleton]
    rfl
  · have cells := holds.cells
    unfold waitingCells at cells ⊢
    dsimp only
    rw [more, segment_store _ _ (by omega) inside.2, cells, List.map_append, List.map_singleton]

/-- A worker that finds a count finds a task. -/
theorem holds_front {pool : ThreadPool Nat} {waiting : List Nat} (holds : Holds pool waiting)
    (nonempty : 0 < pool.queueCount) : ∃ task, queueFront pool = .ok (some task) := by
  have head := holds.head
  have tail := holds.tail
  have bound := holds.bound
  have count := holds.count
  have cells := holds.cells
  have present : pool.queueHead.toNat < pool.queue.length := by
    rw [holds.length]
    omega
  unfold waitingCells at cells
  rw [segment_take _ (by omega) present] at cells
  cases waiting with
  | nil => cases cells
  | cons task rest =>
      refine ⟨task, ?_⟩
      rw [queueFront, if_pos head, List.getElem?_eq_getElem present, (List.cons.inj cells).1]

theorem holds_took {pool : ThreadPool Nat} {waiting : List Nat} {task : Nat}
    (holds : Holds pool waiting) (nonempty : 0 < pool.queueCount)
    (front : pool.queue[pool.queueHead.toNat]? = some (some task)) :
    ∃ rest, waiting = task :: rest ∧ Holds { pool with
      queueHead := pool.queueHead + 1
      queueCount := pool.queueCount - 1 } rest := by
  have tail := holds.tail
  have head := holds.head
  have count := holds.count
  have cells := holds.cells
  obtain ⟨present, first⟩ := List.getElem?_eq_some_iff.mp front
  have more : (pool.queueHead + 1).toNat = pool.queueHead.toNat + 1 := by omega
  cases waiting with
  | nil =>
      rw [List.length_nil] at count
      omega
  | cons other rest =>
      rw [List.length_cons] at tail count
      unfold waitingCells at cells
      rw [segment_take _ (by omega) present, first, List.map_cons] at cells
      have same : some task = some other := (List.cons.inj cells).1
      cases same
      refine ⟨rest, rfl, ?_⟩
      constructor
      · exact holds.length
      · dsimp only
        omega
      · dsimp only
        omega
      · exact holds.bound
      · dsimp only
        omega
      · unfold waitingCells
        dsimp only
        rw [more]
        exact (List.cons.inj cells).2

/-! ## Histories -/

def executionsOf (history : History) (task : Nat) : List (Option (Nat × Int)) :=
  history.filterMap fun event =>
    match event.result with
    | .executed other res => if other = task then some res else none
    | _ => none

def pushesOf (history : History) (task : Nat) : Nat :=
  history.countP fun event => event.result == .pushed task

def isQuiet : Report → Bool
  | .pushed _ => false
  | .executed _ _ => false
  | _ => true

theorem executions_quiet {history : History} {step : Step} {report : Report}
    (quiet : isQuiet report = true) :
    executionsOf (history ++ [⟨step, report⟩]) = executionsOf history := by
  funext task
  rw [executionsOf, List.filterMap_append]
  cases report with
  | executed other res => cases quiet
  | _ => exact List.append_nil _

theorem executions_pushed {history : History} {step : Step} (task : Nat) :
    executionsOf (history ++ [⟨step, .pushed task⟩]) = executionsOf history := by
  funext other
  rw [executionsOf, List.filterMap_append]
  exact List.append_nil _

theorem executions_executed {history : History} {step : Step} (task : Nat)
    (res : Option (Nat × Int)) :
    executionsOf (history ++ [⟨step, .executed task res⟩]) =
      Function.update (executionsOf history) task (executionsOf history task ++ [res]) := by
  funext other
  rw [executionsOf, List.filterMap_append]
  by_cases same : other = task
  · subst same
    simp [executionsOf]
  · simp [executionsOf, same, Ne.symm same]

theorem pushes_quiet {history : History} {step : Step} {report : Report}
    (quiet : isQuiet report = true) :
    pushesOf (history ++ [⟨step, report⟩]) = pushesOf history := by
  funext task
  rw [pushesOf, List.countP_append]
  cases report with
  | pushed other => cases quiet
  | _ => exact Nat.add_zero _

theorem pushes_executed {history : History} {step : Step} (task : Nat)
    (res : Option (Nat × Int)) :
    pushesOf (history ++ [⟨step, .executed task res⟩]) = pushesOf history := by
  funext other
  rw [pushesOf, List.countP_append]
  exact Nat.add_zero _

theorem pushes_pushed {history : History} {step : Step} (task : Nat) :
    pushesOf (history ++ [⟨step, .pushed task⟩]) =
      Function.update (pushesOf history) task (pushesOf history task + 1) := by
  funext other
  rw [pushesOf, List.countP_append]
  by_cases same : other = task
  · subst same
    simp [pushesOf]
  · simp [pushesOf, same, Ne.symm same]

/-! ## The machine -/

/-- The place of the worker that holds the lock; with no task in its hands it
might as well be nobody. -/
def place (machine : Machine) : Place :=
  match machine.critical with
  | some (_, place) => place
  | none => .unlocking

/-- A task that was taken and whose execution is not done. -/
def pending? : Place → Option Nat
  | .taken task => some task
  | .calling task => some task
  | _ => none

def executed? : Place → Option Nat
  | .returned task _ => some task
  | .stored task => some task
  | .finished task => some task
  | _ => none

def Waits (machine : Machine) (task : Nat) : Prop := some task ∈ waitingCells machine.pool

def InUse (machine : Machine) (task : Nat) : Prop :=
  Waits machine task ∨ (place machine).task? = some task

theorem place_of_holds {machine : Machine} {worker : Nat} {here : Place}
    (holds : machine.critical = some (worker, here)) : place machine = here := by
  rw [place, holds]

/-- The pointer that the last of these executions returned, NULL before the
first. -/
def lastResult (executions : List (Option (Nat × Int))) : Option Nat :=
  executions.getLast?.join.map Prod.fst

theorem final_of_last_result {executions : List (Option (Nat × Int))} {address : Nat}
    (last : lastResult executions = some address) :
    ∃ value, executions.getLast? = some (some (address, value)) := by
  rw [lastResult, Option.map_eq_some_iff] at last
  obtain ⟨⟨_, value⟩, member, rfl⟩ := last
  exact ⟨value, Option.join_eq_some_iff.mp member⟩

theorem mem_of_last_result {executions : List (Option (Nat × Int))} {address : Nat}
    (last : lastResult executions = some address) : ∃ value, some (address, value) ∈ executions := by
  obtain ⟨value, final⟩ := final_of_last_result last
  exact ⟨value, List.mem_of_getLast? final⟩

/-- The machine after so many pushes and these executions of each task. -/
structure Consistent (pushes : Nat → Nat) (executions : Nat → List (Option (Nat × Int)))
    (machine : Machine) : Prop where
  queue : ∃ waiting, Holds machine.pool waiting ∧ ∀ task, pushes task =
    (executions task).length + waiting.count task +
      if pending? (place machine) = some task then 1 else 0
  made : ∀ task, executions task ≠ [] → task < machine.tasks.next
  handled : ∀ task, (place machine).task? = some task → place machine ≠ .taken task →
    task < machine.tasks.next
  allocated : ∀ task address value, some (address, value) ∈ executions task →
    address < machine.results.next
  owned : ∀ task other address value found, some (address, value) ∈ executions task →
    some (address, found) ∈ executions other → task = other ∧ value = found
  values : ∀ task address value found, some (address, value) ∈ executions task →
    machine.results.read address = some found → found = value
  done : ∀ task, executed? (place machine) = some task → executions task ≠ []
  returned : ∀ task res, place machine = .returned task res → res = lastResult (executions task)
  ret : ∀ task cell, machine.tasks.read task = some cell →
    (∀ res, place machine ≠ .returned task res) → cell.ret = lastResult (executions task)
  retOwned : ∀ task cell address, machine.tasks.read task = some cell → cell.ret = some address →
    ∃ value, some (address, value) ∈ executions task
  running : ∀ task cell, machine.tasks.read task = some cell → (cell.isRunning = true ↔
    (place machine).task? = some task ∧ place machine ≠ .taken task)
  finished : ∀ task cell, machine.tasks.read task = some cell → cell.isFinished = true →
    executions task ≠ []

theorem consistent_initial (maxThreadCount : Int) :
    Consistent (pushesOf []) (executionsOf []) (start (newPool Nat maxThreadCount)) := by
  constructor
  · exact ⟨[], holds_new maxThreadCount, fun task => rfl⟩
  · intro task executed
    exact absurd rfl executed
  · intro task impossible
    cases impossible
  · intro task address value impossible
    cases impossible
  · intro task other address value found impossible
    cases impossible
  · intro task address value found impossible
    cases impossible
  · intro task impossible
    cases impossible
  · intro task res impossible
    cases impossible
  · intro task cell present
    simp [start] at present
  · intro task cell address present
    simp [start] at present
  · intro task cell present
    simp [start] at present
  · intro task cell present
    simp [start] at present

section Steps

variable {pushes : Nat → Nat} {executions : Nat → List (Option (Nat × Int))}
  {machine next : Machine}

theorem consistent_same (holds : Consistent pushes executions machine)
    (queue : ∀ waiting, Holds machine.pool waiting → Holds next.pool waiting)
    (samePlace : place next = place machine) (tasks : next.tasks = machine.tasks)
    (results : next.results = machine.results) : Consistent pushes executions next := by
  obtain ⟨waiting, queued, counts⟩ := holds.queue
  constructor
  · refine ⟨waiting, queue waiting queued, ?_⟩
    rw [samePlace]
    exact counts
  · rw [tasks]
    exact holds.made
  · rw [samePlace, tasks]
    exact holds.handled
  · rw [results]
    exact holds.allocated
  · exact holds.owned
  · rw [results]
    exact holds.values
  · rw [samePlace]
    exact holds.done
  · rw [samePlace]
    exact holds.returned
  · rw [samePlace, tasks]
    exact holds.ret
  · rw [tasks]
    exact holds.retOwned
  · rw [samePlace, tasks]
    exact holds.running
  · rw [tasks]
    exact holds.finished

theorem consistent_tasks (holds : Consistent pushes executions machine)
    {tasks : Heap (ThreadTask Nat)} (clients : Nat → Within)
    (grown : machine.tasks.next ≤ tasks.next)
    (cells : ∀ task cell, tasks.read task = some cell →
      machine.tasks.read task = some cell ∨
        (cell = threadTaskNew Nat ∧ machine.tasks.next ≤ task)) :
    Consistent pushes executions { machine with tasks, clients } := by
  have unexecuted : ∀ task, machine.tasks.next ≤ task → executions task = [] := by
    intro task new
    by_contra executed
    exact absurd (holds.made task executed) (Nat.not_lt.mpr new)
  constructor
  · exact holds.queue
  · exact fun task executed => Nat.lt_of_lt_of_le (holds.made task executed) grown
  · exact fun task busy notTaken => Nat.lt_of_lt_of_le (holds.handled task busy notTaken) grown
  · exact holds.allocated
  · exact holds.owned
  · exact holds.values
  · exact holds.done
  · exact holds.returned
  · intro task cell present notReturned
    rcases cells task cell present with old | ⟨rfl, new⟩
    · exact holds.ret task cell old notReturned
    · rw [unexecuted task new]
      rfl
  · intro task cell address present ret
    rcases cells task cell present with old | ⟨rfl, new⟩
    · exact holds.retOwned task cell address old ret
    · cases ret
  · intro task cell present
    rcases cells task cell present with old | ⟨rfl, new⟩
    · exact holds.running task cell old
    · constructor
      · intro impossible
        cases impossible
      · intro busy
        exact absurd (holds.handled task busy.1 busy.2) (Nat.not_lt.mpr new)
  · intro task cell present isFinished
    rcases cells task cell present with old | ⟨rfl, new⟩
    · exact holds.finished task cell old isFinished
    · cases isFinished

/-- `free(task->ret)`. -/
theorem consistent_release (holds : Consistent pushes executions machine) (address : Nat)
    (clients : Nat → Within) :
    Consistent pushes executions
      { machine with results := machine.results.release address, clients } := by
  constructor
  · exact holds.queue
  · exact holds.made
  · exact holds.handled
  · intro task other value executed
    rw [Heap.next_release]
    exact holds.allocated task other value executed
  · exact holds.owned
  · intro task other value found executed present
    exact holds.values task other value found executed (Heap.read_of_read_release present).2
  · exact holds.done
  · exact holds.returned
  · exact holds.ret
  · exact holds.retOwned
  · exact holds.running
  · exact holds.finished

theorem consistent_pushed (holds : Consistent pushes executions machine) (task : Nat)
    (clients : Nat → Within)
    (inside : 0 ≤ machine.pool.queueTail ∧
      machine.pool.queueTail.toNat < machine.pool.queue.length) :
    Consistent (Function.update pushes task (pushes task + 1)) executions { machine with
      pool := { machine.pool with
        queue := machine.pool.queue.set machine.pool.queueTail.toNat (some task)
        queueTail := machine.pool.queueTail + 1
        queueCount := machine.pool.queueCount + 1 }
      clients } := by
  obtain ⟨waiting, queued, counts⟩ := holds.queue
  have counted : ∀ other, Function.update pushes task (pushes task + 1) other =
      (executions other).length + (waiting ++ [task]).count other +
        if pending? (place machine) = some other then 1 else 0 := by
    intro other
    have count := counts other
    rw [List.count_append, List.count_singleton]
    by_cases same : other = task
    · subst same
      rw [Function.update_self, count, beq_self_eq_true]
      simp only [if_true]
      omega
    · rw [Function.update_of_ne same, count, beq_false_of_ne (Ne.symm same)]
      rfl
  constructor
  · exact ⟨waiting ++ [task], holds_pushed queued task inside, counted⟩
  · exact holds.made
  · exact holds.handled
  · exact holds.allocated
  · exact holds.owned
  · exact holds.values
  · exact holds.done
  · exact holds.returned
  · exact holds.ret
  · exact holds.retOwned
  · exact holds.running
  · exact holds.finished

theorem consistent_took (holds : Consistent pushes executions machine) {worker task : Nat}
    (unlocked : machine.critical = none) (nonempty : 0 < machine.pool.queueCount)
    (front : machine.pool.queue[machine.pool.queueHead.toNat]? = some (some task)) :
    Consistent pushes executions { machine with
      pool := { machine.pool with
        queueHead := machine.pool.queueHead + 1
        queueCount := machine.pool.queueCount - 1 }
      critical := some (worker, .taken task) } := by
  obtain ⟨waiting, queued, counts⟩ := holds.queue
  obtain ⟨rest, rfl, shorter⟩ := holds_took queued nonempty front
  have free : place machine = .unlocking := by
    rw [place, unlocked]
  constructor
  · refine ⟨rest, shorter, fun other => ?_⟩
    have count := counts other
    rw [free, List.count_cons] at count
    change _ = _ + if some task = some other then 1 else 0
    by_cases same : task = other
    · subst same
      rw [beq_self_eq_true] at count
      rw [if_pos rfl, count]
      rfl
    · rw [beq_false_of_ne same] at count
      rw [if_neg fun equal => same (Option.some.inj equal), count]
      rfl
  · exact holds.made
  · intro other busy notTaken
    cases busy
    exact absurd rfl notTaken
  · exact holds.allocated
  · exact holds.owned
  · exact holds.values
  · intro other impossible
    cases impossible
  · intro other res impossible
    cases impossible
  · intro other cell present _
    apply holds.ret other cell present
    rw [free]
    intro res impossible
    cases impossible
  · exact holds.retOwned
  · intro other cell present
    have running := holds.running other cell present
    rw [free] at running
    rw [running]
    constructor
    · intro inHand
      cases inHand.1
    · intro inHand
      cases inHand.1
      exact absurd rfl inHand.2
  · exact holds.finished

theorem mem_executed {task other : Nat} {res : Option (Nat × Int)} {result : Nat × Int} :
    some result ∈ Function.update executions task (executions task ++ [res]) other ↔
      some result ∈ executions other ∨ (other = task ∧ res = some result) := by
  by_cases same : other = task
  · subst same
    rw [Function.update_self, List.mem_append, List.mem_singleton, @eq_comm _ (some result)]
    simp
  · rw [Function.update_of_ne same]
    simp [same]

theorem executed_ne_nil {task other : Nat} {res : Option (Nat × Int)}
    (nonempty : executions other ≠ []) :
    Function.update executions task (executions task ++ [res]) other ≠ [] := by
  by_cases same : other = task
  · rw [same, Function.update_self]
    exact List.append_ne_nil_of_right_ne_nil _ (List.cons_ne_nil _ _)
  · rwa [Function.update_of_ne same]

section Executed

variable {task : Nat} {results : Heap Int} {res : Option (Nat × Int)}

/-- The `int` of a call is new, so it belongs to no execution before. -/
theorem owned_executed (holds : Consistent pushes executions machine)
    (fresh : ∀ address value, res = some (address, value) → address = machine.results.next)
    {first second address : Nat} {value found : Int}
    (firstIn : some (address, value) ∈
      Function.update executions task (executions task ++ [res]) first)
    (secondIn : some (address, found) ∈
      Function.update executions task (executions task ++ [res]) second) :
    first = second ∧ value = found := by
  rcases mem_executed.mp firstIn with old | ⟨rfl, new⟩
  · have below := holds.allocated first address value old
    rcases mem_executed.mp secondIn with old' | ⟨_, new'⟩
    · exact holds.owned first second address value found old old'
    · have above := fresh address found new'
      omega
  · have above := fresh address value new
    rcases mem_executed.mp secondIn with old' | ⟨rfl, new'⟩
    · have below := holds.allocated second address found old'
      omega
    · rw [new] at new'
      cases new'
      exact ⟨rfl, rfl⟩

theorem values_executed (holds : Consistent pushes executions machine)
    (returned : (res = none ∧ results = machine.results) ∨
      ∃ value, res = some (machine.results.next, value) ∧ results = machine.results.alloc value)
    {other address : Nat} {value found : Int}
    (member : some (address, value) ∈
      Function.update executions task (executions task ++ [res]) other)
    (read : results.read address = some found) : found = value := by
  rcases mem_executed.mp member with old | ⟨_, new⟩
  · have below := holds.allocated other address value old
    rcases returned with ⟨_, same⟩ | ⟨made, _, alloc⟩
    · rw [same] at read
      exact holds.values other address value found old read
    · rw [alloc, Heap.read_alloc_of_ne _ (Nat.ne_of_lt below)] at read
      exact holds.values other address value found old read
  · rcases returned with ⟨none, _⟩ | ⟨made, is, alloc⟩
    · rw [none] at new
      cases new
    · rw [is] at new
      cases new
      rw [alloc, Heap.read_alloc_next] at read
      exact (Option.some.inj read).symm

end Executed

theorem consistent_executed (holds : Consistent pushes executions machine) {worker task : Nat}
    {cell : ThreadTask Nat} {results : Heap Int} {res : Option (Nat × Int)}
    (calling : machine.critical = some (worker, .calling task))
    (present : machine.tasks.read task = some cell)
    (returned : (res = none ∧ results = machine.results) ∨
      ∃ value, res = some (machine.results.next, value) ∧ results = machine.results.alloc value) :
    Consistent pushes (Function.update executions task (executions task ++ [res])) { machine with
      results
      critical := some (worker, .returned task (res.map Prod.fst)) } := by
  have here := place_of_holds calling
  have fresh : ∀ address value, res = some (address, value) → address = machine.results.next ∧
      results = machine.results.alloc value := by
    intro address value same
    rcases returned with ⟨none, _⟩ | ⟨made, is, alloc⟩
    · rw [none] at same
      cases same
    · rw [is] at same
      cases same
      exact ⟨rfl, alloc⟩
  have more : machine.results.next ≤ results.next := by
    rcases returned with ⟨_, same⟩ | ⟨made, _, alloc⟩
    · exact Nat.le_of_eq (congrArg Heap.next same.symm)
    · rw [alloc, Heap.next_alloc]
      exact Nat.le_succ _
  obtain ⟨waiting, queued, counts⟩ := holds.queue
  constructor
  · refine ⟨waiting, queued, fun other => ?_⟩
    have count := counts other
    rw [here] at count
    change _ = _ + _ + 0
    by_cases same : other = task
    · subst same
      rw [Function.update_self, List.length_append, List.length_singleton, count]
      simp only [pending?, if_true]
      omega
    · rw [Function.update_of_ne same, count]
      simp [pending?, Ne.symm same]
  · intro other executed
    by_cases same : other = task
    · rw [same]
      exact Heap.lt_next_of_read present
    · rw [Function.update_of_ne same] at executed
      exact holds.made other executed
  · intro other busy _
    cases busy
    exact Heap.lt_next_of_read present
  · intro other address value member
    rcases mem_executed.mp member with old | ⟨_, new⟩
    · exact Nat.lt_of_lt_of_le (holds.allocated other address value old) more
    · obtain ⟨rfl, alloc⟩ := fresh address value new
      rw [alloc, Heap.next_alloc]
      exact Nat.lt_succ_self _
  · intro first second address value found firstIn secondIn
    exact owned_executed holds (fun address value new => (fresh address value new).1) firstIn secondIn
  · intro other address value found member read
    exact values_executed holds returned member read
  · intro other isTask
    cases isTask
    rw [Function.update_self]
    exact List.append_ne_nil_of_right_ne_nil _ (List.cons_ne_nil _ _)
  · intro other pointer same
    cases same
    rw [Function.update_self, lastResult, List.getLast?_concat]
    rfl
  · intro other found read notReturned
    have different : other ≠ task := by
      intro same
      rw [same] at notReturned
      exact notReturned _ rfl
    rw [Function.update_of_ne different]
    apply holds.ret other found read
    rw [here]
    intro pointer impossible
    cases impossible
  · intro other found address read ret
    obtain ⟨value, member⟩ := holds.retOwned other found address read ret
    exact ⟨value, mem_executed.mpr (.inl member)⟩
  · intro other found read
    have running := holds.running other found read
    rw [here] at running
    rw [running]
    constructor
    · intro inHand
      exact ⟨inHand.1, nofun⟩
    · intro inHand
      exact ⟨inHand.1, nofun⟩
  · intro other found read isFinished
    exact executed_ne_nil (holds.finished other found read isFinished)

theorem access_cases {before after : Place} {cell changed : ThreadTask Nat} {task : Nat}
    (isTask : before.task? = some task) (access : Access cell before changed after) :
    (before = .taken task ∧ after = .calling task ∧ changed = { cell with isRunning := true }) ∨
      (∃ res, before = .returned task res ∧ after = .stored task ∧
        changed = { cell with ret := res }) ∨
      (before = .stored task ∧ after = .finished task ∧
        changed = { cell with isFinished := true }) ∨
      before = .finished task ∧ after = .unlocking ∧ changed = { cell with isRunning := false } := by
  cases access with
  | running =>
      cases isTask
      exact .inl ⟨rfl, rfl, rfl⟩
  | stored =>
      cases isTask
      exact .inr (.inl ⟨_, rfl, rfl, rfl⟩)
  | finished =>
      cases isTask
      exact .inr (.inr (.inl ⟨rfl, rfl, rfl⟩))
  | cleared =>
      cases isTask
      exact .inr (.inr (.inr ⟨rfl, rfl, rfl⟩))

section Accessed

variable {task other : Nat} {before after : Place} {cell changed found : ThreadTask Nat}

theorem ret_accessed (holds : Consistent pushes executions machine) (here : place machine = before)
    (isTask : before.task? = some task) (present : machine.tasks.read task = some cell)
    (access : Access cell before changed after)
    (read : (machine.tasks.write task changed).read other = some found) :
    found.ret = lastResult (executions other) := by
  rcases Heap.read_write_cases present read with ⟨rfl, rfl⟩ | ⟨different, old⟩
  · rcases access_cases isTask access with ⟨rfl, _, rfl⟩ | ⟨res, rfl, _, rfl⟩ | ⟨rfl, _, rfl⟩ |
      ⟨rfl, _, rfl⟩
    · exact holds.ret other cell present (by rw [here]; nofun)
    · exact holds.returned other res here
    · exact holds.ret other cell present (by rw [here]; nofun)
    · exact holds.ret other cell present (by rw [here]; nofun)
  · apply holds.ret other found old
    rw [here]
    intro res isReturned
    rw [isReturned] at isTask
    cases isTask
    exact different rfl

theorem ret_owned_accessed (holds : Consistent pushes executions machine)
    (here : place machine = before) (isTask : before.task? = some task)
    (present : machine.tasks.read task = some cell) (access : Access cell before changed after)
    (read : (machine.tasks.write task changed).read other = some found) {address : Nat}
    (ret : found.ret = some address) : ∃ value, some (address, value) ∈ executions other := by
  rcases Heap.read_write_cases present read with ⟨rfl, rfl⟩ | ⟨different, old⟩
  · rcases access_cases isTask access with ⟨rfl, _, rfl⟩ | ⟨res, rfl, _, rfl⟩ | ⟨rfl, _, rfl⟩ |
      ⟨rfl, _, rfl⟩
    · exact holds.retOwned other cell address present ret
    · have pointer : res = some address := ret
      rw [holds.returned other res here] at pointer
      exact mem_of_last_result pointer
    · exact holds.retOwned other cell address present ret
    · exact holds.retOwned other cell address present ret
  · exact holds.retOwned other found address old ret

/-- `is_running` tells whether the task is in hand and was already marked. -/
theorem running_accessed (holds : Consistent pushes executions machine)
    (here : place machine = before) (isTask : before.task? = some task)
    (present : machine.tasks.read task = some cell) (access : Access cell before changed after)
    (read : (machine.tasks.write task changed).read other = some found) :
    found.isRunning = true ↔ after.task? = some other ∧ after ≠ .taken other := by
  have cases := access_cases isTask access
  rcases Heap.read_write_cases present read with ⟨rfl, rfl⟩ | ⟨different, old⟩
  · have running := holds.running other cell present
    rw [here] at running
    rcases cases with ⟨_, rfl, rfl⟩ | ⟨res, rfl, rfl, rfl⟩ | ⟨rfl, rfl, rfl⟩ | ⟨_, rfl, rfl⟩
    · exact ⟨fun _ => ⟨rfl, nofun⟩, fun _ => rfl⟩
    · exact ⟨fun _ => ⟨rfl, nofun⟩, fun _ => running.mpr ⟨rfl, nofun⟩⟩
    · exact ⟨fun _ => ⟨rfl, nofun⟩, fun _ => running.mpr ⟨rfl, nofun⟩⟩
    · exact ⟨nofun, fun inHand => nomatch inHand.1⟩
  · have running := holds.running other found old
    rw [here, isTask] at running
    constructor
    · intro isRunning
      exact absurd (Option.some.inj (running.mp isRunning).1).symm different
    · intro inHand
      have busy := inHand.1
      rcases cases with ⟨_, rfl, _⟩ | ⟨res, _, rfl, _⟩ | ⟨_, rfl, _⟩ | ⟨_, rfl, _⟩
      · exact absurd (Option.some.inj busy).symm different
      · exact absurd (Option.some.inj busy).symm different
      · exact absurd (Option.some.inj busy).symm different
      · cases busy

theorem finished_accessed (holds : Consistent pushes executions machine)
    (here : place machine = before) (isTask : before.task? = some task)
    (present : machine.tasks.read task = some cell) (access : Access cell before changed after)
    (read : (machine.tasks.write task changed).read other = some found)
    (isFinished : found.isFinished = true) : executions other ≠ [] := by
  rcases Heap.read_write_cases present read with ⟨rfl, rfl⟩ | ⟨different, old⟩
  · rcases access_cases isTask access with ⟨_, _, rfl⟩ | ⟨res, _, _, rfl⟩ | ⟨rfl, _, _⟩ | ⟨_, _, rfl⟩
    · exact holds.finished other cell present isFinished
    · exact holds.finished other cell present isFinished
    · exact holds.done other (by rw [here]; rfl)
    · exact holds.finished other cell present isFinished
  · exact holds.finished other found old isFinished

end Accessed

theorem consistent_accessed (holds : Consistent pushes executions machine) {worker task : Nat}
    {before after : Place} {cell changed : ThreadTask Nat}
    (held : machine.critical = some (worker, before)) (isTask : before.task? = some task)
    (present : machine.tasks.read task = some cell) (access : Access cell before changed after) :
    Consistent pushes executions ((machine.store task changed).holding worker after) := by
  have here := place_of_holds held
  have inside := Heap.lt_next_of_read present
  have cases := access_cases isTask access
  obtain ⟨waiting, queued, counts⟩ := holds.queue
  constructor
  · refine ⟨waiting, queued, fun other => ?_⟩
    have count := counts other
    rw [here] at count
    rw [count]
    change _ + (if pending? before = some other then 1 else 0) =
      _ + if pending? after = some other then 1 else 0
    rcases cases with ⟨rfl, rfl, _⟩ | ⟨res, rfl, rfl, _⟩ | ⟨rfl, rfl, _⟩ | ⟨rfl, rfl, _⟩
    all_goals rfl
  · intro other executed
    change other < (machine.tasks.write task changed).next
    rw [Heap.next_write]
    exact holds.made other executed
  · intro other busy _
    have same : after.task? = some other := busy
    change other < (machine.tasks.write task changed).next
    rw [Heap.next_write]
    rcases cases with ⟨_, rfl, _⟩ | ⟨res, _, rfl, _⟩ | ⟨_, rfl, _⟩ | ⟨_, rfl, _⟩
    · cases same
      exact inside
    · cases same
      exact inside
    · cases same
      exact inside
    · cases same
  · exact holds.allocated
  · exact holds.owned
  · exact holds.values
  · intro other executedPlace
    have same : executed? after = some other := executedPlace
    apply holds.done other
    rw [here]
    rcases cases with ⟨rfl, rfl, _⟩ | ⟨res, rfl, rfl, _⟩ | ⟨rfl, rfl, _⟩ | ⟨rfl, rfl, _⟩
    · cases same
    · exact same
    · exact same
    · cases same
  · intro other res same
    have place : after = .returned other res := same
    rcases cases with ⟨_, rfl, _⟩ | ⟨_, _, rfl, _⟩ | ⟨_, rfl, _⟩ | ⟨_, rfl, _⟩
    all_goals cases place
  · intro other found read _
    exact ret_accessed holds here isTask present access read
  · intro other found address read ret
    exact ret_owned_accessed holds here isTask present access read ret
  · intro other found read
    exact running_accessed holds here isTask present access read
  · intro other found read isFinished
    exact finished_accessed holds here isTask present access read isFinished

end Steps

/-! ## Runs -/

theorem quiet_moves {machine : Machine} {client : Nat} {step : Step} {report : Report}
    {before after : Within} (moves : Moves machine client step report before after) :
    isQuiet report = true := by
  cases moves
  all_goals rfl

theorem quiet_stays {machine : Machine} {step : Step} {report : Report}
    (stays : Stays machine step report) : isQuiet report = true := by
  cases stays
  all_goals rfl

abbrev Tracks (history : History) (machine : Machine) : Prop :=
  Consistent (pushesOf history) (executionsOf history) machine

theorem tracks_quiet {history : History} {machine : Machine} {step : Step} {report : Report}
    (quiet : isQuiet report = true)
    (holds : Consistent (pushesOf history) (executionsOf history) machine) :
    Tracks (history ++ [⟨step, report⟩]) machine := by
  rw [Tracks, pushes_quiet quiet, executions_quiet quiet]
  exact holds

theorem tracks_executed {history : History} {machine : Machine} {step : Step} {task : Nat}
    {res : Option (Nat × Int)}
    (holds : Consistent (pushesOf history)
      (Function.update (executionsOf history) task (executionsOf history task ++ [res])) machine) :
    Tracks (history ++ [⟨step, .executed task res⟩]) machine := by
  rw [Tracks, pushes_executed, executions_executed]
  exact holds

theorem tracks_step {history : History} {machine next : Machine} {step : Step} {report : Report}
    (holds : Tracks history machine) (effect : Effect machine step report next) :
    Tracks (history ++ [⟨step, report⟩]) next := by
  cases effect with
  | created alive =>
      apply tracks_quiet rfl
      refine consistent_same holds ?_ rfl rfl rfl
      intro waiting queued
      exact ⟨queued.length, queued.head, queued.tail, queued.bound, queued.count, queued.cells⟩
  | made =>
      apply tracks_quiet rfl
      apply consistent_tasks holds machine.clients
      · rw [Heap.next_alloc]
        exact Nat.le_succ _
      · intro task cell present
        by_cases new : task = machine.tasks.next
        · rw [new, Heap.read_alloc_next] at present
          exact .inr ⟨(Option.some.inj present).symm, Nat.le_of_eq new.symm⟩
        · rw [Heap.read_alloc_of_ne _ new] at present
          exact .inl present
  | poolFreed alive =>
      apply tracks_quiet rfl
      exact consistent_same holds (fun _ queued => queued) rfl rfl rfl
  | stays stays => exact tracks_quiet (quiet_stays stays) holds
  | moved place moves =>
      apply tracks_quiet (quiet_moves moves)
      exact consistent_same holds (fun _ queued => queued) rfl rfl rfl
  | pushed place alive unlocked inside =>
      rw [Tracks, pushes_pushed, executions_pushed]
      exact consistent_pushed holds _ _ inside
  | joinedNull place present ret =>
      apply tracks_quiet rfl
      exact consistent_same holds (fun _ queued => queued) rfl rfl rfl
  | joined place present ret result =>
      apply tracks_quiet rfl
      exact consistent_release holds _ _
  | freed place present =>
      apply tracks_quiet rfl
      apply consistent_tasks holds
      · exact Nat.le_of_eq (Heap.next_release _ _).symm
      · exact fun task cell present => .inl (Heap.read_of_read_release present).2
  | took unlocked present runs alive nonempty nonneg front =>
      apply tracks_quiet rfl
      exact consistent_took holds unlocked nonempty front
  | idle unlocked present runs alive empty =>
      apply tracks_quiet rfl
      refine consistent_same holds (fun _ queued => queued) ?_ rfl rfl
      rw [place, place, unlocked]
      rfl
  | executedNull calling present =>
      apply tracks_executed
      exact consistent_executed holds calling present (.inl ⟨rfl, rfl⟩)
  | executed calling present =>
      apply tracks_executed
      exact consistent_executed holds calling present (.inr ⟨_, rfl, rfl⟩)
  | accessed held isTask present access =>
      apply tracks_quiet rfl
      exact consistent_accessed holds held isTask present access
  | unlocked held alive present =>
      apply tracks_quiet rfl
      refine consistent_same holds (fun _ queued => queued) ?_ rfl rfl
      rw [place, place, held]

/-- Every interleaving of every calls is consistent. -/
theorem run_tracks {allowed : History → Machine → Step → Prop} {maxThreadCount : Int}
    {history : History} {machine : Machine}
    (run : Run perform allowed (start (newPool Nat maxThreadCount)) history machine) :
    Tracks history machine := by
  apply run_invariant Tracks _ _ run
  · exact consistent_initial maxThreadCount
  · intro history machine step report next holds _ performed
    exact tracks_step holds (perform_effect performed)

theorem waits_iff {machine : Machine} {waiting : List Nat} (queued : Holds machine.pool waiting)
    (task : Nat) : Waits machine task ↔ task ∈ waiting := by
  unfold Waits
  rw [queued.cells]
  constructor
  · intro waits
    obtain ⟨other, member, same⟩ := List.mem_map.mp waits
    cases same
    exact member
  · intro member
    exact List.mem_map_of_mem member

/-- When a task is not in use, every push of it has been executed. -/
theorem executed_of_unused {pushes : Nat → Nat} {executions : Nat → List (Option (Nat × Int))}
    {machine : Machine} {task : Nat} (holds : Consistent pushes executions machine)
    (unused : ¬ InUse machine task) : pushes task = (executions task).length := by
  obtain ⟨waiting, queued, counts⟩ := holds.queue
  have notWaiting : task ∉ waiting := by
    intro member
    apply unused
    apply Or.inl
    exact (waits_iff queued task).mpr member
  have notPending : pending? (place machine) ≠ some task := by
    intro pending
    apply unused
    apply Or.inr
    cases here : place machine with
    | taken other => rwa [here] at pending
    | calling other => rwa [here] at pending
    | _ =>
        rw [here] at pending
        cases pending
  rw [counts, List.count_eq_zero_of_not_mem notWaiting, if_neg notPending]
  rfl

end Sysprog.Threads.AccessInvariants
