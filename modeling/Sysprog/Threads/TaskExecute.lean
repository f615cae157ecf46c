import Sysprog.Threads.Deliveries

/-!
# Starting the workers

`thread_task_execute` step by step, with its calls of `pthread_create`
succeeding or not while workers and clients go on. It creates a worker for
every handle in each call, counts over all calls, and frees the pool when the
count is not `threads_size`; then it reads `tp->threads`.
-/

namespace Sysprog.Threads.TaskExecute

open CheckedRuns Pool Deliveries

set_option autoImplicit false

inductive Place where
  | outside
  /-- in its loop, with this `i` -/
  | creating (index : Nat)
  /-- before `free(tp)` -/
  | freeing
  /-- before `free(tp->threads)` -/
  | freeingThreads
  deriving DecidableEq

/-- The handle of a worker is its number; `threads` has `none` where nothing
was stored. -/
structure Machine (Task Value : Type) where
  system : System Task Value
  threads : List (Option Nat)
  poolFreed : Bool
  place : Place

/-- The result of a `pthread_create`. One that fails leaves anything behind
its pointer. -/
inductive Creation where
  | started
  | failed (left : Option Nat)
  deriving DecidableEq

inductive Step (Task Value : Type) where
  /-- A client calls `thread_task_execute`. -/
  | execute
  | create (creation : Creation)
  /-- The client goes on behind its loop. -/
  | advance
  /-- A step of a worker or of `thread_pool_push_task`. -/
  | other (action : Action Task Value)

inductive Report (Task : Type) where
  | silent
  | returned (code : Int)
  | other (outcome : Outcome Task)
  deriving DecidableEq

inductive Fault where
  | notEnabled
  | outOfRange
  | freedPool
  | other (fault : Pool.Fault)
  deriving DecidableEq

variable {Task Value : Type}

def createThread (machine : Machine Task Value) (index : Nat) :
    Creation → Machine Task Value
  | .started => { machine with
      system := { machine.system with
        pool := { machine.system.pool with
          threadCount := machine.system.pool.threadCount + 1 }
        workers := machine.system.workers ++ [⟨0, false⟩] }
      threads := machine.threads.set index (some machine.system.workers.length)
      place := .creating (index + 1) }
  | .failed left => { machine with
      threads := machine.threads.set index left
      place := .creating (index + 1) }

def InLoop (machine : Machine Task Value) (index : Nat) : Prop :=
  (index : Int) < machine.system.pool.threadsSize

instance (machine : Machine Task Value) (index : Nat) : Decidable (InLoop machine index) :=
  inferInstanceAs (Decidable ((index : Int) < machine.system.pool.threadsSize))

def createStep (machine : Machine Task Value) (creation : Creation) :
    Except Fault (Report Task × Machine Task Value) :=
  match machine.place with
  | .creating index =>
      if machine.poolFreed then .error .freedPool
      else if InLoop machine index then
        if index < machine.threads.length then .ok (.silent, createThread machine index creation)
        else .error .outOfRange
      else .error .notEnabled
  | _ => .error .notEnabled

def advanceStep (machine : Machine Task Value) :
    Except Fault (Report Task × Machine Task Value) :=
  match machine.place with
  | .outside => .error .notEnabled
  | .creating index =>
      if machine.poolFreed then .error .freedPool
      else if InLoop machine index then .error .notEnabled
      else if machine.system.pool.threadCount ≠ machine.system.pool.threadsSize then
        .ok (.silent, { machine with place := .freeing })
      else .ok (.returned 0, { machine with place := .outside })
  | .freeing =>
      if machine.poolFreed then .error .freedPool
      else .ok (.silent, { machine with
        poolFreed := true
        place := .freeingThreads })
  | .freeingThreads =>
      if machine.poolFreed then .error .freedPool
      else .ok (.returned tpoolErrInvalidArgument, { machine with place := .outside })

def useOf (machine : Machine Task Value) :
    Except Pool.Fault (Outcome Task × System Task Value) →
      Except Fault (Report Task × Machine Task Value)
  | .error .notEnabled => .error .notEnabled
  | .error fault => if machine.poolFreed then .error .freedPool else .error (.other fault)
  | .ok (outcome, system) =>
      if machine.poolFreed then .error .freedPool
      else .ok (.other outcome, { machine with system := system })

section Steps

variable [DecidableEq Task]

def otherStep (machine : Machine Task Value) (action : Action Task Value) :
    Except Fault (Report Task × Machine Task Value) :=
  match action with
  | .create => .error .notEnabled
  | _ => useOf machine (Pool.perform machine.system action)

def perform (machine : Machine Task Value) :
    Step Task Value → Except Fault (Report Task × Machine Task Value)
  | .execute =>
      if machine.place = .outside then .ok (.silent, { machine with place := .creating 0 })
      else .error .notEnabled
  | .create creation => createStep machine creation
  | .advance => advanceStep machine
  | .other action => otherStep machine action

def start (pool : ThreadPool Task) : Machine Task Value where
  system := Pool.start pool
  threads := List.replicate pool.threadsSize.toNat none
  poolFreed := false
  place := .outside

abbrev History (Task Value : Type) := List (Event (Step Task Value) (Report Task))

end Steps

/-! ## What a call leaves behind -/

def Runs (machine : Machine Task Value) (worker : Nat) : Prop :=
  ∃ thread, machine.system.workers[worker]? = some thread ∧ thread.exited = false

instance (machine : Machine Task Value) (worker : Nat) : Decidable (Runs machine worker) :=
  decidable_of_iff (machine.system.workers[worker]?.any (!·.exited)) (by
    unfold Runs
    cases machine.system.workers[worker]? <;> simp)

/-- The running workers whose handles are kept. -/
def heldWorkers (machine : Machine Task Value) : List Nat :=
  (List.range machine.system.workers.length).filter
    fun worker => Runs machine worker ∧ some worker ∈ machine.threads

/-- What is asked of the pool when a call returns. -/
structure Consistent (machine : Machine Task Value) : Prop where
  count : machine.system.pool.threadCount = (heldWorkers machine).length
  bound : machine.system.pool.threadCount ≤ machine.system.pool.threadsSize

/-- No worker uses a pool that was freed. -/
def FreedUnused (machine : Machine Task Value) : Prop :=
  machine.poolFreed = true → ∀ worker, ¬ Runs machine worker

def NoneExited (machine : Machine Task Value) : Prop :=
  ∀ worker < machine.system.workers.length, Runs machine worker

/-- `pthread_create` succeeds as long as there are fewer workers than handles
and then fails without touching the handle, and no worker has exited when a
call comes to its end. -/
def FillsHandles (machine : Machine Task Value) : Step Task Value → Prop
  | .create .started => machine.system.pool.threadCount < machine.system.pool.threadsSize
  | .create (.failed left) =>
      machine.system.pool.threadsSize ≤ machine.system.pool.threadCount ∧
        ∀ index, machine.place = .creating index → machine.threads[index]? = some left
  | .advance => NoneExited machine
  | _ => True

/-- How far the calls are: every handle behind the loop's index is still to be
filled by a first call and has its worker in a later one. -/
def OnTrack (pool : ThreadPool Task) : Place → Prop
  | .outside => pool.threadCount = 0 ∨ pool.threadCount = pool.threadsSize
  | .creating index => (index : Int) ≤ pool.threadsSize ∧
      (pool.threadCount = index ∨ pool.threadCount = pool.threadsSize)
  | .freeing => False
  | .freeingThreads => False

structure Filled (machine : Machine Task Value) : Prop where
  live : machine.poolFreed = false
  handles : machine.threads.length = machine.system.pool.threadsSize.toNat
  workers : machine.system.pool.threadCount = machine.system.workers.length
  bound : machine.system.pool.threadCount ≤ machine.system.pool.threadsSize
  kept : ∀ worker < machine.system.workers.length, machine.threads[worker]? = some (some worker)
  track : OnTrack machine.system.pool machine.place

theorem held_all_iff {machine : Machine Task Value} (filled : Filled machine) :
    machine.system.pool.threadCount = (heldWorkers machine).length ↔ NoneExited machine := by
  have all : (heldWorkers machine).length = (List.range machine.system.workers.length).length ↔
      NoneExited machine := by
    unfold heldWorkers
    rw [List.length_filter_eq_length_iff]
    constructor
    · intro held worker inside
      have both := held worker (List.mem_range.mpr inside)
      exact (of_decide_eq_true both).1
    · intro running worker inside
      have below := List.mem_range.mp inside
      have kept := List.mem_of_getElem? (filled.kept worker below)
      exact decide_eq_true ⟨running worker below, kept⟩
  rw [← all, List.length_range, filled.workers]
  constructor
  · intro equal
    exact (Int.ofNat_inj.mp equal).symm
  · intro equal
    exact congrArg Int.ofNat equal.symm

theorem filled_start {maxThreadCount : Int} (valid : 1 ≤ maxThreadCount) :
    Filled (start (newPool Task maxThreadCount) : Machine Task Value) := by
  constructor
  · rfl
  · exact List.length_replicate
  · rfl
  · change (0 : Int) ≤ maxThreadCount
    omega
  · intro worker inside
    exact absurd inside (Nat.not_lt_zero _)
  · exact .inl rfl

theorem filled_started {machine : Machine Task Value} {index : Nat} (filled : Filled machine)
    (place : machine.place = .creating index)
    (few : machine.system.pool.threadCount < machine.system.pool.threadsSize) :
    Filled (createThread machine index .started) := by
  have track := filled.track
  rw [place] at track
  obtain ⟨inside, first | later⟩ := track
  · have workers := filled.workers
    have same : machine.system.workers.length = index := by omega
    have room : index < machine.threads.length := by
      rw [filled.handles]
      omega
    refine ⟨filled.live, ?_, ?_, ?_, ?_, ?_, ?_⟩
    · exact List.length_set.trans filled.handles
    · change machine.system.pool.threadCount + 1 = ((machine.system.workers ++ [_]).length : Nat)
      rw [List.length_append, List.length_singleton]
      omega
    · change machine.system.pool.threadCount + 1 ≤ machine.system.pool.threadsSize
      omega
    · intro worker below
      change worker < (machine.system.workers ++ [_]).length at below
      change (machine.threads.set index (some machine.system.workers.length))[worker]? = _
      rw [List.length_append, List.length_singleton] at below
      by_cases last : worker = index
      · rw [last, List.getElem?_set_self room, same]
      · rw [List.getElem?_set_ne (Ne.symm last)]
        exact filled.kept worker (by omega)
    · change ((index + 1 : Nat) : Int) ≤ machine.system.pool.threadsSize
      omega
    · left
      change machine.system.pool.threadCount + 1 = ((index + 1 : Nat) : Int)
      omega
  · omega

theorem filled_failed {machine : Machine Task Value} {index : Nat} {left : Option Nat}
    (filled : Filled machine) (inLoop : InLoop machine index)
    (full : machine.system.pool.threadsSize ≤ machine.system.pool.threadCount)
    (untouched : machine.threads[index]? = some left) :
    Filled (createThread machine index (.failed left)) := by
  have same : machine.threads.set index left = machine.threads := by
    obtain ⟨room, cell⟩ := List.getElem?_eq_some_iff.mp untouched
    rw [← cell, List.set_getElem_self room]
  have bound := filled.bound
  have inside : (index : Int) < machine.system.pool.threadsSize := inLoop
  refine ⟨filled.live, ?_, filled.workers, bound, ?_, ?_, ?_⟩
  · exact List.length_set.trans filled.handles
  · intro worker below
    change (machine.threads.set index left)[worker]? = _
    rw [same]
    exact filled.kept worker below
  · change ((index + 1 : Nat) : Int) ≤ machine.system.pool.threadsSize
    omega
  · right
    change machine.system.pool.threadCount = machine.system.pool.threadsSize
    omega

theorem create_ok {machine next : Machine Task Value} {creation : Creation}
    {report : Report Task} (created : createStep machine creation = .ok (report, next)) :
    ∃ index, machine.place = .creating index ∧ machine.poolFreed = false ∧
      InLoop machine index ∧ report = .silent ∧ next = createThread machine index creation := by
  unfold createStep at created
  cases place : machine.place with
  | creating index =>
      simp only [place] at created
      split_ifs at created with freed inLoop inside
      cases created
      exact ⟨index, rfl, by simpa using freed, inLoop, rfl, rfl⟩
  | _ => simp [place] at created

/-- What the client can have done behind its loop. -/
inductive Advances (machine : Machine Task Value) : Report Task → Machine Task Value → Prop where
  | short {index : Nat} (place : machine.place = .creating index) (past : ¬ InLoop machine index)
      (count : machine.system.pool.threadCount ≠ machine.system.pool.threadsSize) :
      Advances machine .silent { machine with place := .freeing }
  | complete {index : Nat} (place : machine.place = .creating index)
      (past : ¬ InLoop machine index)
      (count : machine.system.pool.threadCount = machine.system.pool.threadsSize) :
      Advances machine (.returned 0) { machine with place := .outside }
  | freed (place : machine.place = .freeing) :
      Advances machine .silent { machine with
        poolFreed := true
        place := .freeingThreads }
  | threadsFreed (place : machine.place = .freeingThreads) (live : machine.poolFreed = false) :
      Advances machine (.returned tpoolErrInvalidArgument) { machine with place := .outside }

theorem advance_ok {machine next : Machine Task Value} {report : Report Task}
    (advanced : advanceStep machine = .ok (report, next)) : Advances machine report next := by
  unfold advanceStep at advanced
  cases place : machine.place with
  | outside => simp [place] at advanced
  | creating index =>
      simp only [place] at advanced
      split_ifs at advanced with freed inLoop short
      · cases advanced
        exact .short place inLoop short
      · cases advanced
        exact .complete place inLoop (not_not.mp short)
  | freeing =>
      simp only [place] at advanced
      split_ifs at advanced with freed
      cases advanced
      exact .freed place
  | freeingThreads =>
      simp only [place] at advanced
      split_ifs at advanced with freed
      cases advanced
      exact .threadsFreed place (by simpa using freed)

theorem filled_create {machine next : Machine Task Value} {creation : Creation}
    {report : Report Task} (filled : Filled machine)
    (permitted : FillsHandles machine (.create creation))
    (created : createStep machine creation = .ok (report, next)) : Filled next := by
  obtain ⟨index, place, _, inLoop, _, rfl⟩ := create_ok created
  cases creation with
  | started => exact filled_started filled place permitted
  | failed left => exact filled_failed filled inLoop permitted.1 (permitted.2 index place)

theorem filled_advance {machine next : Machine Task Value} {report : Report Task}
    (filled : Filled machine) (advanced : advanceStep machine = .ok (report, next)) :
    next = { machine with place := .outside } ∧ Filled next := by
  have track := filled.track
  cases advance_ok advanced with
  | short place past count =>
      rw [place] at track
      obtain ⟨inside, counted⟩ := track
      unfold InLoop at past
      omega
  | complete place past count =>
      exact ⟨rfl, filled.live, filled.handles, filled.workers, filled.bound, filled.kept,
        .inr count⟩
  | freed place =>
      rw [place] at track
      exact track.elim
  | threadsFreed place live =>
      rw [place] at track
      exact track.elim

theorem used_ok {machine next : Machine Task Value} {report : Report Task}
    {result : Except Pool.Fault (Outcome Task × System Task Value)}
    (used : useOf machine result = .ok (report, next)) :
    ∃ outcome system, result = .ok (outcome, system) ∧
      report = .other outcome ∧ next = { machine with system := system } := by
  cases result with
  | error fault =>
      cases freed : machine.poolFreed <;> cases fault <;> simp [useOf, freed] at used
  | ok done =>
      unfold useOf at used
      split_ifs at used with freed
      cases used
      exact ⟨done.1, done.2, rfl, rfl, rfl⟩

/-- A `pthread_create` that fails before the handles are filled, or succeeds
when they are. -/
def Misses (machine : Machine Task Value) : Creation → Prop
  | .started => machine.system.pool.threadsSize ≤ machine.system.pool.threadCount
  | .failed _ => machine.system.pool.threadCount < machine.system.pool.threadsSize

def Lost (machine : Machine Task Value) : Prop :=
  match machine.place with
  | .outside => False
  | .creating index => (index : Int) ≤ machine.system.pool.threadsSize ∧
      (machine.system.pool.threadCount < index ∨
        machine.system.pool.threadsSize < machine.system.pool.threadCount)
  | .freeing => True
  | .freeingThreads => machine.poolFreed = true

theorem lost_of_misses {machine : Machine Task Value} {index : Nat} {creation : Creation}
    (filled : Filled machine) (place : machine.place = .creating index)
    (inLoop : InLoop machine index) (misses : Misses machine creation) :
    Lost (createThread machine index creation) := by
  have track := filled.track
  rw [place] at track
  obtain ⟨inside, counted⟩ := track
  unfold InLoop at inLoop
  cases creation <;> simp only [Misses] at misses <;> simp only [Lost, createThread] <;>
    push_cast <;> omega

variable [DecidableEq Task]

theorem other_ok {machine next : Machine Task Value} {action : Action Task Value}
    {report : Report Task} (performed : otherStep machine action = .ok (report, next)) :
    action ≠ .create ∧ ∃ outcome system,
      Pool.perform machine.system action = .ok (outcome, system) ∧
        report = .other outcome ∧ next = { machine with system := system } := by
  cases action with
  | create => cases performed
  | push client task => exact ⟨nofun, used_ok performed⟩
  | enqueue client => exact ⟨nofun, used_ok performed⟩
  | iterate worker returned => exact ⟨nofun, used_ok performed⟩

theorem effect_counts {system next : System Task Value} {action : Action Task Value}
    {outcome : Outcome Task} (effect : Effect system action outcome next)
    (other : action ≠ .create) :
    next.pool.threadCount = system.pool.threadCount ∧
      next.pool.threadsSize = system.pool.threadsSize ∧
      next.workers.length = system.workers.length := by
  cases effect with
  | created => exact absurd rfl other
  | refused full => exact ⟨rfl, rfl, rfl⟩
  | waiting fits => exact ⟨rfl, rfl, rfl⟩
  | stored pending inside => exact ⟨rfl, rfl, rfl⟩
  | executed nonempty nonneg front => exact ⟨rfl, rfl, List.length_set⟩
  | idle empty => exact ⟨rfl, rfl, List.length_set⟩

theorem filled_other {machine : Machine Task Value} {system : System Task Value}
    {action : Action Task Value} {outcome : Outcome Task} (filled : Filled machine)
    (other : action ≠ .create)
    (performed : Pool.perform machine.system action = .ok (outcome, system)) :
    Filled { machine with system := system } := by
  obtain ⟨count, size, workers⟩ := effect_counts (perform_effect performed) other
  have track := filled.track
  refine ⟨filled.live, ?_, ?_, ?_, ?_, ?_⟩
  · exact filled.handles.trans (congrArg Int.toNat size.symm)
  · exact (count.trans filled.workers).trans (congrArg Int.ofNat workers.symm)
  · have bound := filled.bound
    dsimp only
    omega
  · intro worker below
    exact filled.kept worker (Nat.lt_of_lt_of_eq below workers)
  · cases place : machine.place <;> simp only [place, OnTrack, count, size] at track ⊢ <;>
      exact track

theorem filled_step {machine next : Machine Task Value} {step : Step Task Value}
    {report : Report Task} (filled : Filled machine) (permitted : FillsHandles machine step)
    (performed : perform machine step = .ok (report, next)) : Filled next := by
  cases step with
  | execute =>
      unfold perform at performed
      split_ifs at performed with outside
      cases performed
      have track := filled.track
      have bound := filled.bound
      have workers := filled.workers
      rw [outside] at track
      refine ⟨filled.live, filled.handles, filled.workers, filled.bound, filled.kept, ?_, track⟩
      dsimp only
      omega
  | create creation => exact filled_create filled permitted performed
  | advance => exact (filled_advance filled performed).2
  | other action =>
      obtain ⟨notCreate, outcome, system, done, _, rfl⟩ := other_ok performed
      exact filled_other filled notCreate done

omit [DecidableEq Task] in
theorem used_freed {machine : Machine Task Value}
    {result : Except Pool.Fault (Outcome Task × System Task Value)}
    (fault : useOf machine result = .error .freedPool) : machine.poolFreed = true := by
  cases freed : machine.poolFreed with
  | true => rfl
  | false =>
      cases result with
      | error poolFault => cases poolFault <;> simp [useOf, freed] at fault
      | ok done => simp [useOf, freed] at fault

theorem freed_of_fault {machine : Machine Task Value} {step : Step Task Value}
    (fault : perform machine step = .error .freedPool) : machine.poolFreed = true := by
  cases step with
  | execute =>
      simp only [perform] at fault
      split_ifs at fault
      cases fault
  | create creation =>
      unfold perform createStep at fault
      cases place : machine.place with
      | creating index =>
          simp only [place] at fault
          split_ifs at fault with freed inLoop inside
          · exact freed
          · cases fault
          · cases fault
      | _ => simp [place] at fault
  | advance =>
      unfold perform advanceStep at fault
      cases place : machine.place with
      | outside => simp [place] at fault
      | creating index =>
          simp only [place] at fault
          split_ifs at fault with freed inLoop
          · exact freed
          · cases fault
      | _ =>
          simp only [place] at fault
          split_ifs at fault with freed
          exact freed
  | other action =>
      cases action with
      | create => cases fault
      | _ => exact used_freed fault

/-- A call that returns leaves the count right exactly when no worker has
exited meanwhile. -/
theorem returned_iff {machine next : Machine Task Value} {step : Step Task Value} {code : Int}
    (filled : Filled machine) (performed : perform machine step = .ok (.returned code, next)) :
    Consistent next ↔ FillsHandles machine step := by
  cases step with
  | execute =>
      unfold perform at performed
      split_ifs at performed with outside
      cases performed
  | create creation =>
      obtain ⟨_, _, _, _, silent, _⟩ := create_ok performed
      cases silent
  | advance =>
      obtain ⟨rfl, after⟩ := filled_advance filled performed
      constructor
      · intro consistent
        exact (held_all_iff after).mp consistent.count
      · intro running
        exact ⟨(held_all_iff after).mpr running, after.bound⟩
  | other action =>
      obtain ⟨_, outcome, system, _, other, _⟩ := other_ok performed
      cases other

theorem run_filled {maxThreadCount : Int} {pool : ThreadPool Task}
    {history : History Task Value} {machine : Machine Task Value}
    (created : threadPoolNew Task maxThreadCount = .ok pool)
    (run : Run perform (fun _ => FillsHandles) (start pool) history machine) :
    Filled machine := by
  obtain ⟨rfl, valid⟩ := thread_pool_new_ok created
  refine run_invariant (fun _ machine => Filled machine) (filled_start valid.1) ?_ run
  intro history before step report after filled permitted performed
  exact filled_step filled permitted performed

/-! ## Calls that go wrong -/

theorem lost_step {machine next : Machine Task Value} {step : Step Task Value}
    {report : Report Task} (lost : Lost machine)
    (performed : perform machine step = .ok (report, next)) :
    Lost next ∧ ∀ code, report ≠ .returned code := by
  cases step with
  | execute =>
      simp only [perform] at performed
      split_ifs at performed with outside
      simp only [Lost, outside] at lost
  | create creation =>
      obtain ⟨index, place, _, inLoop, rfl, rfl⟩ := create_ok performed
      simp only [Lost, place] at lost
      unfold InLoop at inLoop
      refine ⟨?_, nofun⟩
      cases creation <;> simp only [Lost, createThread] <;> push_cast <;> omega
  | advance =>
      cases advance_ok performed with
      | short place past count => exact ⟨trivial, nofun⟩
      | complete place past count =>
          simp only [Lost, place] at lost
          unfold InLoop at past
          omega
      | freed place => exact ⟨rfl, nofun⟩
      | threadsFreed place live =>
          simp only [Lost, place] at lost
          rw [lost] at live
          cases live
  | other action =>
      obtain ⟨notCreate, outcome, system, done, rfl, rfl⟩ := other_ok performed
      obtain ⟨count, size, _⟩ := effect_counts (perform_effect done) notCreate
      refine ⟨?_, nofun⟩
      cases place : machine.place <;> simp only [Lost, place, count, size] at lost ⊢ <;>
        exact lost

/-- After one `pthread_create` otherwise the call never returns: it goes on to
free the pool and to read it then. -/
theorem never_returns {maxThreadCount : Int} {pool : ThreadPool Task}
    {history later : History Task Value} {machine next after : Machine Task Value}
    {creation : Creation} {report : Report Task}
    (created : threadPoolNew Task maxThreadCount = .ok pool)
    (run : Run perform (fun _ => FillsHandles) (start pool) history machine)
    (performed : perform machine (.create creation) = .ok (report, next))
    (misses : Misses machine creation) (goesOn : Run perform (fun _ _ _ => True) next later after) :
    Lost after ∧ ∀ event ∈ later, ∀ code, event.result ≠ .returned code := by
  obtain ⟨index, place, _, inLoop, _, rfl⟩ := create_ok performed
  have lost := lost_of_misses (run_filled created run) place inLoop misses
  refine run_invariant (fun later after => Lost after ∧ ∀ event ∈ later, ∀ code,
    event.result ≠ .returned code) ⟨lost, nofun⟩ ?_ goesOn
  intro later before step report after held _ performed
  obtain ⟨still, silent⟩ := lost_step held.1 performed
  refine ⟨still, ?_⟩
  intro event found
  cases List.mem_append.mp found with
  | inl earlier => exact held.2 event earlier
  | inr last =>
      rw [List.mem_singleton.mp last]
      exact silent

/-! ## Calls that keep the pool -/

/-- As long as `pthread_create` succeeds for the first call and fails for all
later ones, no pool is freed that is in use or read after that, and a call
that returns leaves the pool consistent exactly if no worker has exited. -/
theorem executes_consistently {maxThreadCount : Int} {pool : ThreadPool Task}
    {history : History Task Value} {machine : Machine Task Value}
    (created : threadPoolNew Task maxThreadCount = .ok pool)
    (run : Run perform (fun _ => FillsHandles) (start pool) history machine) :
    FreedUnused machine ∧ ∀ step, perform machine step ≠ .error .freedPool ∧
      ∀ code next, perform machine step = .ok (.returned code, next) →
        (Consistent next ↔ FillsHandles machine step) := by
  have filled := run_filled created run
  constructor
  · intro freed
    rw [filled.live] at freed
    cases freed
  · intro step
    refine ⟨?_, fun code next => returned_iff filled⟩
    intro fault
    have freed := freed_of_fault fault
    rw [filled.live] at freed
    cases freed

/-- The only worker of a pool is created, and a second call creates none. -/
theorem second_call_creates_none :
    ∃ (history : History Nat Nat) (machine next : Machine Nat Nat),
      Run perform (fun _ => FillsHandles) (start (newPool Nat 1)) history machine ∧
        perform machine .advance = .ok (.returned 0, next) ∧ Consistent next := by
  have called : Run perform (fun _ => FillsHandles) (start (newPool Nat 1) : Machine Nat Nat)
      [⟨.execute, .silent⟩] _ := .call .start trivial rfl
  have first := called.call (by exact Int.zero_lt_one)
    (rfl : perform _ (.create .started) = .ok (.silent, _))
  have running : ∀ worker < 1, ∃ thread : Worker,
      [(⟨0, false⟩ : Worker)][worker]? = some thread ∧ thread.exited = false := by
    intro worker below
    rw [Nat.lt_one_iff.mp below]
    exact ⟨⟨0, false⟩, rfl, rfl⟩
  have returned := first.call (by exact running) (rfl : perform _ .advance = .ok (.returned 0, _))
  have again := returned.call (by trivial) (rfl : perform _ .execute = .ok (.silent, _))
  have untouched : ∀ index, Place.creating 0 = .creating index →
      [some 0][index]? = some (some 0) := by
    intro index same
    cases same
    rfl
  have second := again.call (by exact ⟨Int.le_refl 1, untouched⟩)
    (rfl : perform _ (.create (.failed (some 0))) = .ok (.silent, _))
  refine ⟨_, _, _, second, rfl, ?_⟩
  have kept := executes_consistently (rfl : threadPoolNew Nat 1 = .ok _) second
  exact ((kept.2 .advance).2 0 _ rfl).mpr running

/-- The second of two workers cannot be created: the pool is freed while the
first runs on it, and `tp->threads` is read after that. -/
theorem freed_in_use :
    ∃ (history : History Nat Nat) (machine : Machine Nat Nat),
      Run perform (fun _ _ _ => True) (start (newPool Nat 2)) history machine ∧
        history.map Event.call = [.execute, .create .started, .create (.failed none), .advance,
          .advance] ∧
        machine.poolFreed = true ∧ Runs machine 0 ∧ ¬ FreedUnused machine ∧
        perform machine .advance = .error .freedPool := by
  have called : Run perform (fun _ _ _ => True) (start (newPool Nat 2) : Machine Nat Nat)
      [⟨.execute, .silent⟩] _ := .call .start trivial rfl
  have first := called.call trivial (rfl : perform _ (.create .started) = .ok (.silent, _))
  have second := first.call trivial (rfl : perform _ (.create (.failed none)) = .ok (.silent, _))
  have short := second.call trivial (rfl : perform _ .advance = .ok (.silent, _))
  have freed := short.call trivial (rfl : perform _ .advance = .ok (.silent, _))
  refine ⟨_, _, freed, rfl, rfl, ⟨⟨0, false⟩, rfl, rfl⟩, ?_, rfl⟩
  intro unused
  exact unused rfl 0 ⟨⟨0, false⟩, rfl, rfl⟩

end Sysprog.Threads.TaskExecute
