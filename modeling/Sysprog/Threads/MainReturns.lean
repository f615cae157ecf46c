import Sysprog.Threads.MainRuns

/-!
# How `main` ends

No access of any run faults, what is left when `main` returns, and that it can
still return wherever it is: when it waits, a worker gets its task on or comes
closer to its last iteration.
-/

namespace Sysprog.Threads.MainReturns

open CheckedRuns MainProgram MainStages MainRuns
open Accesses (Machine Report)
open AccessInvariants (place place_of_holds)
open Pool (ThreadPool Worker newPool threadPoolNew countIteration lastIteration tpoolMaxThreads)
open TaskExecute (Creation)

set_option autoImplicit false

def Creates (_ : Program) : Step → Prop
  | .main (.failed _) => False
  | _ => True

/-- The program with this argument, in step with the life of its task. -/
structure Correct (arg : Int) (program : Program) : Prop where
  same : program.arg = arg
  sound : ∃ stage, Sound program stage

section Steps

variable {arg : Int} {program next : Program} {report : Report}
  (ranged : intMin ≤ arg * arg ∧ arg * arg ≤ intMax)

include ranged

theorem step_correct {step : Step} (correct : Correct arg program) (creates : Creates program step) :
    perform program step = .error (.access .notEnabled) ∨
      ∃ report next, perform program step = .ok (report, next) ∧ Correct arg next := by
  obtain ⟨rfl, stage, sound⟩ := correct
  cases step with
  | main creation =>
      cases creation with
      | failed left => exact creates.elim
      | started =>
          rcases main_sound sound with waits | ⟨report, next, after, performed, same, held⟩
          · exact .inl waits
          · exact .inr ⟨report, next, performed, same, after, held⟩
  | work worker =>
      rcases @work_sound _ _ worker sound ranged with ⟨_, waits⟩ | ⟨report, machine, after, performed,
        _, _, held⟩
      · exact .inl waits
      · exact .inr ⟨report, _, performed, rfl, after, held⟩

theorem correct_step {step : Step} (correct : Correct arg program) (creates : Creates program step)
    (performed : perform program step = .ok (report, next)) : Correct arg next := by
  rcases step_correct ranged correct creates with waits | ⟨_, _, done, held⟩
  · rw [waits] at performed
    cases performed
  · rw [done] at performed
    cases performed
    exact held

theorem run_correct {history : History} {initial : Program} (correct : Correct arg initial)
    (run : Run perform (fun _ => Creates) initial history program) : Correct arg program := by
  refine run_invariant (fun _ program => Correct arg program) correct ?_ run
  intro history before step report after held creates performed
  exact correct_step ranged held creates performed

end Steps

theorem correct_start {maxThreadCount : Int} {pool : ThreadPool Nat} (arg : Int)
    (created : threadPoolNew Nat maxThreadCount = .ok pool) : Correct arg (start pool arg) := by
  obtain ⟨rfl, valid⟩ := Deliveries.thread_pool_new_ok created
  exact ⟨rfl, .unmade, sound_start arg valid⟩

/-! ## Threads that are not created -/

structure SameStaff (machine next : Machine) : Prop where
  threadsSize : next.pool.threadsSize = machine.pool.threadsSize
  threadCount : next.pool.threadCount = machine.pool.threadCount
  workers : next.workers.length = machine.workers.length

def Staffed (size : Int) (workers : Nat) (freed : Bool) : Statement → Prop
  | .newTask => workers = 0
  | .push _ => workers = 0
  | .pushing _ => workers = 0
  | .executing _ index => workers ≤ index ∧ (index : Int) ≤ size
  | .freeing _ => (workers : Int) < size
  | .freeingThreads _ => (workers : Int) < size ∧ freed = true
  | _ => (workers : Int) = size

structure Counted (maxThreadCount : Int) (program : Program) : Prop where
  size : program.machine.pool.threadsSize = maxThreadCount
  positive : 1 ≤ maxThreadCount
  count : program.machine.pool.threadCount = program.machine.workers.length
  staffed : Staffed maxThreadCount program.machine.workers.length program.machine.poolFreed
    program.statement

section Counts

variable {maxThreadCount : Int} {program next : Program} {machine : Machine}
  {step : Accesses.Step} {report : Report}

theorem staff_step (effect : Accesses.Effect program.machine step report machine)
    (notCreate : step ≠ .create) : SameStaff program.machine machine := by
  cases effect with
  | created alive => exact absurd rfl notCreate
  | unlocked held alive present => exact ⟨rfl, rfl, List.length_set⟩
  | _ => exact ⟨rfl, rfl, rfl⟩

theorem access_ok (accessed : access program step = .ok (report, machine)) :
    Accesses.perform program.machine step = .ok (report, machine) := by
  unfold access at accessed
  cases performed : Accesses.perform program.machine step with
  | error fault => simp [performed] at accessed
  | ok done =>
      simp only [performed, Except.ok.injEq] at accessed
      rw [accessed]

theorem access_staff (accessed : access program step = .ok (report, machine))
    (notCreate : step ≠ .create) : SameStaff program.machine machine :=
  staff_step (Accesses.perform_effect (access_ok accessed)) notCreate

theorem counted_of_staff {statement : Statement} {threads : List (Option Nat)} {arg : Int}
    {resArg : Option Int} (counted : Counted maxThreadCount program)
    (staff : SameStaff program.machine machine)
    (staffed : Staffed maxThreadCount program.machine.workers.length machine.poolFreed statement) :
    Counted maxThreadCount ⟨machine, threads, arg, resArg, statement⟩ := by
  refine ⟨staff.threadsSize.trans counted.size, counted.positive, ?_, ?_⟩
  · change machine.pool.threadCount = machine.workers.length
    rw [staff.threadCount, staff.workers]
    exact counted.count
  · change Staffed _ machine.workers.length _ _
    rw [staff.workers]
    exact staffed

theorem counted_call {inside behind : Statement} (counted : Counted maxThreadCount program)
    (called : inCall program step inside behind = .ok (report, next)) (notCreate : step ≠ .create)
    (staffedInside : ∀ freed, Staffed maxThreadCount program.machine.workers.length freed inside)
    (staffedBehind : ∀ freed, Staffed maxThreadCount program.machine.workers.length freed behind) :
    Counted maxThreadCount next := by
  unfold inCall at called
  obtain ⟨⟨found, machine⟩, accessed, rest⟩ := bind_eq_ok.mp called
  cases rest
  apply counted_of_staff counted (access_staff accessed notCreate)
  split_ifs
  · exact staffedBehind _
  · exact staffedInside _

theorem counted_execute {task index : Nat} {creation : Creation}
    (counted : Counted maxThreadCount program) (here : program.statement = .executing task index)
    (executed : executeStep program task index creation = .ok (report, next)) :
    Counted maxThreadCount next := by
  have staffed := counted.staffed
  have size := counted.size
  have count := counted.count
  rw [here] at staffed
  obtain ⟨few, inside⟩ := staffed
  unfold executeStep at executed
  split_ifs at executed with freed inLoop room short
  · rw [size] at inLoop
    cases creation with
    | failed left =>
        cases executed
        refine ⟨size, counted.positive, count, ?_, ?_⟩
        · exact Nat.le_succ_of_le few
        · omega
    | started =>
        obtain ⟨⟨found, machine⟩, accessed, rest⟩ := bind_eq_ok.mp executed
        cases rest
        cases Accesses.perform_effect (access_ok accessed) with
        | created alive =>
            refine ⟨size, counted.positive, ?_, ?_, ?_⟩
            · dsimp only
              rw [List.length_append, List.length_singleton, count]
              rfl
            · dsimp only
              rw [List.length_append, List.length_singleton]
              omega
            · omega
        | stays stays => cases stays
        | moved place moves => cases moves
  · cases executed
    refine ⟨size, counted.positive, count, ?_⟩
    change (program.machine.workers.length : Int) < maxThreadCount
    rw [size, count] at short
    omega
  · cases executed
    refine ⟨size, counted.positive, count, ?_⟩
    change (program.machine.workers.length : Int) = maxThreadCount
    rw [size, count] at short
    exact not_not.mp short

theorem counted_main {creation : Creation} (counted : Counted maxThreadCount program)
    (performed : mainStep program creation = .ok (report, next)) : Counted maxThreadCount next := by
  have staffed := counted.staffed
  have positive := counted.positive
  unfold mainStep at performed
  cases here : program.statement with
  | newTask =>
      rw [here] at staffed
      simp only [here] at performed
      obtain ⟨⟨found, machine⟩, accessed, rest⟩ := bind_eq_ok.mp performed
      have staff := access_staff accessed (by rintro ⟨⟩)
      cases found with
      | made task =>
          cases rest
          exact counted_of_staff counted staff staffed
      | _ => cases rest
  | push task =>
      rw [here] at staffed
      simp only [here] at performed
      have none : program.machine.workers.length = 0 := staffed
      refine counted_call counted performed (by rintro ⟨⟩) (fun _ => none) fun _ => ⟨?_, ?_⟩
      · exact Nat.le_of_eq none
      · omega
  | pushing task =>
      rw [here] at staffed
      simp only [here] at performed
      have none : program.machine.workers.length = 0 := staffed
      refine counted_call counted performed (by rintro ⟨⟩) (fun _ => none) fun _ => ⟨?_, ?_⟩
      · exact Nat.le_of_eq none
      · omega
  | executing task index =>
      simp only [here] at performed
      exact counted_execute counted here performed
  | freeing task =>
      rw [here] at staffed
      simp only [here] at performed
      obtain ⟨⟨found, machine⟩, accessed, rest⟩ := bind_eq_ok.mp performed
      cases rest
      have effect := Accesses.perform_effect (access_ok accessed)
      refine counted_of_staff counted (staff_step effect (by rintro ⟨⟩)) ⟨staffed, ?_⟩
      cases effect with
      | poolFreed alive => rfl
      | stays stays => cases stays
      | moved place moves => cases moves
  | freeingThreads task =>
      rw [here] at staffed
      simp only [here, staffed.2, if_true] at performed
      cases performed
  | join task =>
      rw [here] at staffed
      simp only [here] at performed
      exact counted_call counted performed (by rintro ⟨⟩) (fun _ => staffed) fun _ => staffed
  | joining task =>
      rw [here] at staffed
      simp only [here] at performed
      exact counted_call counted performed (by rintro ⟨⟩) (fun _ => staffed) fun _ => staffed
  | delete task =>
      rw [here] at staffed
      simp only [here] at performed
      exact counted_call counted performed (by rintro ⟨⟩) (fun _ => staffed) fun _ => staffed
  | deleting task =>
      rw [here] at staffed
      simp only [here] at performed
      exact counted_call counted performed (by rintro ⟨⟩) (fun _ => staffed) fun _ => staffed
  | freeResult =>
      rw [here] at staffed
      simp only [here] at performed
      cases saved : program.resArg with
      | none => simp [saved] at performed
      | some value =>
          simp only [saved] at performed
          cases performed
          exact ⟨counted.size, positive, counted.count, staffed⟩
  | joiningPool index =>
      rw [here] at staffed
      simp only [here, joinPoolStep] at performed
      split_ifs at performed with freed inLoop
      · unfold joinThread at performed
        split at performed
        · cases performed
        · cases performed
        · split at performed
          · cases performed
          · split_ifs at performed
            cases performed
            exact ⟨counted.size, positive, counted.count, staffed⟩
      · cases performed
        exact ⟨counted.size, positive, counted.count, staffed⟩
  | deletePool =>
      rw [here] at staffed
      simp only [here] at performed
      obtain ⟨⟨found, machine⟩, accessed, rest⟩ := bind_eq_ok.mp performed
      cases rest
      exact counted_of_staff counted (access_staff accessed (by rintro ⟨⟩)) staffed
  | returned =>
      simp only [here] at performed
      cases performed

theorem work_freed {worker : Nat} {returned : Option Int}
    (effect : Accesses.Effect program.machine (.work worker returned) report machine) :
    machine.poolFreed = program.machine.poolFreed := by
  generalize isWork : Accesses.Step.work worker returned = step at effect
  cases effect with
  | poolFreed alive => cases isWork
  | _ => rfl

theorem counted_step {step : Step} (counted : Counted maxThreadCount program)
    (performed : perform program step = .ok (report, next)) : Counted maxThreadCount next := by
  cases step with
  | main creation => exact counted_main counted performed
  | work worker =>
      unfold perform workStep at performed
      obtain ⟨returned, _, worked⟩ := bind_eq_ok.mp performed
      obtain ⟨⟨found, machine⟩, accessed, rest⟩ := bind_eq_ok.mp worked
      cases rest
      refine counted_of_staff counted (access_staff accessed (by rintro ⟨⟩)) ?_
      rw [work_freed (Accesses.perform_effect (access_ok accessed))]
      exact counted.staffed

theorem run_counted {pool : ThreadPool Nat} {arg : Int} {history : History}
    {allowed : History → Program → Step → Prop}
    (created : threadPoolNew Nat maxThreadCount = .ok pool)
    (run : Run perform allowed (start pool arg) history program) :
    Counted maxThreadCount program := by
  obtain ⟨rfl, valid⟩ := Deliveries.thread_pool_new_ok created
  refine run_invariant (fun _ program => Counted maxThreadCount program) ?_ ?_ run
  · exact ⟨rfl, valid.1, rfl, rfl⟩
  · intro history before step report after counted _ performed
    exact counted_step counted performed

end Counts

/-! ## A worker for every wait -/

section Progress

variable {program : Program} {stage : Stage}

/-- Somebody can get the task on, or on to the exit `main` waits for. -/
theorem waiting_worker (sound : Sound program stage) (waiting : Waiting program stage) :
    ∃ worker, MayWork program.machine worker := by
  cases held : program.machine.critical with
  | some pair => exact ⟨pair.1, .inl ⟨pair.2, held⟩⟩
  | none =>
      have idle : placeAt stage = .unlocking := by
        rw [← sound.task.place, place, held]
      cases waiting with
      | finished here within started unflagged =>
          have created := sound.created
          have one := sound.size.1
          rw [here] at created
          change (program.machine.workers.length : Int) = program.machine.pool.threadsSize at created
          have inside : 0 < program.machine.workers.length := by omega
          have isWaiting : stage = .waiting := by
            cases stage with
            | waiting => rfl
            | unmade => exact started.elim
            | made => exact started.elim
            | joined => exact started.elim
            | freed => exact started.elim
            | done => exact absurd (.inr rfl) unflagged
            | _ => cases idle
          obtain ⟨_, fresh⟩ := sound.crew.fresh isWaiting
          have present := List.getElem?_eq_getElem inside
          exact ⟨0, .inr ⟨held, _, present, fresh 0 _ present⟩⟩
      | running here within => cases idle
      | exit here present runs => exact ⟨_, .inr ⟨held, _, present, runs⟩⟩

/-- How far the task is from the end of its execution. -/
def handLeft (machine : Machine) : Nat :=
  match place machine with
  | .taken _ => 5
  | .calling _ => 4
  | .returned _ _ => 3
  | .stored _ => 2
  | .finished _ => 1
  | .unlocking => if 0 < machine.pool.queueCount then 6 else 0

/-- The iterations the workers have left. -/
def iterationsLeft : List Worker → Nat
  | [] => 0
  | worker :: workers => (lastIteration - worker.counter) + iterationsLeft workers

def atLock (machine : Machine) : Nat :=
  match machine.critical with
  | none => 1
  | some _ => 0

def rank (program : Program) : (Nat × Nat) × Nat × Nat × Nat :=
  (mainLeft program, handLeft program.machine, iterationsLeft program.machine.workers,
    atLock program.machine)

theorem iterations_counted {workers : List Worker} {worker : Nat} {thread : Worker}
    (present : workers[worker]? = some thread) (more : thread.counter < lastIteration) :
    iterationsLeft (workers.set worker (countIteration thread)) < iterationsLeft workers := by
  induction workers generalizing worker with
  | nil => cases present
  | cons first rest ih =>
      cases worker with
      | zero =>
          cases present
          rw [List.set_cons_zero, iterationsLeft, iterationsLeft, countIteration]
          dsimp only
          omega
      | succ worker =>
          have fewer := ih present
          rw [List.set_cons_succ, iterationsLeft, iterationsLeft]
          omega

theorem hand_left_of_advances {result : Int} {machine next : Machine} {after : Stage}
    (held : AtStage result stage machine) (later : AtStage result after next)
    (advances : Advances stage after) : handLeft next < handLeft machine := by
  have count := held.queue.count
  unfold handLeft
  rw [held.place, later.place]
  cases advances with
  | taken =>
      have one : 0 < machine.pool.queueCount := by
        rw [count]
        decide
      simp only [placeAt, if_pos one]
      decide
  | done =>
      have none : ¬ 0 < next.pool.queueCount := by
        rw [later.queue.count]
        decide
      simp only [placeAt, if_neg none]
      decide
  | _ => exact Nat.lt_succ_self _

theorem hand_left_same {result : Int} {machine next : Machine}
    (held : AtStage result stage machine) (later : AtStage result stage next) :
    handLeft next = handLeft machine := by
  unfold handLeft
  rw [held.place, later.place, held.queue.count, later.queue.count]

theorem turns_closer {machine next : Machine} (crew : Crew machine stage)
    (turns : Turns machine next) :
    Prod.Lex (· < ·) (· < ·) (iterationsLeft next.workers, atLock next)
      (iterationsLeft machine.workers, atLock machine) := by
  cases turns with
  | polls unlocked holds workers =>
      rw [workers]
      apply Prod.Lex.right
      unfold atLock
      rw [unlocked]
      cases busy : next.critical with
      | none => exact absurd busy holds
      | some pair => exact Nat.zero_lt_one
  | @ends worker thread holds present runs workers =>
      apply Prod.Lex.left
      rw [workers]
      obtain ⟨below, exits⟩ := crew.counts worker thread present
      refine iterations_counted present (Nat.lt_of_le_of_ne below ?_)
      intro last
      rw [exits.mpr last] at runs
      cases runs

theorem main_left_beside {machine : Machine} (beside : Beside program.machine machine) :
    mainLeft { program with machine := machine } = mainLeft program := by
  unfold mainLeft
  dsimp only
  rw [beside.clients, beside.threadsSize]

/-- Some step brings the program closer to its end. -/
theorem step_closer {arg : Int} (ranged : intMin ≤ arg * arg ∧ arg * arg ≤ intMax)
    (correct : Correct arg program) :
    program.statement = .returned ∨ ∃ step report next, Creates program step ∧
      perform program step = .ok (report, next) ∧ Correct arg next ∧
        WellFoundedRelation.rel (rank next) (rank program) := by
  obtain ⟨rfl, stage, sound⟩ := correct
  rcases main_progress sound with ⟨report, next, after, performed, same, held, closer⟩ |
    returned | waiting
  · exact .inr ⟨.main .started, report, next, trivial, performed, ⟨same, after, held⟩,
      Prod.Lex.left _ _ closer⟩
  · exact .inl returned
  · right
    obtain ⟨worker, may⟩ := waiting_worker sound waiting
    rcases @work_sound _ _ worker sound ranged with ⟨mayNot, _⟩ | ⟨report, machine, after, performed,
      beside, same, held⟩
    · exact absurd may mayNot
    · refine ⟨.work worker, report, _, trivial, performed, ⟨rfl, after, held⟩, ?_⟩
      unfold rank
      rw [main_left_beside beside]
      apply Prod.Lex.right
      rcases same with ⟨rfl, turned⟩ | advances
      · dsimp only
        rw [hand_left_same sound.task held.task]
        exact Prod.Lex.right _ (turns_closer sound.crew turned)
      · exact Prod.Lex.left _ _ (hand_left_of_advances sound.task held.task advances)

theorem reaches_end {arg : Int} (ranged : intMin ≤ arg * arg ∧ arg * arg ≤ intMax)
    (correct : Correct arg program) :
    ∃ history final, Run perform (fun _ => Creates) program history final ∧
      final.statement = .returned := by
  obtain ⟨history, final, run, _, returned⟩ := run_reaches rank (Correct arg)
    (fun program => program.statement = .returned) (fun _ held => step_closer ranged held) correct
  exact ⟨history, final, run, returned⟩

end Progress

/-! ## What is left -/

/-- Nothing that was allocated, and each worker has been through all its
iterations. -/
structure NothingLeft (maxThreadCount : Int) (program : Program) : Prop where
  tasks : program.machine.tasks.inUse = 0
  results : program.machine.results.inUse = 0
  resArg : program.resArg = none
  poolFreed : program.machine.poolFreed = true
  workers : (program.machine.workers.length : Int) = maxThreadCount
  iterations : ∀ worker ∈ program.machine.workers, worker.counter = lastIteration

theorem nothing_left_of_sound {program : Program} {stage : Stage} (sound : Sound program stage)
    (returned : program.statement = .returned) :
    NothingLeft program.machine.pool.threadsSize program := by
  have fits := sound.fits
  have created := sound.created
  rw [returned] at fits created
  generalize program.machine.clients 0 = within at fits
  generalize saved : program.resArg = resArg at fits
  cases fits
  constructor
  · rw [sound.task.tasks]
    rfl
  · rw [sound.task.results]
    rfl
  · exact saved
  · exact sound.freed.mpr returned
  · exact created
  · intro thread member
    obtain ⟨worker, present⟩ := List.mem_iff_getElem?.mp member
    have exited := sound.gone worker thread (by rw [returned]; trivial) present
    exact (sound.crew.counts worker thread present).2.mp exited

/-! ## Runs -/

section Runs

variable {maxThreadCount arg : Int} {pool : ThreadPool Nat} {history : History} {program : Program}

/-- When every `pthread_create` succeeds and the square of the argument is an
`int`, neither `main` nor a worker faults, whatever their order. -/
theorem main_never_faults {step : Step} {fault : Fault}
    (created : threadPoolNew Nat maxThreadCount = .ok pool)
    (ranged : intMin ≤ arg * arg ∧ arg * arg ≤ intMax)
    (run : Run perform (fun _ => Creates) (start pool arg) history program)
    (creates : Creates program step) (failed : perform program step = .error fault) :
    fault = .access .notEnabled := by
  have correct := run_correct ranged (correct_start arg created) run
  rcases step_correct ranged correct creates with waits | ⟨_, _, done, _⟩
  · rw [waits] at failed
    cases failed
    rfl
  · rw [done] at failed
    cases failed

def comesToPush (size : Int) (queue : List (Option Nat)) (queueSize : Int) : Program :=
  { start ⟨size, 0, queue, queueSize, 0, 0, 0⟩ mainArg with
    machine := { (start ⟨size, 0, queue, queueSize, 0, 0, 0⟩ mainArg).machine with
      tasks := ⟨[some (Pool.threadTaskNew Nat)]⟩ }.at 0 (.pushing 0)
    statement := .pushing 0 }

theorem task_pushed {allowed : History → Program → Step → Prop} (size : Int)
    {queue : List (Option Nat)} (queueSize : Int) (room : 0 < queue.length)
    (permitted : ∀ history program, allowed history program (.main .started)) :
    ∃ history program,
      Run perform allowed (start ⟨size, 0, queue, queueSize, 0, 0, 0⟩ mainArg) history program ∧
      program = { comesToPush size queue queueSize with
        machine := { (comesToPush size queue queueSize).machine with
          pool := ⟨size, 0, queue.set 0 (some 0), queueSize, 0, 1, 1⟩ }.at 0 .outside
        statement := .executing 0 0 } := by
  have made : Run perform allowed (start ⟨size, 0, queue, queueSize, 0, 0, 0⟩ mainArg)
      [⟨.main .started, .made 0⟩] _ := .call .start (permitted _ _) rfl
  have pushing := made.call (permitted _ _)
    (rfl : perform _ (.main .started) = .ok (.silent, comesToPush size queue queueSize))
  have pushed := @Accesses.push_locked_completes (comesToPush size queue queueSize).machine 0 0
    rfl rfl rfl ⟨Int.le_refl 0, room⟩
  have called : mainStep (comesToPush size queue queueSize) .started =
      inCall (comesToPush size queue queueSize) (.advance 0) (.pushing 0) (.executing 0 0) := rfl
  have stepped : perform (comesToPush size queue queueSize) (.main .started) = _ :=
    call_returns called pushed
  exact ⟨_, _, pushing.call (permitted _ _) stepped, rfl⟩

theorem queue_has_room : 0 < (List.replicate Pool.tpoolMaxTasks (none : Option Nat)).length := by
  rw [List.length_replicate]
  decide

/-- The `main` of the source has pushed its task and created the first worker,
which can now take it. -/
theorem first_worker_runs : ∃ history program,
    Run perform (fun _ => Creates) (start (newPool Nat mainThreadCount) mainArg) history program ∧
      program.statement = .executing 0 1 ∧ program.machine.workers = [⟨0, false⟩] ∧
      (∃ report next, perform program (.work 0) = .ok (report, next)) ∧
      ∀ step fault, Creates program step → perform program step = .error fault →
        fault = .access .notEnabled := by
  obtain ⟨history, program, pushed, rfl⟩ := @task_pushed (fun _ => Creates) mainThreadCount _
    Pool.tpoolMaxTasks queue_has_room fun _ _ => trivial
  have started := pushed.call (by trivial) (rfl : perform _ (.main .started) = .ok (.silent, _))
  refine ⟨_, _, started, rfl, rfl, ⟨_, _, rfl⟩, ?_⟩
  intro step fault creates failed
  exact main_never_faults (rfl : threadPoolNew Nat mainThreadCount = .ok _) (by decide) started
    creates failed

/-- The result is the square, and once `main` has returned nothing is left. -/
theorem main_leaves_nothing (created : threadPoolNew Nat maxThreadCount = .ok pool)
    (ranged : intMin ≤ arg * arg ∧ arg * arg ≤ intMax)
    (run : Run perform (fun _ => Creates) (start pool arg) history program) :
    (program.statement = .freeResult → program.resArg = some (arg * arg)) ∧
      (program.statement = .returned → NothingLeft maxThreadCount program) := by
  obtain ⟨same, stage, sound⟩ := run_correct ranged (correct_start arg created) run
  constructor
  · intro here
    have fits := sound.fits
    rw [here, same] at fits
    generalize program.machine.clients 0 = within at fits
    generalize program.resArg = resArg at fits ⊢
    cases fits
    rfl
  · intro returned
    rw [← (run_counted created run).size]
    exact nothing_left_of_sound sound returned

/-- The `main` of the source in a run to its end. -/
theorem main_ends : ∃ history program,
    Run perform (fun _ => Creates) (start (newPool Nat mainThreadCount) mainArg) history program ∧
      NothingLeft 4 program := by
  have ranged : intMin ≤ mainArg * mainArg ∧ mainArg * mainArg ≤ intMax := by decide
  obtain ⟨history, program, run, returned⟩ := reaches_end ranged
    (correct_start mainArg (rfl : threadPoolNew Nat mainThreadCount = .ok _))
  exact ⟨history, program, run, (main_leaves_nothing rfl ranged run).2 returned⟩

/-- Wherever `main` is, some order of the accesses has it return. -/
theorem main_can_return (created : threadPoolNew Nat maxThreadCount = .ok pool)
    (ranged : intMin ≤ arg * arg ∧ arg * arg ≤ intMax)
    (run : Run perform (fun _ => Creates) (start pool arg) history program) :
    ∃ later final, Run perform (fun _ => Creates) program later final ∧
      final.statement = .returned :=
  reaches_end ranged (run_correct ranged (correct_start arg created) run)

theorem main_of_source_can_return : ∃ later final,
    Run perform (fun _ => Creates) (start (newPool Nat mainThreadCount) mainArg) later final ∧
      final.statement = .returned :=
  main_can_return (rfl : threadPoolNew Nat mainThreadCount = .ok _) (by decide) .start

/-- Whatever comes of its `pthread_create`s, `main` returns only if all of them
succeeded; otherwise it reads the pool behind its `free`. -/
theorem main_returns_only_created {allowed : History → Program → Step → Prop}
    (created : threadPoolNew Nat maxThreadCount = .ok pool)
    (run : Run perform allowed (start pool arg) history program) :
    (program.statement = .returned → (program.machine.workers.length : Int) = maxThreadCount) ∧
      ∀ task creation, program.statement = .freeingThreads task →
        perform program (.main creation) = .error (.access .freedPool) := by
  have staffed := (run_counted created run).staffed
  constructor
  · intro returned
    rw [returned] at staffed
    exact staffed
  · intro task creation here
    rw [here] at staffed
    simp only [perform, mainStep, here, staffed.2, if_true]

end Runs

/-- The only `pthread_create` of a pool for one worker fails. -/
theorem creation_fails {queue : List (Option Nat)} (queueSize : Int) (room : 0 < queue.length) :
    ∃ (history : History) (program : Program),
      Run perform (fun _ _ _ => True) (start ⟨1, 0, queue, queueSize, 0, 0, 0⟩ mainArg) history
        program ∧ program.statement = .freeingThreads 0 := by
  obtain ⟨history, program, stored, rfl⟩ := @task_pushed (fun _ _ _ => True) 1 _ queueSize room
    fun _ _ => trivial
  have failed := stored.call trivial (rfl : perform _ (.main (.failed none)) = .ok (_, _))
  have counted := failed.call trivial (rfl : perform _ (.main .started) = .ok (_, _))
  have freed := counted.call trivial (rfl : perform _ (.main .started) = .ok (_, _))
  exact ⟨_, _, freed, rfl⟩

theorem failed_creation_faults : ∃ (history : History) (program : Program),
    Run perform (fun _ _ _ => True) (start (newPool Nat 1) mainArg) history program ∧
      perform program (.main .started) = .error (.access .freedPool) := by
  obtain ⟨history, program, run, here⟩ := creation_fails Pool.tpoolMaxTasks queue_has_room
  exact ⟨history, program, run,
    (main_returns_only_created (rfl : threadPoolNew Nat 1 = .ok _) run).2 0 .started here⟩

end Sysprog.Threads.MainReturns
