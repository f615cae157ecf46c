import Sysprog.Threads.MainStages

/-!
# Runs of `main`

When every `pthread_create` succeeds, no order of the accesses makes `main` or
a worker fault: the task is freed behind its last access and the pool when
every worker has exited. One that fails has `main` free the pool and read it.
-/

namespace Sysprog.Threads.MainRuns

open CheckedRuns MainProgram MainStages
open Accesses (Machine Within Report)
open AccessInvariants (Holds holds_new holds_pushed)
open Pool (ThreadPool ThreadTask Worker newPool threadPoolNew threadTaskNew lastIteration
  tpoolMaxThreads tpoolMaxTasks)
open TaskExecute (Creation)

set_option autoImplicit false

/-! ## Where `main` and its task are -/

def Started : Stage → Prop
  | .unmade => False
  | .made => False
  | .joined => False
  | .freed => False
  | _ => True

/-- Which stages go with which statements. -/
inductive Fits (result : Int) : Statement → Within → Stage → Option Int → Prop where
  | newTask : Fits result .newTask .outside .unmade none
  | push : Fits result (.push 0) .outside .made none
  | pushing : Fits result (.pushing 0) (.pushing 0) .made none
  | executing {index : Nat} {stage : Stage} (started : Started stage) :
      Fits result (.executing 0 index) .outside stage none
  | join {stage : Stage} (started : Started stage) : Fits result (.join 0) .outside stage none
  | readingFinished {stage : Stage} (started : Started stage) :
      Fits result (.joining 0) (.readingFinished 0) stage none
  | readingRunning {stage : Stage} (flagged : stage = .finished ∨ stage = .done) :
      Fits result (.joining 0) (.readingRunning 0) stage none
  | copying : Fits result (.joining 0) (.copying 0) .done none
  | freeing : Fits result (.joining 0) (.freeing 0 result) .done none
  | delete : Fits result (.delete 0) .outside .joined (some result)
  | deleting : Fits result (.deleting 0) (.deleting 0) .joined (some result)
  | freeResult : Fits result .freeResult .outside .freed (some result)
  | joiningPool {index : Nat} : Fits result (.joiningPool index) .outside .freed none
  | deletePool : Fits result .deletePool .outside .freed none
  | returned : Fits result .returned .outside .freed none

def Created (size : Int) (workers : Nat) : Statement → Prop
  | .newTask => workers = 0
  | .push _ => workers = 0
  | .pushing _ => workers = 0
  | .executing _ index => workers = index ∧ (index : Int) ≤ size
  | _ => (workers : Int) = size

/-- The workers `thread_pool_join` has waited for. -/
def Awaited : Statement → Nat → Prop
  | .joiningPool index, worker => worker < index
  | .deletePool, _ => True
  | .returned, _ => True
  | _, _ => False

structure Sound (program : Program) (stage : Stage) : Prop where
  task : AtStage (program.arg * program.arg) stage program.machine
  crew : Crew program.machine stage
  fits : Fits (program.arg * program.arg) program.statement (program.machine.clients 0) stage
    program.resArg
  freed : program.machine.poolFreed = true ↔ program.statement = .returned
  size : 1 ≤ program.machine.pool.threadsSize ∧ program.machine.pool.threadsSize ≤ tpoolMaxThreads
  count : program.machine.pool.threadCount = program.machine.workers.length
  created : Created program.machine.pool.threadsSize program.machine.workers.length
    program.statement
  handles : program.threads.length = program.machine.pool.threadsSize.toNat
  kept : ∀ worker < program.machine.workers.length, program.threads[worker]? = some (some worker)
  gone : ∀ (worker : Nat) (thread : Worker), Awaited program.statement worker →
    program.machine.workers[worker]? = some thread → thread.exited = true

theorem sound_start {maxThreadCount : Int} (arg : Int)
    (valid : 1 ≤ maxThreadCount ∧ maxThreadCount ≤ tpoolMaxThreads) :
    Sound (start (newPool Nat maxThreadCount) arg) .unmade := by
  constructor
  · exact ⟨rfl, rfl, rfl, holds_new maxThreadCount, fun _ => rfl⟩
  · refine ⟨(by rintro _ _ ⟨⟩), ?_, fun _ => rfl, (by rintro ⟨⟩)⟩
    intro worker thread present
    cases present
  · exact .newTask
  · exact ⟨(by rintro ⟨⟩), (by rintro ⟨⟩)⟩
  · exact valid
  · rfl
  · rfl
  · exact List.length_replicate
  · intro worker below
    cases below
  · intro worker thread awaited
    cases awaited

/-! ## A worker's step -/

section Workers

variable {program next : Program} {stage : Stage} {worker : Nat} {report : Report}

theorem fits_advanced {result : Int} {statement : Statement} {within : Within} {after : Stage}
    {resArg : Option Int} (fits : Fits result statement within stage resArg)
    (advances : Advances stage after) : Fits result statement within after resArg := by
  have started : Started after := by
    cases advances <;> trivial
  cases fits with
  | executing _ => exact .executing started
  | join _ => exact .join started
  | readingFinished _ => exact .readingFinished started
  | readingRunning flagged =>
      cases advances with
      | done => exact .readingRunning (.inr rfl)
      | _ => cases flagged <;> contradiction
  | _ => cases advances

/-- The function of the task is `test_ret`, and its product an `int`. -/
theorem returned_ok (ranged : intMin ≤ program.arg * program.arg ∧
      program.arg * program.arg ≤ intMax) (worker : Nat) :
    ∃ returned, returnedTo program worker = .ok returned ∧
      ∀ task, program.machine.critical = some (worker, .calling task) →
        returned = some (program.arg * program.arg) := by
  unfold returnedTo
  split
  · rename_i holder task held
    split_ifs with same
    · refine ⟨some (program.arg * program.arg), ?_, fun _ _ => rfl⟩
      rw [testRet, if_pos ranged]
      rfl
    · refine ⟨none, rfl, ?_⟩
      intro other here
      rw [held] at here
      cases here
      exact absurd rfl same
  · rename_i elsewhere
    refine ⟨none, rfl, ?_⟩
    intro task here
    exact absurd here (elsewhere worker task)

theorem sound_worked {machine : Machine} {after : Stage} (sound : Sound program stage)
    (beside : Beside program.machine machine) (same : after = stage ∨ Advances stage after)
    (held : AtStage (program.arg * program.arg) after machine) (crew : Crew machine after) :
    Sound { program with machine := machine } after := by
  have fits : Fits (program.arg * program.arg) program.statement (program.machine.clients 0) after
      program.resArg := by
    rcases same with rfl | advances
    · exact sound.fits
    · exact fits_advanced sound.fits advances
  constructor
  · exact held
  · exact crew
  · change Fits _ _ (machine.clients 0) after _
    rw [beside.clients]
    exact fits
  · change machine.poolFreed = true ↔ _
    rw [beside.poolFreed]
    exact sound.freed
  · change 1 ≤ machine.pool.threadsSize ∧ machine.pool.threadsSize ≤ _
    rw [beside.threadsSize]
    exact sound.size
  · change machine.pool.threadCount = machine.workers.length
    rw [beside.threadCount, beside.workers]
    exact sound.count
  · change Created machine.pool.threadsSize machine.workers.length _
    rw [beside.threadsSize, beside.workers]
    exact sound.created
  · change _ = machine.pool.threadsSize.toNat
    rw [beside.threadsSize]
    exact sound.handles
  · change ∀ worker < machine.workers.length, _
    rw [beside.workers]
    exact sound.kept
  · intro worker thread awaited there
    change machine.workers[worker]? = some thread at there
    obtain ⟨inside, _⟩ := List.getElem?_eq_some_iff.mp there
    rw [beside.workers] at inside
    have exited := sound.gone worker _ awaited (List.getElem?_eq_getElem inside)
    have kept := beside.exited worker _ (List.getElem?_eq_getElem inside) exited
    rw [kept] at there
    cases there
    exact exited

theorem nobody_works (sound : Sound program stage) (freed : program.machine.poolFreed = true)
    (worker : Nat) : ¬ MayWork program.machine worker := by
  have returned := sound.freed.mp freed
  have gone : ∀ (worker : Nat) (thread : Worker),
      program.machine.workers[worker]? = some thread → thread.exited = true := by
    intro worker thread
    exact sound.gone worker thread (by rw [returned]; trivial)
  rintro (⟨here, holds⟩ | ⟨_, thread, present, runs⟩)
  · obtain ⟨thread, present, runs⟩ := sound.crew.holder worker here holds
    rw [gone worker thread present] at runs
    cases runs
  · rw [gone worker thread present] at runs
    cases runs

theorem work_sound (sound : Sound program stage)
    (ranged : intMin ≤ program.arg * program.arg ∧ program.arg * program.arg ≤ intMax) :
    (¬ MayWork program.machine worker ∧
        perform program (.work worker) = .error (.access .notEnabled)) ∨
      ∃ report machine after,
        perform program (.work worker) = .ok (report, { program with machine := machine }) ∧
        Beside program.machine machine ∧
        ((after = stage ∧ Turns program.machine machine) ∨ Advances stage after) ∧
        Sound { program with machine := machine } after := by
  obtain ⟨returned, calls, returns⟩ := @returned_ok program ranged worker
  by_cases may : MayWork program.machine worker
  · right
    have alive : program.machine.poolFreed = false := by
      cases freed : program.machine.poolFreed with
      | false => rfl
      | true => exact absurd may (nobody_works sound freed worker)
    obtain ⟨report, machine, performed⟩ :=
      @work_completes _ _ _ worker returned sound.task sound.crew alive may
    obtain ⟨beside, after, same, held, crew⟩ := work_stage sound.task sound.crew returns
      (Accesses.perform_effect performed)
    refine ⟨report, machine, after, ?_, beside, same,
      sound_worked sound beside (same.imp_left And.left) held crew⟩
    simp only [perform, workStep, calls, ok_bind, access, performed]
  · left
    refine ⟨may, ?_⟩
    simp only [perform, workStep, calls, ok_bind, access, work_waits may]
    rfl

end Workers

/-! ## A statement of `main` -/

/-- How many statements are left, with the accesses of the join apart. -/
def phase : Statement → Within → Nat
  | .newTask, _ => 14
  | .push _, _ => 13
  | .pushing _, _ => 12
  | .executing _ _, _ => 11
  | .join _, _ => 10
  | .joining _, .readingRunning _ => 8
  | .joining _, .copying _ => 7
  | .joining _, .freeing _ _ => 6
  | .joining _, _ => 9
  | .delete _, _ => 5
  | .deleting _, _ => 4
  | .freeResult, _ => 3
  | .joiningPool _, _ => 2
  | .deletePool, _ => 1
  | _, _ => 0

def turns (size : Int) : Statement → Nat
  | .executing _ index => (size - index).toNat
  | .joiningPool index => (size - index).toNat
  | _ => 0

/-- Where the program is: statements and turns of `main` to go. -/
def mainLeft (program : Program) : Nat × Nat :=
  (phase program.statement (program.machine.clients 0),
    turns program.machine.pool.threadsSize program.statement)

def Closer (next program : Program) : Prop :=
  Prod.Lex (· < ·) (· < ·) (mainLeft next) (mainLeft program)

/-- `main` has made its next access. -/
def Goes (program : Program) : Prop :=
  ∃ report next after, mainStep program .started = .ok (report, next) ∧
    next.arg = program.arg ∧ Sound next after ∧ Closer next program

section Main

variable {program : Program} {stage : Stage}

theorem alive_of_sound (sound : Sound program stage) (runs : program.statement ≠ .returned) :
    program.machine.poolFreed = false := by
  cases freed : program.machine.poolFreed with
  | false => rfl
  | true => exact absurd (sound.freed.mp freed) runs

theorem at_within (machine : Machine) (within : Within) :
    (machine.at 0 within).clients 0 = within := by
  change Function.update machine.clients 0 within 0 = within
  exact Function.update_self _ _ _

theorem sound_moved {within : Within} {statement : Statement} {resArg : Option Int}
    (sound : Sound program stage) (alive : program.machine.poolFreed = false)
    (fits : Fits (program.arg * program.arg) statement within stage resArg)
    (goesOn : statement ≠ .returned)
    (created : Created program.machine.pool.threadsSize program.machine.workers.length statement)
    (awaited : ∀ worker, ¬ Awaited statement worker) :
    Sound { program with
      machine := program.machine.at 0 within
      resArg := resArg
      statement := statement } stage := by
  obtain ⟨held, crew, _, _, size, count, _, handles, kept, _⟩ := sound
  constructor
  · exact ⟨held.tasks, held.results, held.place, held.queue, held.unused⟩
  · exact ⟨crew.holder, crew.counts, crew.nobody, crew.fresh⟩
  · change Fits _ _ (Function.update program.machine.clients 0 within 0) stage resArg
    rw [Function.update_self]
    exact fits
  · exact iff_of_false (ne_true_of_eq_false alive) goesOn
  · exact size
  · exact count
  · exact created
  · exact handles
  · exact kept
  · intro worker thread waited
    exact absurd waited (awaited worker)

theorem new_task_goes (sound : Sound program .unmade) (here : program.statement = .newTask)
    (outside : program.machine.clients 0 = .outside) (saved : program.resArg = none) :
    Goes program := by
  have alive := alive_of_sound sound (by rw [here]; rintro ⟨⟩)
  have empty : program.machine.tasks = Heap.empty := sound.task.tasks
  have performed : mainStep program .started = .ok (.made 0, { program with
      machine := { program.machine with tasks := Heap.empty.alloc (threadTaskNew Nat) }
      statement := .push 0 }) := by
    simp only [mainStep, here, access, Accesses.perform, ok_bind, empty]
    rfl
  refine ⟨_, _, .made, performed, rfl, ?_, ?_⟩
  · obtain ⟨held, crew, _, _, size, count, created, handles, kept, _⟩ := sound
    have workers : program.machine.workers = [] := crew.nobody (.inl rfl)
    rw [here] at created
    constructor
    · exact ⟨rfl, held.results, held.place, held.queue, fun _ => held.unused (.inl rfl)⟩
    · exact ⟨crew.holder, crew.counts, fun _ => workers, (by rintro ⟨⟩)⟩
    · dsimp only
      rw [outside, saved]
      exact .push
    · exact iff_of_false (ne_true_of_eq_false alive) (by rintro ⟨⟩)
    · exact size
    · exact count
    · exact created
    · exact handles
    · exact kept
    · intro worker thread awaited
      cases awaited
  · refine Prod.Lex.left _ _ ?_
    dsimp only
    rw [here, outside]
    decide

theorem call_moves {step : Accesses.Step} {report : Report} {within : Within}
    {inside behind : Statement}
    (calls : mainStep program .started = inCall program step inside behind)
    (performed : Accesses.perform program.machine step = .ok (report, program.machine.at 0 within))
    (quiet : resultOf program report = program.resArg) (stays : within ≠ .outside) :
    mainStep program .started = .ok (report, { program with
      machine := program.machine.at 0 within
      resArg := program.resArg
      statement := inside }) := by
  simp only [calls, inCall, access, performed, ok_bind, quiet, at_within, if_neg stays]

theorem call_returns {step : Accesses.Step} {report : Report} {machine : Machine}
    {inside behind : Statement}
    (calls : mainStep program .started = inCall program step inside behind)
    (performed : Accesses.perform program.machine step = .ok (report, machine.at 0 .outside)) :
    mainStep program .started = .ok (report, { program with
      machine := machine.at 0 .outside
      resArg := resultOf program report
      statement := behind }) := by
  simp only [calls, inCall, access, performed, ok_bind, at_within, if_true]

theorem closer_of_phase {next : Program}
    (fewer : phase next.statement (next.machine.clients 0) <
      phase program.statement (program.machine.clients 0)) : Closer next program :=
  Prod.Lex.left _ _ fewer

/-- A step inside a call, or into one. -/
theorem goes_inside {step : Accesses.Step} {report : Report} {before within : Within}
    {inside behind : Statement} (sound : Sound program stage)
    (alive : program.machine.poolFreed = false) (here : program.machine.clients 0 = before)
    (calls : mainStep program .started = inCall program step inside behind)
    (performed : Accesses.perform program.machine step = .ok (report, program.machine.at 0 within))
    (quiet : resultOf program report = program.resArg) (stays : within ≠ .outside)
    (fits : Fits (program.arg * program.arg) inside within stage program.resArg)
    (goesOn : inside ≠ .returned)
    (created : Created program.machine.pool.threadsSize program.machine.workers.length inside)
    (awaited : ∀ worker, ¬ Awaited inside worker)
    (fewer : phase inside within < phase program.statement before) : Goes program := by
  refine ⟨_, _, stage, call_moves calls performed quiet stays, rfl,
    sound_moved sound alive fits goesOn created awaited, closer_of_phase ?_⟩
  dsimp only
  rw [at_within, here]
  exact fewer

theorem push_goes (sound : Sound program .made) (here : program.statement = .push 0)
    (outside : program.machine.clients 0 = .outside) (saved : program.resArg = none) :
    Goes program := by
  have alive := alive_of_sound sound (by rw [here]; rintro ⟨⟩)
  have created := sound.created
  rw [here] at created
  have few : program.machine.pool.threadCount + 1 ≠ tpoolMaxTasks := by
    rw [sound.count, show program.machine.workers.length = 0 from created]
    decide
  have pushed : Accesses.perform program.machine (.push 0 (some 0)) =
      .ok (.silent, program.machine.at 0 (.pushing 0)) := by
    simp only [Accesses.perform, if_pos outside, Accesses.pushCall, alive, Bool.false_eq_true,
      if_false, if_neg few]
  have calls : mainStep program .started =
      inCall program (.push 0 (some 0)) (.pushing 0) (.executing 0 0) := by
    simp only [mainStep, here]
  exact goes_inside sound alive outside calls pushed rfl (by rintro ⟨⟩)
    (by rw [saved]; exact .pushing) (by rintro ⟨⟩) created (fun _ => id) (by rw [here]; decide)

theorem pushing_goes (sound : Sound program .made) (here : program.statement = .pushing 0)
    (within : program.machine.clients 0 = .pushing 0) (saved : program.resArg = none) :
    Goes program := by
  have alive := alive_of_sound sound (by rw [here]; rintro ⟨⟩)
  have workers : program.machine.workers = [] := sound.crew.nobody (.inr rfl)
  have tail := sound.task.unused (.inr rfl)
  have queue := sound.task.queue
  have unlocked : program.machine.critical = none := by
    cases held : program.machine.critical with
    | none => rfl
    | some pair =>
        obtain ⟨thread, present, _⟩ := sound.crew.holder pair.1 pair.2 held
        rw [workers] at present
        cases present
  have inside : 0 ≤ program.machine.pool.queueTail ∧
      program.machine.pool.queueTail.toNat < program.machine.pool.queue.length := by
    rw [tail, queue.length]
    decide
  have pushed := Accesses.push_locked_completes within alive unlocked inside
  have calls : mainStep program .started =
      inCall program (.advance 0) (.pushing 0) (.executing 0 0) := by
    simp only [mainStep, here]
  refine ⟨_, _, .waiting, call_returns calls pushed, rfl, ?_, closer_of_phase ?_⟩
  · obtain ⟨held, crew, _, _, size, count, created, handles, kept, _⟩ := sound
    rw [here] at created
    constructor
    · refine ⟨held.tasks, held.results, held.place, holds_pushed queue 0 inside, Not.elim (by decide)⟩
    · refine ⟨crew.holder, crew.counts, Not.elim (by decide), ?_⟩
      intro _
      refine ⟨unlocked, ?_⟩
      intro worker thread present
      change program.machine.workers[worker]? = some thread at present
      rw [workers] at present
      cases present
    · dsimp only
      rw [at_within, show resultOf program (.pushed 0) = none from saved]
      exact .executing trivial
    · exact iff_of_false (ne_true_of_eq_false alive) (by rintro ⟨⟩)
    · exact size
    · exact count
    · refine ⟨created, ?_⟩
      have one := size.1
      change (0 : Int) ≤ program.machine.pool.threadsSize
      omega
    · exact handles
    · exact kept
    · intro worker thread awaited
      cases awaited
  · dsimp only
    rw [at_within, here, within]
    decide

/-! ### The loop of `thread_task_execute` -/

theorem closer_of_turns {next : Program}
    (same : phase next.statement (next.machine.clients 0) =
      phase program.statement (program.machine.clients 0))
    (fewer : turns next.machine.pool.threadsSize next.statement <
      turns program.machine.pool.threadsSize program.statement) : Closer next program := by
  unfold Closer mainLeft
  rw [same]
  exact Prod.Lex.right _ fewer

theorem crew_created {machine : Machine} (crew : Crew machine stage) (started : Started stage) :
    Crew { machine with
      pool := { machine.pool with threadCount := machine.pool.threadCount + 1 }
      workers := machine.workers ++ [⟨0, false⟩] } stage := by
  have last : ∀ (worker : Nat) (thread : Worker),
      (machine.workers ++ [⟨0, false⟩])[worker]? = some thread →
        machine.workers[worker]? = some thread ∨ thread = ⟨0, false⟩ := by
    intro worker thread present
    rcases List.mem_append.mp (List.mem_of_getElem? present) with old | new
    · by_cases inside : worker < machine.workers.length
      · rw [List.getElem?_append_left inside] at present
        exact .inl present
      · obtain ⟨bound, _⟩ := List.getElem?_eq_some_iff.mp present
        rw [List.length_append, List.length_singleton] at bound
        have end_ : worker = machine.workers.length := by omega
        rw [end_, List.getElem?_concat_length] at present
        exact .inr (Option.some.inj present).symm
    · exact .inr (List.mem_singleton.mp new)
  constructor
  · intro worker here holds
    obtain ⟨thread, present, runs⟩ := crew.holder worker here holds
    obtain ⟨inside, _⟩ := List.getElem?_eq_some_iff.mp present
    exact ⟨thread, (List.getElem?_append_left inside).trans present, runs⟩
  · intro worker thread present
    rcases last worker thread present with old | rfl
    · exact crew.counts worker thread old
    · exact ⟨Nat.zero_le _, by decide⟩
  · intro early
    rcases early with rfl | rfl
    · exact started.elim
    · exact started.elim
  · intro isWaiting
    obtain ⟨unlocked, fresh⟩ := crew.fresh isWaiting
    refine ⟨unlocked, ?_⟩
    intro worker thread present
    rcases last worker thread present with old | rfl
    · exact fresh worker thread old
    · rfl

theorem execute_goes {index : Nat} (sound : Sound program stage)
    (here : program.statement = .executing 0 index) (outside : program.machine.clients 0 = .outside)
    (saved : program.resArg = none) (started : Started stage) : Goes program := by
  have alive := alive_of_sound sound (by rw [here]; rintro ⟨⟩)
  obtain ⟨held, crew, _, _, size, count, created, handles, kept, _⟩ := sound
  rw [here] at created
  obtain ⟨workers, inside⟩ := created
  by_cases inLoop : (index : Int) < program.machine.pool.threadsSize
  · have room : index < program.threads.length := by
      rw [handles]
      omega
    have performed : mainStep program .started = .ok (.silent, { program with
        machine := { program.machine with
          pool := { program.machine.pool with
            threadCount := program.machine.pool.threadCount + 1 }
          workers := program.machine.workers ++ [⟨0, false⟩] }
        threads := program.threads.set index (some program.machine.workers.length)
        statement := .executing 0 (index + 1) }) := by
      simp only [mainStep, here, executeStep, alive, Bool.false_eq_true, if_false, if_pos inLoop,
        if_pos room, createThread, access, Accesses.perform, ok_bind]
    refine ⟨_, _, stage, performed, rfl, ?_, closer_of_turns ?_ ?_⟩
    · constructor
      · have queue := held.queue
        exact ⟨held.tasks, held.results, held.place, ⟨queue.length, queue.head, queue.tail,
          queue.bound, queue.count, queue.cells⟩, held.unused⟩
      · exact crew_created crew started
      · dsimp only
        rw [outside, saved]
        exact .executing started
      · exact iff_of_false (ne_true_of_eq_false alive) (by rintro ⟨⟩)
      · exact size
      · dsimp only
        rw [List.length_append, List.length_singleton, count]
        rfl
      · change (program.machine.workers ++ [_]).length = index + 1 ∧
          ((index + 1 : Nat) : Int) ≤ program.machine.pool.threadsSize
        rw [List.length_append, List.length_singleton, workers]
        exact ⟨rfl, by omega⟩
      · exact List.length_set.trans handles
      · intro worker below
        change worker < (program.machine.workers ++ [_]).length at below
        change (program.threads.set index (some program.machine.workers.length))[worker]? = _
        rw [List.length_append, List.length_singleton] at below
        by_cases last : worker = index
        · rw [last, List.getElem?_set_self room, workers]
        · rw [List.getElem?_set_ne (Ne.symm last)]
          exact kept worker (by omega)
      · intro worker thread awaited
        cases awaited
    · dsimp only
      rw [here]
      rfl
    · dsimp only
      rw [here]
      change (program.machine.pool.threadsSize - ((index + 1 : Nat) : Int)).toNat <
        (program.machine.pool.threadsSize - (index : Int)).toNat
      omega
  · have full : (program.machine.workers.length : Int) = program.machine.pool.threadsSize := by
      omega
    have performed : mainStep program .started =
        .ok (.silent, { program with statement := .join 0 }) := by
      simp only [mainStep, here, executeStep, alive, Bool.false_eq_true, if_false, if_neg inLoop,
        count, full, ne_eq, not_true_eq_false]
    refine ⟨_, _, stage, performed, rfl, ?_, closer_of_phase ?_⟩
    · refine ⟨held, crew, ?_, ?_, size, count, full, handles, kept, ?_⟩
      · dsimp only
        rw [outside, saved]
        exact .join started
      · exact iff_of_false (ne_true_of_eq_false alive) (by rintro ⟨⟩)
      · intro worker thread awaited
        cases awaited
    · dsimp only
      rw [here, outside]
      exact Nat.lt_succ_self 10

/-! ### The join and the deletes -/

theorem tasks_read (held : AtStage (program.arg * program.arg) stage program.machine) :
    program.machine.tasks.read 0 = cellAt stage := by
  rw [held.tasks]
  cases stage <;> rfl

theorem join_goes (sound : Sound program stage) (here : program.statement = .join 0)
    (outside : program.machine.clients 0 = .outside) (saved : program.resArg = none)
    (started : Started stage) : Goes program := by
  have alive := alive_of_sound sound (by rw [here]; rintro ⟨⟩)
  have created := sound.created
  rw [here] at created
  have joined : Accesses.perform program.machine (.join 0 (some 0)) =
      .ok (.silent, program.machine.at 0 (.readingFinished 0)) := by
    simp only [Accesses.perform, if_pos outside, Accesses.joinCall]
  have calls : mainStep program .started =
      inCall program (.join 0 (some 0)) (.joining 0) (.delete 0) := by
    simp only [mainStep, here]
  exact goes_inside sound alive outside calls joined rfl (by rintro ⟨⟩)
    (by rw [saved]; exact .readingFinished started) (by rintro ⟨⟩) created (fun _ => id)
    (by rw [here]; decide)

theorem joining_calls (here : program.statement = .joining 0) :
    mainStep program .started = inCall program (.advance 0) (.joining 0) (.delete 0) := by
  simp only [mainStep, here]

theorem finished_goes (sound : Sound program stage) (here : program.statement = .joining 0)
    (within : program.machine.clients 0 = .readingFinished 0) (saved : program.resArg = none)
    (flagged : stage = .finished ∨ stage = .done) : Goes program := by
  have alive := alive_of_sound sound (by rw [here]; rintro ⟨⟩)
  have created := sound.created
  rw [here] at created
  have read := tasks_read sound.task
  have advanced : Accesses.perform program.machine (.advance 0) =
      .ok (.silent, program.machine.at 0 (.readingRunning 0)) := by
    rcases flagged with rfl | rfl
    · simp only [Accesses.perform, Accesses.clientStep, within, Accesses.joinAccess, read, cellAt,
        Accesses.joinStep, if_true]
    · simp only [Accesses.perform, Accesses.clientStep, within, Accesses.joinAccess, read, cellAt,
        Accesses.joinStep, if_true]
  exact goes_inside sound alive within (joining_calls here) advanced rfl (by rintro ⟨⟩)
    (by rw [saved]; exact .readingRunning flagged) (by rintro ⟨⟩) created (fun _ => id)
    (by rw [here]; decide)

/-- The loop of the join goes round. -/
theorem unfinished_waits (sound : Sound program stage) (here : program.statement = .joining 0)
    (within : program.machine.clients 0 = .readingFinished 0) (started : Started stage)
    (unflagged : ¬ (stage = .finished ∨ stage = .done)) :
    ∃ report next after, mainStep program .started = .ok (report, next) ∧
      next.arg = program.arg ∧ Sound next after := by
  have read := tasks_read sound.task
  have advanced : Accesses.perform program.machine (.advance 0) =
      .ok (.silent, program.machine) := by
    cases stage with
    | finished => exact absurd (.inl rfl) unflagged
    | done => exact absurd (.inr rfl) unflagged
    | unmade => exact started.elim
    | made => exact started.elim
    | joined => exact started.elim
    | freed => exact started.elim
    | _ =>
        simp only [Accesses.perform, Accesses.clientStep, within, Accesses.joinAccess, read, cellAt,
          Accesses.joinStep, Bool.false_eq_true, if_false]
  refine ⟨.silent, program, stage, ?_, rfl, sound⟩
  simp only [joining_calls here, inCall, access, advanced, ok_bind, within]
  rw [if_neg (by rintro ⟨⟩), ← here]
  rfl

theorem running_waits (sound : Sound program .finished) (here : program.statement = .joining 0)
    (within : program.machine.clients 0 = .readingRunning 0) (saved : program.resArg = none) :
    ∃ report next after, mainStep program .started = .ok (report, next) ∧
      next.arg = program.arg ∧ Sound next after := by
  have alive := alive_of_sound sound (by rw [here]; rintro ⟨⟩)
  have created := sound.created
  rw [here] at created
  have read := tasks_read sound.task
  have advanced : Accesses.perform program.machine (.advance 0) =
      .ok (.silent, program.machine.at 0 (.readingFinished 0)) := by
    simp only [Accesses.perform, Accesses.clientStep, within, Accesses.joinAccess, read, cellAt,
      Accesses.joinStep, if_true]
  refine ⟨_, _, .finished, call_moves (joining_calls here) advanced rfl (by rintro ⟨⟩), rfl,
    sound_moved sound alive ?_ (by rintro ⟨⟩) created (fun _ => id)⟩
  rw [saved]
  exact .readingFinished trivial

theorem done_goes (sound : Sound program .done) (here : program.statement = .joining 0)
    (within : program.machine.clients 0 = .readingRunning 0) (saved : program.resArg = none) :
    Goes program := by
  have alive := alive_of_sound sound (by rw [here]; rintro ⟨⟩)
  have created := sound.created
  rw [here] at created
  have read := tasks_read sound.task
  have advanced : Accesses.perform program.machine (.advance 0) =
      .ok (.waited 0, program.machine.at 0 (.copying 0)) := by
    simp only [Accesses.perform, Accesses.clientStep, within, Accesses.joinAccess, read, cellAt,
      Accesses.joinStep, Bool.false_eq_true, if_false]
  exact goes_inside sound alive within (joining_calls here) advanced rfl (by rintro ⟨⟩)
    (by rw [saved]; exact .copying) (by rintro ⟨⟩) created (fun _ => id) (by rw [here]; decide)

theorem copying_goes (sound : Sound program .done) (here : program.statement = .joining 0)
    (within : program.machine.clients 0 = .copying 0) (saved : program.resArg = none) :
    Goes program := by
  have alive := alive_of_sound sound (by rw [here]; rintro ⟨⟩)
  have created := sound.created
  rw [here] at created
  have read := tasks_read sound.task
  have result : program.machine.results.read 0 = some (program.arg * program.arg) := by
    rw [sound.task.results]
    rfl
  have advanced : Accesses.perform program.machine (.advance 0) =
      .ok (.silent, program.machine.at 0 (.freeing 0 (program.arg * program.arg))) := by
    simp only [Accesses.perform, Accesses.clientStep, within, Accesses.joinAccess, read, cellAt,
      Accesses.joinStep, result]
  exact goes_inside sound alive within (joining_calls here) advanced rfl (by rintro ⟨⟩)
    (by rw [saved]; exact .freeing) (by rintro ⟨⟩) created (fun _ => id)
    (by rw [here]; exact Nat.lt_succ_self 6)

theorem freeing_goes (sound : Sound program .done) (here : program.statement = .joining 0)
    (within : program.machine.clients 0 = .freeing 0 (program.arg * program.arg)) :
    Goes program := by
  have alive := alive_of_sound sound (by rw [here]; rintro ⟨⟩)
  have read := tasks_read sound.task
  have results : program.machine.results = ⟨[some (program.arg * program.arg)]⟩ :=
    sound.task.results
  have result : program.machine.results.read 0 = some (program.arg * program.arg) := by
    rw [results]
    rfl
  have advanced : Accesses.perform program.machine (.advance 0) =
      .ok (.joined 0 (program.arg * program.arg),
        { program.machine with results := program.machine.results.release 0 }.at 0 .outside) := by
    simp only [Accesses.perform, Accesses.clientStep, within, Accesses.joinAccess, read, cellAt,
      Accesses.joinStep, result]
  refine ⟨_, _, .joined, call_returns (joining_calls here) advanced, rfl, ?_, closer_of_phase ?_⟩
  · obtain ⟨held, crew, _, _, size, count, created, handles, kept, _⟩ := sound
    rw [here] at created
    constructor
    · refine ⟨held.tasks, ?_, held.place, held.queue, Not.elim (by decide)⟩
      change program.machine.results.release 0 = _
      rw [results]
      rfl
    · exact ⟨crew.holder, crew.counts, Not.elim (by decide), (by rintro ⟨⟩)⟩
    · dsimp only
      rw [at_within]
      exact .delete
    · exact iff_of_false (ne_true_of_eq_false alive) (by rintro ⟨⟩)
    · exact size
    · exact count
    · exact created
    · exact handles
    · exact kept
    · intro worker thread awaited
      cases awaited
  · dsimp only
    rw [at_within, here, within]
    exact Nat.lt_succ_self 5

theorem delete_goes (sound : Sound program .joined) (here : program.statement = .delete 0)
    (outside : program.machine.clients 0 = .outside)
    (saved : program.resArg = some (program.arg * program.arg)) : Goes program := by
  have alive := alive_of_sound sound (by rw [here]; rintro ⟨⟩)
  have created := sound.created
  rw [here] at created
  have read := tasks_read sound.task
  have deleted : Accesses.perform program.machine (.delete 0 (some 0)) =
      .ok (.silent, program.machine.at 0 (.deleting 0)) := by
    simp only [Accesses.perform, if_pos outside, Accesses.deleteCall, read, cellAt, if_true]
  have calls : mainStep program .started =
      inCall program (.delete 0 (some 0)) (.deleting 0) .freeResult := by
    simp only [mainStep, here]
  exact goes_inside sound alive outside calls deleted rfl (by rintro ⟨⟩)
    (by rw [saved]; exact .deleting) (by rintro ⟨⟩) created (fun _ => id) (by rw [here]; decide)

theorem deleting_goes (sound : Sound program .joined) (here : program.statement = .deleting 0)
    (within : program.machine.clients 0 = .deleting 0)
    (saved : program.resArg = some (program.arg * program.arg)) : Goes program := by
  have alive := alive_of_sound sound (by rw [here]; rintro ⟨⟩)
  have read := tasks_read sound.task
  have tasks : program.machine.tasks = ⟨[some ⟨some 0, true, false⟩]⟩ := sound.task.tasks
  have freed : Accesses.perform program.machine (.advance 0) =
      .ok (.freed 0,
        { program.machine with tasks := program.machine.tasks.release 0 }.at 0 .outside) := by
    simp only [Accesses.perform, Accesses.clientStep, within, Accesses.freeTask, read, cellAt]
  have calls : mainStep program .started =
      inCall program (.advance 0) (.deleting 0) .freeResult := by
    simp only [mainStep, here]
  refine ⟨_, _, .freed, call_returns calls freed, rfl, ?_, closer_of_phase ?_⟩
  · obtain ⟨held, crew, _, _, size, count, created, handles, kept, _⟩ := sound
    rw [here] at created
    constructor
    · refine ⟨?_, held.results, held.place, held.queue, Not.elim (by decide)⟩
      change program.machine.tasks.release 0 = _
      rw [tasks]
      rfl
    · exact ⟨crew.holder, crew.counts, Not.elim (by decide), (by rintro ⟨⟩)⟩
    · dsimp only
      rw [at_within, show resultOf program (.freed 0) = _ from saved]
      exact .freeResult
    · exact iff_of_false (ne_true_of_eq_false alive) (by rintro ⟨⟩)
    · exact size
    · exact count
    · exact created
    · exact handles
    · exact kept
    · intro worker thread awaited
      cases awaited
  · dsimp only
    rw [at_within, here, within]
    decide

/-! ### The end -/

theorem free_result_goes (sound : Sound program .freed) (here : program.statement = .freeResult)
    (outside : program.machine.clients 0 = .outside)
    (saved : program.resArg = some (program.arg * program.arg)) : Goes program := by
  have alive := alive_of_sound sound (by rw [here]; rintro ⟨⟩)
  obtain ⟨held, crew, _, _, size, count, created, handles, kept, _⟩ := sound
  rw [here] at created
  have performed : mainStep program .started = .ok (.silent, { program with
      resArg := none
      statement := .joiningPool 0 }) := by
    simp only [mainStep, here, saved]
  refine ⟨_, _, .freed, performed, rfl, ?_, closer_of_phase ?_⟩
  · refine ⟨held, crew, ?_, ?_, size, count, created, handles, kept, ?_⟩
    · dsimp only
      rw [outside]
      exact .joiningPool
    · exact iff_of_false (ne_true_of_eq_false alive) (by rintro ⟨⟩)
    · intro worker thread awaited
      exact absurd awaited (Nat.not_lt_zero worker)
  · dsimp only
    rw [here, outside]
    decide

theorem sound_awaited {statement : Statement} {index : Nat} (sound : Sound program .freed)
    (here : program.statement = .joiningPool index)
    (fits : Fits (program.arg * program.arg) statement .outside .freed none)
    (outside : program.machine.clients 0 = .outside) (saved : program.resArg = none)
    (goesOn : statement ≠ .returned)
    (created : Created program.machine.pool.threadsSize program.machine.workers.length statement)
    (gone : ∀ (worker : Nat) (thread : Worker), Awaited statement worker →
      program.machine.workers[worker]? = some thread → thread.exited = true) :
    Sound { program with statement := statement } .freed := by
  have alive := alive_of_sound sound (by rw [here]; rintro ⟨⟩)
  refine ⟨sound.task, sound.crew, ?_, ?_, sound.size, sound.count, created, sound.handles,
    sound.kept, gone⟩
  · dsimp only
    rw [outside, saved]
    exact fits
  · exact iff_of_false (ne_true_of_eq_false alive) goesOn

theorem join_pool_goes {index : Nat} (sound : Sound program .freed)
    (here : program.statement = .joiningPool index)
    (outside : program.machine.clients 0 = .outside) (saved : program.resArg = none) :
    Goes program ∨ (mainStep program .started = .error (.access .notEnabled) ∧
      ∃ thread, program.machine.workers[index]? = some thread ∧ thread.exited = false) := by
  have alive := alive_of_sound sound (by rw [here]; rintro ⟨⟩)
  have created := sound.created
  have count := sound.count
  have gone := sound.gone
  rw [here] at created gone
  change (program.machine.workers.length : Int) = program.machine.pool.threadsSize at created
  by_cases inLoop : (index : Int) < program.machine.pool.threadCount
  · have inside : index < program.machine.workers.length := by omega
    have handle := sound.kept index inside
    have present := List.getElem?_eq_getElem inside
    generalize program.machine.workers[index] = thread at present
    cases exited : thread.exited with
    | false =>
        refine .inr ⟨?_, thread, present, exited⟩
        simp only [mainStep, here, joinPoolStep, alive, Bool.false_eq_true, if_false,
          if_pos inLoop, joinThread, handle, present, exited]
    | true =>
        left
        have performed : mainStep program .started =
            .ok (.silent, { program with statement := .joiningPool (index + 1) }) := by
          simp only [mainStep, here, joinPoolStep, alive, Bool.false_eq_true, if_false,
            if_pos inLoop, joinThread, handle, present, exited, if_true]
        refine ⟨_, _, .freed, performed, rfl, ?_, closer_of_turns ?_ ?_⟩
        · refine sound_awaited sound here .joiningPool outside saved (by rintro ⟨⟩) created ?_
          intro worker other awaited there
          rcases Nat.lt_succ_iff_lt_or_eq.mp awaited with earlier | rfl
          · exact gone worker other earlier there
          · rw [present] at there
            cases there
            exact exited
        · dsimp only
          rw [here]
          rfl
        · dsimp only
          rw [here]
          change (program.machine.pool.threadsSize - ((index + 1 : Nat) : Int)).toNat <
            (program.machine.pool.threadsSize - (index : Int)).toNat
          omega
  · left
    have performed : mainStep program .started =
        .ok (.silent, { program with statement := .deletePool }) := by
      simp only [mainStep, here, joinPoolStep, alive, Bool.false_eq_true, if_false, if_neg inLoop]
    refine ⟨_, _, .freed, performed, rfl, ?_, closer_of_phase ?_⟩
    · refine sound_awaited sound here .deletePool outside saved (by rintro ⟨⟩) created ?_
      intro worker thread _ present
      obtain ⟨inside, _⟩ := List.getElem?_eq_some_iff.mp present
      refine gone worker thread ?_ present
      change worker < index
      omega
    · dsimp only
      rw [here, outside]
      exact Nat.lt_succ_self 1

theorem delete_pool_goes (sound : Sound program .freed) (here : program.statement = .deletePool)
    (outside : program.machine.clients 0 = .outside) (saved : program.resArg = none) :
    Goes program := by
  have alive := alive_of_sound sound (by rw [here]; rintro ⟨⟩)
  obtain ⟨held, crew, _, _, size, count, created, handles, kept, gone⟩ := sound
  rw [here] at created gone
  have performed : mainStep program .started = .ok (.poolFreed, { program with
      machine := { program.machine with poolFreed := true }
      statement := .returned }) := by
    simp only [mainStep, here, access, Accesses.perform, alive, Bool.false_eq_true, if_false,
      ok_bind]
  refine ⟨_, _, .freed, performed, rfl, ?_, closer_of_phase ?_⟩
  · refine ⟨⟨held.tasks, held.results, held.place, held.queue, Not.elim (by decide)⟩,
      ⟨crew.holder, crew.counts, Not.elim (by decide), (by rintro ⟨⟩)⟩, ?_, iff_of_true rfl rfl,
      size, count, created, handles, kept, fun worker thread _ => gone worker thread trivial⟩
    dsimp only
    rw [outside, saved]
    exact .returned
  · dsimp only
    rw [here, outside]
    decide

/-- What `main` can be waiting for. -/
inductive Waiting (program : Program) : Stage → Prop where
  /-- In its busy loop, for the task to be finished. -/
  | finished {stage : Stage} (here : program.statement = .joining 0)
      (within : program.machine.clients 0 = .readingFinished 0) (started : Started stage)
      (unflagged : ¬ (stage = .finished ∨ stage = .done)) : Waiting program stage
  /-- For the worker's last store. -/
  | running (here : program.statement = .joining 0)
      (within : program.machine.clients 0 = .readingRunning 0) : Waiting program .finished
  /-- For a worker to exit. -/
  | exit {index : Nat} {thread : Worker} (here : program.statement = .joiningPool index)
      (present : program.machine.workers[index]? = some thread) (runs : thread.exited = false) :
      Waiting program .freed

/-- `main` comes closer to its end, has returned, or waits for a worker. -/
theorem main_progress (sound : Sound program stage) :
    Goes program ∨ program.statement = .returned ∨ Waiting program stage := by
  have fits := sound.fits
  generalize here : program.statement = statement at fits
  generalize within : program.machine.clients 0 = place at fits
  generalize saved : program.resArg = resArg at fits
  cases fits with
  | newTask => exact .inl (new_task_goes sound here within saved)
  | push => exact .inl (push_goes sound here within saved)
  | pushing => exact .inl (pushing_goes sound here within saved)
  | executing started => exact .inl (execute_goes sound here within saved started)
  | join started => exact .inl (join_goes sound here within saved started)
  | readingFinished started =>
      by_cases flagged : stage = .finished ∨ stage = .done
      · exact .inl (finished_goes sound here within saved flagged)
      · exact .inr (.inr (.finished here within started flagged))
  | readingRunning flagged =>
      rcases flagged with rfl | rfl
      · exact .inr (.inr (.running here within))
      · exact .inl (done_goes sound here within saved)
  | copying => exact .inl (copying_goes sound here within saved)
  | freeing => exact .inl (freeing_goes sound here within)
  | delete => exact .inl (delete_goes sound here within saved)
  | deleting => exact .inl (deleting_goes sound here within saved)
  | freeResult => exact .inl (free_result_goes sound here within saved)
  | joiningPool =>
      rcases join_pool_goes sound here within saved with goes | ⟨_, thread, present, runs⟩
      · exact .inl goes
      · exact .inr (.inr (.exit here present runs))
  | deletePool => exact .inl (delete_pool_goes sound here within saved)
  | returned => exact .inr (.inl rfl)

/-- Whatever `main` does next does not fault. -/
theorem main_sound (sound : Sound program stage) :
    mainStep program .started = .error (.access .notEnabled) ∨
      ∃ report next after, mainStep program .started = .ok (report, next) ∧
      next.arg = program.arg ∧ Sound next after := by
  rcases main_progress sound with ⟨report, next, after, performed, same, held, _⟩ | returned | waiting
  · exact .inr ⟨report, next, after, performed, same, held⟩
  · left
    simp only [mainStep, returned]
  · cases waiting with
    | finished here within started unflagged =>
        exact .inr (unfinished_waits sound here within started unflagged)
    | running here within =>
        have fits := sound.fits
        rw [here, within] at fits
        generalize saved : program.resArg = resArg at fits
        cases fits with
        | readingRunning flagged => exact .inr (running_waits sound here within saved)
    | @exit index thread here present runs =>
        left
        have alive := alive_of_sound sound (by rw [here]; rintro ⟨⟩)
        obtain ⟨inside, _⟩ := List.getElem?_eq_some_iff.mp present
        have handle := sound.kept index inside
        have inLoop : (index : Int) < program.machine.pool.threadCount := by
          rw [sound.count]
          omega
        simp only [mainStep, here, joinPoolStep, alive, Bool.false_eq_true, if_false,
          if_pos inLoop, joinThread, handle, present, runs]

end Main

end Sysprog.Threads.MainRuns
