import Sysprog.Threads.TaskLives

/-!
# Joining before deleting

The loop of `thread_task_join` reads `is_finished` and later `is_running`. A
task that is pushed at most once is out of use when the loop ends and stays
so, and only its joining client can be about to free it.
-/

namespace Sysprog.Threads.JoinedTasks

open CheckedRuns Accesses AccessInvariants TaskLives
open Pool (ThreadPool ThreadTask threadPoolNew newPool threadTaskNew)

set_option autoImplicit false

def Waited (history : History) (task : Nat) : Prop :=
  ∃ client, ⟨.advance client, .waited task⟩ ∈ history

def JoinedBy (history : History) (client task : Nat) : Prop :=
  ∃ value, ⟨.advance client, .joined task value⟩ ∈ history

def Freed (history : History) (task : Nat) : Prop :=
  ∃ step, ⟨step, .freed task⟩ ∈ history

def DeletesJoined (history : History) (task : Nat) : Prop :=
  ∀ before client, before ++ [⟨.delete client (some task), .silent⟩] <+: history →
    JoinedBy before client task

/-- What is asked of a task that is pushed at most once, after any steps: once
a waiting loop has ended its function has returned, `ret` is what it returned
and no worker comes to it again; a delete by a client that joined goes through
as long as nobody has freed the task; and where deletes come after joins, the
`free` is that of an allocated task out of use. -/
structure JoinedSafely (history : History) (machine : Machine) (task : Nat) : Prop where
  finished : Waited history task → ¬ InUse machine task ∧ pushesOf history task = 1 ∧
    ∃ res, executionsOf history task = [res] ∧
      ∀ cell, machine.tasks.read task = some cell → cell.ret = res.map Prod.fst
  deletes : ∀ client, JoinedBy history client task → ¬ Freed history task →
    machine.clients client = .outside →
      perform machine (.delete client (some task)) = .ok (.silent, machine.at client (.deleting task))
  frees : DeletesJoined history task → ∀ client, machine.clients client = .deleting task →
    ¬ InUse machine task ∧ ∃ next, perform machine (.advance client) = .ok (.freed task, next) ∧
      next.tasks.read task = none

def Finished (history : History) (machine : Machine) (task : Nat) : Prop :=
  executionsOf history task ≠ [] ∧
    ∀ cell, machine.tasks.read task = some cell → cell.isFinished = true

/-- How far the joins and deletes of a task have come. -/
structure Joins (task : Nat) (history : History) (machine : Machine) : Prop where
  reading : ∀ client, machine.clients client = .readingRunning task → Finished history machine task
  finished : Waited history task → Finished history machine task
  unused : Waited history task → pushesOf history task ≤ 1 → ¬ (lifeOf machine task).Used
  present : Waited history task → ¬ Freed history task → ∃ cell, machine.tasks.read task = some cell
  copying : ∀ client, machine.clients client = .copying task → Waited history task
  freeing : ∀ client value, machine.clients client = .freeing task value → Waited history task ∧
    (pushesOf history task ≤ 1 → ∃ address, lastResult (executionsOf history task) = some address)
  joined : ∀ client, JoinedBy history client task → Waited history task ∧
    (pushesOf history task ≤ 1 → ∃ address, lastResult (executionsOf history task) = some address ∧
      machine.results.read address = none)
  single : pushesOf history task ≤ 1 → ∀ client other, JoinedBy history client task →
    JoinedBy history other task → client = other
  deleting : pushesOf history task ≤ 1 → DeletesJoined history task →
    ∀ client, machine.clients client = .deleting task →
      JoinedBy history client task ∧ ∃ cell, machine.tasks.read task = some cell

/-! ## Histories -/

section Histories

variable {history : History} {step : Step} {report : Report} {task : Nat}

theorem waited_before (waited : Waited (history ++ [⟨step, report⟩]) task) :
    Waited history task ∨ report = .waited task := by
  obtain ⟨client, member⟩ := waited
  rcases List.mem_append.mp member with earlier | now
  · exact .inl ⟨client, earlier⟩
  · cases List.mem_singleton.mp now
    exact .inr rfl

theorem waited_after (waited : Waited history task) : Waited (history ++ [⟨step, report⟩]) task := by
  obtain ⟨client, member⟩ := waited
  exact ⟨client, List.mem_append_left _ member⟩

theorem joined_before {client : Nat} (joined : JoinedBy (history ++ [⟨step, report⟩]) client task) :
    JoinedBy history client task ∨ (step = .advance client ∧ ∃ value, report = .joined task value) := by
  obtain ⟨value, member⟩ := joined
  rcases List.mem_append.mp member with earlier | now
  · exact .inl ⟨value, earlier⟩
  · cases List.mem_singleton.mp now
    exact .inr ⟨rfl, value, rfl⟩

theorem joined_after {client : Nat} (joined : JoinedBy history client task) :
    JoinedBy (history ++ [⟨step, report⟩]) client task := by
  obtain ⟨value, member⟩ := joined
  exact ⟨value, List.mem_append_left _ member⟩

theorem not_freed_before (notFreed : ¬ Freed (history ++ [⟨step, report⟩]) task) :
    ¬ Freed history task ∧ report ≠ .freed task := by
  constructor
  · intro freed
    obtain ⟨earlier, member⟩ := freed
    exact notFreed ⟨earlier, List.mem_append_left _ member⟩
  · intro isFree
    rw [isFree] at notFreed
    exact notFreed ⟨step, List.mem_append_right _ (List.mem_singleton.mpr rfl)⟩

theorem deletes_joined_before (joined : DeletesJoined (history ++ [⟨step, report⟩]) task) :
    DeletesJoined history task := by
  intro before client earlier
  exact joined before client (earlier.trans (List.prefix_append _ _))

theorem pushes_before (once : pushesOf (history ++ [⟨step, report⟩]) task ≤ 1) :
    pushesOf history task ≤ 1 := by
  rw [pushesOf, List.countP_append] at once
  exact Nat.le_trans (Nat.le_add_right _ _) once

theorem executions_after (executed : executionsOf history task ≠ []) :
    executionsOf (history ++ [⟨step, report⟩]) task ≠ [] := by
  rw [executionsOf, List.filterMap_append]
  exact List.append_ne_nil_of_left_ne_nil executed _

theorem executions_kept (notExecuted : ∀ res, report ≠ .executed task res) :
    executionsOf (history ++ [⟨step, report⟩]) task = executionsOf history task := by
  cases report with
  | pushed other => rw [executions_pushed]
  | executed other res =>
      have different : task ≠ other := by
        intro same
        rw [same] at notExecuted
        exact notExecuted res rfl
      rw [executions_executed, Function.update_of_ne different]
  | _ => rw [executions_quiet rfl]

end Histories

/-! ## Steps -/

section Steps

variable {task : Nat} {history : History} {machine next : Machine} {step : Step} {report : Report}

theorem finished_step (holds : Tracks history machine) (effect : Effect machine step report next)
    (finished : Finished history machine task) :
    Finished (history ++ [⟨step, report⟩]) next task := by
  obtain ⟨executed, flagged⟩ := finished
  refine ⟨executions_after executed, ?_⟩
  intro changed found
  have lives := step_lives holds effect task
  have stands : (lifeOf next task).cell = some changed := found
  have before : ∀ cell, (lifeOf machine task).cell = some cell → cell.isFinished = true := flagged
  have allocated := holds.made task executed
  generalize lifeOf next task = after at lives stands
  generalize lifeOf machine task = life at lives before
  cases lives with
  | made new =>
      have isNext := maker effect
      omega
  | freed => cases stands
  | accessed hand isTask present access =>
      cases stands
      have old := before _ present
      rcases access_cases isTask access with ⟨_, _, same⟩ | ⟨_, _, _, same⟩ | ⟨_, _, same⟩ |
        ⟨_, _, same⟩
      · rw [same]
        exact old
      · rw [same]
        exact old
      · rw [same]
      · rw [same]
        exact old
  | _ => exact before changed stands

/-- A task whose loop ends was executed by its only push, and the worker is
behind its last store. -/
theorem unused_of_idle (holds : Tracks history machine) {cell : ThreadTask Nat}
    (present : machine.tasks.read task = some cell) (idle : cell.isRunning = false)
    (executed : executionsOf history task ≠ []) (once : pushesOf history task ≤ 1) :
    ¬ (lifeOf machine task).Used := by
  rw [used_iff]
  obtain ⟨waiting, queued, counts⟩ := holds.queue
  have count := counts task
  have some_execution : 0 < (executionsOf history task).length := List.length_pos_iff.mpr executed
  have notPending : pending? (place machine) ≠ some task := by
    intro isPending
    rw [if_pos isPending] at count
    omega
  intro used
  rcases used with waits | inHand
  · have member := (waits_iff queued task).mp waits
    have positive : 0 < waiting.count task := List.count_pos_iff.mpr member
    omega
  · by_cases isTaken : place machine = .taken task
    · rw [isTaken] at notPending
      exact notPending rfl
    · have running := (holds.running task cell present).mpr ⟨inHand, isTaken⟩
      rw [idle] at running
      cases running

theorem not_pushed (holds : Tracks history machine) (executed : executionsOf history task ≠ [])
    (unused : ¬ (lifeOf machine task).Used)
    (once : pushesOf (history ++ [⟨step, report⟩]) task ≤ 1) : report ≠ .pushed task := by
  intro isPush
  rw [used_iff] at unused
  have balanced := executed_of_unused holds unused
  have some_execution : 0 < (executionsOf history task).length := List.length_pos_iff.mpr executed
  rw [isPush, pushes_pushed, Function.update_self] at once
  omega

theorem not_executed (effect : Effect machine step report next)
    (unused : ¬ (lifeOf machine task).Used) (res : Option (Nat × Int)) :
    report ≠ .executed task res := by
  intro isExecution
  rw [isExecution] at effect
  obtain ⟨worker, calling⟩ := executer effect
  rw [used_iff] at unused
  apply unused
  apply Or.inr
  rw [place_of_holds calling]
  rfl

theorem result_gone {address : Nat} (effect : Effect machine step report next)
    (allocated : address < machine.results.next) (gone : machine.results.read address = none) :
    next.results.read address = none := by
  cases effect with
  | @joined client other freed found cell place present ret stored result =>
      change (machine.results.release freed).read address = none
      by_cases same : address = freed
      · rw [same]
        exact Heap.read_release_self _ _
      · rw [Heap.read_release_of_ne same]
        exact gone
  | executed calling present =>
      exact (Heap.read_alloc_of_ne _ (Nat.ne_of_lt allocated)).trans gone
  | _ => exact gone

end Steps

section Joins

variable {task : Nat} {history : History} {machine next : Machine} {step : Step} {report : Report}

theorem reading_step (holds : Tracks history machine) (joins : Joins task history machine)
    (effect : Effect machine step report next) {client : Nat}
    (reads : next.clients client = .readingRunning task) :
    Finished (history ++ [⟨step, report⟩]) next task := by
  apply finished_step holds effect
  have call := step_calls effect client
  rw [reads] at call
  rcases to_reading_running call with before | ⟨_, _, cell, present, isFinished⟩
  · exact joins.reading client before
  · refine ⟨holds.finished task cell present isFinished, ?_⟩
    intro found there
    rw [present] at there
    cases there
    exact isFinished

theorem waited_step (joins : Joins task history machine)
    (effect : Effect machine step report next)
    (waited : Waited (history ++ [⟨step, report⟩]) task) :
    (Waited history task ∧ Finished history machine task) ∨
      (report = .waited task ∧ Finished history machine task ∧ next.tasks = machine.tasks ∧
        ∃ cell, machine.tasks.read task = some cell ∧ cell.isRunning = false) := by
  rcases waited_before waited with earlier | isWait
  · exact .inl ⟨earlier, joins.finished earlier⟩
  · rw [isWait] at effect
    obtain ⟨client, reading, same, cell, present, idle⟩ := waiter effect
    exact .inr ⟨isWait, joins.reading client reading, same, cell, present, idle⟩

theorem unused_step (holds : Tracks history machine) (joins : Joins task history machine)
    (effect : Effect machine step report next)
    (waited : Waited (history ++ [⟨step, report⟩]) task)
    (once : pushesOf (history ++ [⟨step, report⟩]) task ≤ 1) :
    ¬ (lifeOf machine task).Used ∧ ¬ (lifeOf next task).Used := by
  have before := pushes_before once
  rcases waited_step joins effect waited with ⟨earlier, finished⟩ |
    ⟨isWait, finished, _, cell, present, idle⟩
  · have unused := joins.unused earlier before
    refine ⟨unused, ?_⟩
    exact unused_stays (step_lives holds effect task) unused
      (not_pushed holds finished.1 unused once)
  · have unused := unused_of_idle holds present idle finished.1 before
    refine ⟨unused, ?_⟩
    apply unused_stays (step_lives holds effect task) unused
    rw [isWait]
    exact nofun

theorem still_present (holds : Tracks history machine) (joins : Joins task history machine)
    (effect : Effect machine step report next)
    (waited : Waited (history ++ [⟨step, report⟩]) task)
    (notFreed : ¬ Freed (history ++ [⟨step, report⟩]) task) :
    ∃ cell, next.tasks.read task = some cell := by
  obtain ⟨before, notFree⟩ := not_freed_before notFreed
  rcases waited_step joins effect waited with ⟨earlier, _⟩ | ⟨_, _, same, cell, present, _⟩
  · obtain ⟨cell, present⟩ := joins.present earlier before
    exact present_step holds effect notFree present
  · rw [same]
    exact ⟨cell, present⟩

theorem copying_step (joins : Joins task history machine)
    (effect : Effect machine step report next) {client : Nat}
    (copies : next.clients client = .copying task) :
    Waited (history ++ [⟨step, report⟩]) task := by
  have call := step_calls effect client
  rw [copies] at call
  rcases to_copying call with before | ⟨_, isStep, isReport, _⟩
  · exact waited_after (joins.copying client before)
  · rw [isStep, isReport]
    exact ⟨client, List.mem_append_right _ (List.mem_singleton.mpr rfl)⟩

theorem executions_step (joins : Joins task history machine)
    (effect : Effect machine step report next) (waited : Waited history task)
    (once : pushesOf (history ++ [⟨step, report⟩]) task ≤ 1) :
    executionsOf (history ++ [⟨step, report⟩]) task = executionsOf history task :=
  executions_kept (not_executed effect (joins.unused waited (pushes_before once)))

theorem ret_of_unused (holds : Tracks history machine) (joins : Joins task history machine)
    (waited : Waited history task) (once : pushesOf history task ≤ 1)
    {cell : ThreadTask Nat} (present : machine.tasks.read task = some cell) :
    cell.ret = lastResult (executionsOf history task) := by
  apply holds.ret task cell present
  intro res returned
  have unused := joins.unused waited once
  rw [used_iff] at unused
  apply unused
  apply Or.inr
  rw [returned]
  rfl

theorem freeing_step (holds : Tracks history machine) (joins : Joins task history machine)
    (effect : Effect machine step report next) {client : Nat} {value : Int}
    (frees : next.clients client = .freeing task value) :
    Waited (history ++ [⟨step, report⟩]) task ∧
      (pushesOf (history ++ [⟨step, report⟩]) task ≤ 1 →
        ∃ address, lastResult (executionsOf (history ++ [⟨step, report⟩]) task) = some address) := by
  have call := step_calls effect client
  rw [frees] at call
  rcases to_freeing call with before | ⟨before, _, cell, address, present, ret, _⟩
  · obtain ⟨waited, returned⟩ := joins.freeing client value before
    refine ⟨waited_after waited, ?_⟩
    intro once
    rw [executions_step joins effect waited once]
    exact returned (pushes_before once)
  · have waited := joins.copying client before
    refine ⟨waited_after waited, ?_⟩
    intro once
    have last := ret_of_unused holds joins waited (pushes_before once) present
    rw [executions_step joins effect waited once, ← last]
    exact ⟨address, ret⟩

theorem joined_step (holds : Tracks history machine) (joins : Joins task history machine)
    (effect : Effect machine step report next) {client : Nat}
    (joined : JoinedBy (history ++ [⟨step, report⟩]) client task) :
    Waited (history ++ [⟨step, report⟩]) task ∧
      (pushesOf (history ++ [⟨step, report⟩]) task ≤ 1 →
        ∃ address, lastResult (executionsOf (history ++ [⟨step, report⟩]) task) = some address ∧
          next.results.read address = none) := by
  rcases joined_before joined with earlier | ⟨_, value, isJoin⟩
  · obtain ⟨waited, gone⟩ := joins.joined client earlier
    refine ⟨waited_after waited, ?_⟩
    intro once
    obtain ⟨address, last, released⟩ := gone (pushes_before once)
    obtain ⟨found, member⟩ := mem_of_last_result last
    rw [executions_step joins effect waited once]
    exact ⟨address, last, result_gone effect (holds.allocated task address found member) released⟩
  · rw [isJoin] at effect ⊢
    obtain ⟨actor, _, freeing, _⟩ := joiner effect
    obtain ⟨cell, present, releases⟩ := join_releases effect
    obtain ⟨waited, returned⟩ := joins.freeing actor value freeing
    refine ⟨waited_after waited, ?_⟩
    intro once
    have before := pushes_before once
    obtain ⟨address, last⟩ := returned before
    have ret := ret_of_unused holds joins waited before present
    rw [executions_step joins effect waited once]
    exact ⟨address, last, (releases address (ret.trans last)).2⟩

/-- The last result is gone after a join, so another join cannot read it. -/
theorem not_joined_again (holds : Tracks history machine) (joins : Joins task history machine)
    {value : Int} (effect : Effect machine step (.joined task value) next)
    (once : pushesOf history task ≤ 1) (client : Nat) : ¬ JoinedBy history client task := by
  intro joined
  obtain ⟨waited, gone⟩ := joins.joined client joined
  obtain ⟨address, last, released⟩ := gone once
  obtain ⟨cell, present, releases⟩ := join_releases effect
  have ret := ret_of_unused holds joins waited once present
  obtain ⟨⟨stored, there⟩, _⟩ := releases address (ret.trans last)
  rw [released] at there
  cases there

theorem single_step (holds : Tracks history machine) (joins : Joins task history machine)
    (effect : Effect machine step report next)
    (once : pushesOf (history ++ [⟨step, report⟩]) task ≤ 1) {client other : Nat}
    (first : JoinedBy (history ++ [⟨step, report⟩]) client task)
    (second : JoinedBy (history ++ [⟨step, report⟩]) other task) : client = other := by
  have before := pushes_before once
  rcases joined_before first with earlier | ⟨isStep, value, isJoin⟩
  · rcases joined_before second with also | ⟨_, value, isJoin⟩
    · exact joins.single before client other earlier also
    · rw [isJoin] at effect
      exact absurd earlier (not_joined_again holds joins effect before client)
  · rcases joined_before second with also | ⟨same, _⟩
    · rw [isJoin] at effect
      exact absurd also (not_joined_again holds joins effect before other)
    · rw [isStep] at same
      exact Step.advance.inj same

theorem deleting_step (holds : Tracks history machine) (joins : Joins task history machine)
    (effect : Effect machine step report next)
    (once : pushesOf (history ++ [⟨step, report⟩]) task ≤ 1)
    (afterJoin : DeletesJoined (history ++ [⟨step, report⟩]) task) {client : Nat}
    (deletes : next.clients client = .deleting task) :
    JoinedBy (history ++ [⟨step, report⟩]) client task ∧
      ∃ cell, next.tasks.read task = some cell := by
  have before := pushes_before once
  have joinedBefore := deletes_joined_before afterJoin
  have call := step_calls effect client
  rw [deletes] at call
  rcases to_deleting call with deleting | ⟨isStep, isReport, only, cell, present, _⟩
  · obtain ⟨joined, cell, present⟩ := joins.deleting before joinedBefore client deleting
    have notFreed : report ≠ .freed task := by
      intro isFree
      rw [isFree] at effect
      obtain ⟨actor, frees, outside⟩ := freer effect
      obtain ⟨also, _⟩ := joins.deleting before joinedBefore actor frees
      rw [← joins.single before client actor joined also, deletes] at outside
      cases outside
    exact ⟨joined_after joined, present_step holds effect notFreed present⟩
  · have same : (⟨.delete client (some task), .silent⟩ : Event Step Report) = ⟨step, report⟩ := by
      rw [isStep, isReport]
    have prior : history ++ [⟨.delete client (some task), .silent⟩] <+:
        history ++ [⟨step, report⟩] := same ▸ List.prefix_rfl
    rw [only]
    exact ⟨joined_after (afterJoin history client prior), cell, present⟩

theorem joins_step (holds : Tracks history machine) (joins : Joins task history machine)
    (effect : Effect machine step report next) :
    Joins task (history ++ [⟨step, report⟩]) next := by
  constructor
  · intro client reads
    exact reading_step holds joins effect reads
  · intro waited
    apply finished_step holds effect
    rcases waited_step joins effect waited with ⟨_, finished⟩ | ⟨_, finished, _⟩
    · exact finished
    · exact finished
  · intro waited once
    exact (unused_step holds joins effect waited once).2
  · intro waited notFreed
    exact still_present holds joins effect waited notFreed
  · intro client copies
    exact copying_step joins effect copies
  · intro client value frees
    exact freeing_step holds joins effect frees
  · intro client joined
    exact joined_step holds joins effect joined
  · intro once client other first second
    exact single_step holds joins effect once first second
  · intro once afterJoin client deletes
    exact deleting_step holds joins effect once afterJoin deletes

end Joins

/-! ## Runs -/

theorem joins_initial (task : Nat) (maxThreadCount : Int) :
    Joins task [] (start (newPool Nat maxThreadCount)) := by
  constructor
  · intro client reads
    cases reads
  · intro waited
    cases waited.choose_spec
  · intro waited
    cases waited.choose_spec
  · intro waited
    cases waited.choose_spec
  · intro client copies
    cases copies
  · intro client value frees
    cases frees
  · intro client joined
    cases joined.choose_spec
  · intro once client other joined
    cases joined.choose_spec
  · intro once afterJoin client deletes
    cases deletes

theorem run_joins (task : Nat) {maxThreadCount : Int} {history : History} {machine : Machine}
    {allowed : History → Machine → Step → Prop}
    (run : Run perform allowed (start (newPool Nat maxThreadCount)) history machine) :
    Tracks history machine ∧ Joins task history machine := by
  apply run_invariant (fun history machine => Tracks history machine ∧ Joins task history machine)
    _ _ run
  · exact ⟨consistent_initial maxThreadCount, joins_initial task maxThreadCount⟩
  · intro history machine step report next held _ performed
    have effect := perform_effect performed
    exact ⟨tracks_step held.1 effect, joins_step held.1 held.2 effect⟩

theorem joined_safely_of_joins {task : Nat} {history : History} {machine : Machine}
    (holds : Tracks history machine) (joins : Joins task history machine)
    (once : pushesOf history task ≤ 1) : JoinedSafely history machine task := by
  constructor
  · intro waited
    have unused := joins.unused waited once
    rw [used_iff] at unused
    have executed := (joins.finished waited).1
    have balanced := executed_of_unused holds unused
    have some_execution : 0 < (executionsOf history task).length :=
      List.length_pos_iff.mpr executed
    have single : (executionsOf history task).length = 1 := by omega
    obtain ⟨res, only⟩ := List.length_eq_one_iff.mp single
    refine ⟨unused, balanced.trans single, res, only, ?_⟩
    intro cell present
    rw [ret_of_unused holds joins waited once present, only]
    cases res with
    | none => rfl
    | some result => rfl
  · intro client joined notFreed outside
    have waited := (joins.joined client joined).1
    obtain ⟨cell, present⟩ := joins.present waited notFreed
    have isFinished := (joins.finished waited).2 cell present
    simp only [perform, if_pos outside, deleteCall, present, isFinished, if_true]
  · intro afterJoin client deletes
    obtain ⟨joined, cell, present⟩ := joins.deleting once afterJoin client deletes
    have unused := joins.unused (joins.joined client joined).1 once
    rw [used_iff] at unused
    refine ⟨unused, { machine with tasks := machine.tasks.release task }.at client .outside, ?_, ?_⟩
    · simp only [perform, clientStep, deletes, freeTask, present]
    · exact Heap.read_release_self machine.tasks task

/-- In every run, a task pushed at most once is joined and deleted safely. -/
theorem joined_safely {maxThreadCount : Int} {pool : ThreadPool Nat} {history : History}
    {machine : Machine} {task : Nat} (created : threadPoolNew Nat maxThreadCount = .ok pool)
    (run : Run perform (fun _ _ _ => True) (start pool) history machine)
    (once : pushesOf history task ≤ 1) : JoinedSafely history machine task := by
  obtain ⟨rfl, _⟩ := Deliveries.thread_pool_new_ok created
  obtain ⟨holds, joins⟩ := run_joins task run
  exact joined_safely_of_joins holds joins once

def joinedHistory : History := executedHistory ++
  [⟨.join 0 (some 0), .silent⟩, ⟨.advance 0, .silent⟩, ⟨.advance 0, .waited 0⟩,
    ⟨.advance 0, .silent⟩, ⟨.advance 0, .joined 0 5⟩]

theorem no_delete_joined (client : Nat) :
    ⟨.delete client (some 0), .silent⟩ ∉ joinedHistory := by
  simp [joinedHistory, executedHistory, pushedHistory]

theorem deletes_joined_once :
    DeletesJoined (joinedHistory ++ [⟨.delete 0 (some 0), .silent⟩]) 0 := by
  intro before client start
  rcases List.prefix_concat_iff.mp start with whole | earlier
  · obtain ⟨same, last⟩ := List.append_inj' whole rfl
    cases last
    rw [same]
    exact ⟨5, List.mem_append_right _ (List.mem_of_getLast? rfl)⟩
  · have member : ⟨.delete client (some 0), .silent⟩ ∈ before ++ [⟨.delete client (some 0), .silent⟩] :=
      List.mem_append_right _ (List.mem_singleton.mpr rfl)
    exact absurd (earlier.subset member) (no_delete_joined client)

/-- Pushed, executed, joined, and about to be freed by its client. -/
theorem joined_task_safe : ∃ history machine,
    Run perform (fun _ _ _ => True) (start (newPool Nat 1)) history machine ∧
      Waited history 0 ∧ DeletesJoined history 0 ∧ machine.clients 0 = .deleting 0 ∧
        JoinedSafely history machine 0 := by
  have executed : Run perform (fun _ _ _ => True) (start (newPool Nat 1)) executedHistory
      executedOnce :=
    run_executed_once (fun _ _ _ _ => trivial) (fun _ _ _ => trivial) fun _ _ _ => trivial
  have joining := executed.call trivial (rfl : perform _ (.join 0 (some 0)) = .ok (_, _))
  have sawFinished := joining.call trivial (rfl : perform _ (.advance 0) = .ok (_, _))
  have waited := sawFinished.call trivial (rfl : perform _ (.advance 0) = .ok (_, _))
  have copied := waited.call trivial (rfl : perform _ (.advance 0) = .ok (_, _))
  have joined := copied.call trivial (rfl : perform _ (.advance 0) = .ok (_, _))
  have deleting := joined.call trivial (rfl : perform _ (.delete 0 (some 0)) = .ok (_, _))
  refine ⟨_, _, deleting, ⟨0, ?_⟩, deletes_joined_once, rfl, ?_⟩
  · exact List.mem_append_left _ (List.mem_append_left _ (List.mem_append_left _
      (List.mem_append_right _ (List.mem_singleton.mpr rfl))))
  · exact joined_safely (rfl : threadPoolNew Nat 1 = .ok _) deleting (by decide)

end Sysprog.Threads.JoinedTasks
