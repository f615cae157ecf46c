import Sysprog.Threads.TaskLives

/-!
# Deleting a task

`thread_task_delete` asks `is_finished` only, which stays set when the task is
pushed again and is set before the worker's last store. A task it frees is
out of use only if it was so when the flag was read and nobody pushed it
before the `free`.
-/

namespace Sysprog.Threads.TaskDeletion

open CheckedRuns Accesses AccessInvariants TaskLives
open Pool (ThreadPool threadPoolNew newPool tpoolMaxTasks)

set_option autoImplicit false

/-- A delete reads the flag of a finished task only when the task is out of
use, and no push of a task goes through while a delete of it is between this
read and its `free`. -/
def DeletesUnused (_ : History) (machine : Machine) : Step → Prop
  | .delete _ (some task) => ∀ cell, machine.tasks.read task = some cell →
      cell.isFinished = true → ¬ InUse machine task
  | .advance client => ∀ task, machine.clients client = .pushing task →
      ∀ other, machine.clients other ≠ .deleting task
  | _ => True

/-- What is asked of a step: a task is freed only out of use, the deletion of
a task in use is refused and changes nothing, and no other step frees a task. -/
structure FreesUnused (machine : Machine) (step : Step) (report : Report) (next : Machine) :
    Prop where
  unused : ∀ task, report = .freed task → ¬ InUse machine task
  refused : ∀ client task, step = .delete client (some task) → InUse machine task →
    report = .refused tpoolErrHasTasks ∧ next = machine
  stays : ∀ task cell, machine.tasks.read task = some cell → report ≠ .freed task →
    ∃ now, next.tasks.read task = some now

def DeletingUnused (machine : Machine) : Prop :=
  ∀ client task, machine.clients client = .deleting task → ¬ (lifeOf machine task).Used

section Steps

variable {pushes : Nat → Nat} {executions : Nat → List (Option (Nat × Int))} {history : History}
  {machine next : Machine} {step : Step} {report : Report}

theorem deleting_unused_step (holds : Consistent pushes executions machine)
    (unused : DeletingUnused machine) (permitted : DeletesUnused history machine step)
    (effect : Effect machine step report next) : DeletingUnused next := by
  intro client task deleting
  have call := step_calls effect client
  rw [deleting] at call
  rcases to_deleting call with before | ⟨rfl, _, rfl, cell, present, isFinished⟩
  · apply unused_stays (step_lives holds effect task) (unused client task before)
    intro isPush
    rw [isPush] at effect
    obtain ⟨actor, rfl, pushing⟩ := pusher effect
    exact permitted task pushing client before
  · have notInUse := permitted cell present isFinished
    rw [← used_iff] at notInUse
    exact notInUse

theorem frees_unused_step (holds : Consistent pushes executions machine)
    (unused : DeletingUnused machine) (permitted : DeletesUnused history machine step)
    (effect : Effect machine step report next) : FreesUnused machine step report next := by
  constructor
  · intro task isFree
    rw [isFree] at effect
    obtain ⟨client, deleting, _⟩ := freer effect
    rw [← used_iff]
    exact unused client task deleting
  · intro client task isDelete inUse
    rw [isDelete] at effect permitted
    cases effect with
    | stays stays =>
        cases stays
        exact ⟨rfl, rfl⟩
    | moved place moves =>
        cases moves with
        | deleting present isFinished => exact absurd inUse (permitted _ present isFinished)
  · intro task cell present notFreed
    exact present_step holds effect notFreed present

end Steps

theorem run_deleting_unused {maxThreadCount : Int} {history : History} {machine : Machine}
    (run : Run perform DeletesUnused (start (newPool Nat maxThreadCount)) history machine) :
    Tracks history machine ∧ DeletingUnused machine := by
  apply run_invariant (fun history machine => Tracks history machine ∧ DeletingUnused machine) _ _ run
  · refine ⟨consistent_initial maxThreadCount, ?_⟩
    intro client task deleting
    cases deleting
  · intro history machine step report next held permitted performed
    obtain ⟨holds, unused⟩ := held
    have effect := perform_effect performed
    exact ⟨tracks_step holds effect, deleting_unused_step holds unused permitted effect⟩

/-- In every run whose deletes come when the task is out of use, with no push
of it before the `free`, a task in use is never freed. -/
theorem never_frees_used {maxThreadCount : Int} {pool : ThreadPool Nat} {history : History}
    {machine next : Machine} {step : Step} {report : Report}
    (created : threadPoolNew Nat maxThreadCount = .ok pool)
    (run : Run perform DeletesUnused (start pool) history machine)
    (permitted : DeletesUnused history machine step)
    (performed : perform machine step = .ok (report, next)) :
    FreesUnused machine step report next := by
  obtain ⟨rfl, _⟩ := Deliveries.thread_pool_new_ok created
  obtain ⟨holds, unused⟩ := run_deleting_unused run
  exact frees_unused_step holds unused permitted (perform_effect performed)

/-- A task that was executed once is freed out of use. -/
theorem executed_task_freed : ∃ history machine next,
    Run perform DeletesUnused (start (newPool Nat 1)) history machine ∧
      history = executedHistory ++ [⟨.delete 0 (some 0), .silent⟩] ∧
      perform machine (.advance 0) = .ok (.freed 0, next) ∧
      FreesUnused machine (.advance 0) (.freed 0) next := by
  have executed : Run perform DeletesUnused (start (newPool Nat 1)) executedHistory
      executedOnce := by
    apply run_executed_once
    · intro history machine step quiet
      cases step with
      | create => trivial
      | newTask => trivial
      | work _ _ => trivial
      | _ => cases quiet
    · exact fun _ _ _ => trivial
    · intro history machine clients task _ other deleting
      rw [clients, clientPushes] at deleting
      by_cases same : other = 0
      · rw [same, Function.update_self] at deleting
        cases deleting
      · rw [Function.update_of_ne same] at deleting
        cases deleting
  have unused : ¬ InUse executedOnce 0 := by
    rw [← used_iff]
    intro used
    rcases used with waits | inHand
    · exact absurd waits (by decide)
    · exact inHand rfl
  have reads : DeletesUnused executedHistory executedOnce (.delete 0 (some 0)) :=
    fun _ _ _ => unused
  have deleting := executed.call reads
    (rfl : perform _ (.delete 0 (some 0)) = .ok (_, _))
  have permitted : ∀ history,
      DeletesUnused history (executedOnce.at 0 (.deleting 0)) (.advance 0) := by
    intro history task pushing
    cases pushing
  exact ⟨_, _, _, deleting, rfl, rfl,
    never_frees_used (rfl : threadPoolNew Nat 1 = .ok _) deleting (permitted _) rfl⟩

/-- A task that was pushed again after its execution is freed while it waits. -/
theorem waiting_task_freed : ∃ history machine next,
    Run perform (fun _ _ _ => True) (start (newPool Nat 1)) history machine ∧
      perform machine (.advance 0) = .ok (.freed 0, next) ∧ InUse machine 0 := by
  have executed : Run perform (fun _ _ _ => True) (start (newPool Nat 1)) executedHistory
      executedOnce :=
    run_executed_once (fun _ _ _ _ => trivial) (fun _ _ _ => trivial) fun _ _ _ => trivial
  have pushing := executed.call trivial (rfl : perform _ (.push 0 (some 0)) = .ok (_, _))
  have inside : 1 < ((List.replicate tpoolMaxTasks (none : Option Nat)).set 0 (some 0)).length := by
    rw [List.length_set, List.length_replicate]
    decide
  have pushed := pushing.call trivial (@push_locked_completes _ 0 0 rfl rfl rfl ⟨by decide, inside⟩)
  have deleting := pushed.call trivial (rfl : perform _ (.delete 0 (some 0)) = .ok (_, _))
  have waits : (some 0 : Option Nat) ∈ [some 0] := List.mem_singleton.mpr rfl
  exact ⟨_, _, _, deleting, rfl, .inl waits⟩

end Sysprog.Threads.TaskDeletion
