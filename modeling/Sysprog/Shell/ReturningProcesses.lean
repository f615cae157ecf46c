import Sysprog.Shell.CommandRuns

/-!
# Who comes back from a command

A right child whose command is itself a pipe comes back from it, and from the
`run_cmd` it was forked in, to code that belongs to its parent.
-/

namespace Sysprog.Shell.ReturningProcesses

open Processes DescriptorTable Commands Interpreter Pipelines CommandRuns

set_option autoImplicit false

variable {Inherited : Type}

def OnlyCallerReturns (process : Process Inherited)
    (outcomes : List (Outcome (Process Inherited) Ending Unit)) : Prop :=
  ∀ outcome ∈ outcomes, outcome.2 = .ok () → outcome.1.pid = process.pid

/-- The processes that come back, in the order in which they were forked. -/
def returned (outcomes : List (Outcome (Process Inherited) Ending Unit)) : List Pid :=
  outcomes.filterMap fun outcome =>
    match outcome.2 with
    | .ok _ => some outcome.1.pid
    | .error _ => none

theorem only_caller_returns_iff_returned (process : Process Inherited)
    (outcomes : List (Outcome (Process Inherited) Ending Unit)) :
    OnlyCallerReturns process outcomes ↔ ∀ pid ∈ returned outcomes, pid = process.pid := by
  constructor
  · intro only pid member
    obtain ⟨outcome, present, found⟩ := List.mem_filterMap.mp member
    rcases outcome with ⟨after, result⟩
    cases result with
    | error ending => cases found
    | ok value =>
        cases found
        exact only _ present rfl
  · intro all outcome present isReturned
    apply all
    apply List.mem_filterMap.mpr
    exact ⟨outcome, present, by rw [isReturned]⟩

theorem returned_append (outcomes others : List (Outcome (Process Inherited) Ending Unit)) :
    returned (outcomes ++ others) = returned outcomes ++ returned others :=
  List.filterMap_append

theorem returned_close_returned (fd0 fd1 : Nat)
    (outcomes : List (Outcome (Process Inherited) Ending Unit)) :
    returned (outcomes.map (closeReturned fd0 fd1)) = returned outcomes := by
  rw [returned, List.filterMap_map]
  apply congrArg (fun choose => outcomes.filterMap choose)
  exact same_of_close_returned _ fd0 fd1 fun _ => rfl

theorem returned_stage {kernel : Kernel} (succeed : AllSucceed kernel) (stage : Stage)
    (position : Position) (process : Process Inherited) :
    returned ((runCmd kernel (stageTree stage.items) position).run process) = [] := by
  obtain ⟨after, ran, _⟩ := run_stage kernel stage position process
  obtain ⟨path, ended⟩ := exec_end_succeeds succeed process.pid process.execs stage
  rw [ran, ended]
  rfl

/-- Those that come back from the right side, and the caller. -/
theorem returned_pipe {kernel : Kernel} (succeed : AllSucceed kernel) (stage : Stage)
    (right : Command) (position : Position) (process : Process Inherited) :
    returned ((runCmd kernel (.pipe (stageTree stage.items) right) position).run process) =
      returned ((runCmd kernel right (.right :: position)).run
        (wireRight (pipeNumbers process).1 (pipeNumbers process).2
          (childOf (countFork (pipedProcess process))))) ++ [process.pid] := by
  obtain ⟨after, ran, _⟩ := run_stage kernel stage (.left :: position)
    (wireLeft (pipeNumbers process).1 (pipeNumbers process).2 (childOf (pipedProcess process)))
  obtain ⟨path, ended⟩ := exec_end_succeeds succeed (process.forks :: process.pid) 0 stage
  have leftRan : _ = [(after, execEnd kernel (process.forks :: process.pid) 0
    (wordsOf stage.items))] := ran
  rw [run_pipe succeed.pipesAndForks, leftRan, ended, List.flatMap_singleton, continued,
    right_half_run, returned_append, returned_append, returned_close_returned]
  rfl

theorem only_caller_returns_iff_at_most_two {kernel : Kernel} (succeed : AllSucceed kernel)
    (stage : Stage) (rest : List Stage) (position : Position) (process : Process Inherited) :
    OnlyCallerReturns process
        ((runCmd kernel (pipelineTree stage rest) position).run process) ↔
      (stage :: rest).length ≤ 2 := by
  rw [only_caller_returns_iff_returned]
  cases rest with
  | nil =>
      rw [pipelineTree, returned_stage succeed]
      simp
  | cons next rest =>
      rw [pipelineTree, returned_pipe succeed]
      cases rest with
      | nil =>
          rw [pipelineTree, returned_stage succeed]
          simp
      | cons third rest =>
          rw [pipelineTree, returned_pipe succeed]
          constructor
          · intro all
            have child := all ((process.forks + 1) :: process.pid) (by
              apply List.mem_append_left
              exact List.mem_append_right _ (List.mem_singleton.mpr rfl))
            exact absurd child (List.cons_ne_self _ _)
          · intro short
            simp only [List.length_cons] at short
            omega

/-! ## Pipelines of two and of three stages -/

theorem two_stages_only_caller :
    OnlyCallerReturns (caller [some (), some (), some ()])
      ((runCmd allSucceed (.pipe (.exec [[97]]) (.exec [[98]])) []).run
        (caller [some (), some (), some ()])) :=
  (only_caller_returns_iff_at_most_two all_succeed stageA [stageB] [] _).mpr (Nat.le_refl 2)

/-- The second child comes back too. -/
theorem right_child_returns :
    AllSucceed allSucceed ∧
      [1] ∈ returned ((runCmd allSucceed (pipelineTree stageA [stageB, stageA]) []).run
        (caller [some (), some (), some ()])) ∧
      ¬ OnlyCallerReturns (caller [some (), some (), some ()])
        ((runCmd allSucceed (pipelineTree stageA [stageB, stageA]) []).run
          (caller [some (), some (), some ()])) := by
  have back : [1] ∈ returned ((runCmd allSucceed (pipelineTree stageA [stageB, stageA]) []).run
      (caller [some (), some (), some ()])) := by
    rw [pipelineTree, returned_pipe all_succeed, pipelineTree, returned_pipe all_succeed]
    apply List.mem_append_left
    exact List.mem_append_right _ (List.mem_singleton.mpr rfl)
  refine ⟨all_succeed, back, ?_⟩
  intro only
  have same := (only_caller_returns_iff_returned _ _).mp only [1] back
  cases same

end Sysprog.Shell.ReturningProcesses
