import Sysprog.Shell.CommandRuns

/-!
# Each command once

In which processes the commands of a pipeline are tried. A child whose command
cannot be run comes back, and runs what is to the right of it a second time.
-/

namespace Sysprog.Shell.CommandAttempts

open Processes DescriptorTable Commands Interpreter Pipelines CommandRuns

set_option autoImplicit false

variable {Inherited : Type}

def execNodes : Command → Position → List Position
  | .exec [], _ => []
  | .exec (_ :: _), position => [position]
  | .pipe left right, position =>
      execNodes left (.left :: position) ++ execNodes right (.right :: position)
  | .redirect cmd _ _ _, position => execNodes cmd (.inner :: position)

abbrev Outcomes (Inherited : Type) := List (Outcome (Process Inherited) Ending Unit)

def attempting (node : Position) (outcomes : Outcomes Inherited) : Nat :=
  outcomes.countP fun outcome => decide (node ∈ outcome.1.attempts)

def Overruns (outcomes : Outcomes Inherited) : Prop :=
  ∃ outcome ∈ outcomes, outcome.2 = .error .overrun

/-- Every command is attempted in exactly one process, and no process writes
past the end of its strings. -/
def EachOnce (nodes : List Position) (outcomes : Outcomes Inherited) : Prop :=
  ¬ Overruns outcomes ∧ ∀ node ∈ nodes, attempting node outcomes = 1

def Replaced (kernel : Kernel) (pid : Pid) (execs : Nat) (stage : Stage) : Prop :=
  ∃ path argv, execEnd kernel pid execs (wordsOf stage.items) = .error (.replaced path argv)

/-- The processes forked for all stages but the last are replaced by their
commands, and that of the last one does not overrun. -/
def OthersReplaced (kernel : Kernel) : Pid → Nat → Nat → Stage → List Stage → Prop
  | pid, _, execs, stage, [] => execEnd kernel pid execs (wordsOf stage.items) ≠ .error .overrun
  | pid, forks, _, stage, next :: rest =>
      Replaced kernel (forks :: pid) 0 stage ∧
        OthersReplaced kernel ((forks + 1) :: pid) 0 0 next rest

/-! ## Where attempts are -/

theorem attempts_below {kernel : Kernel} {command : Command} {position : Position}
    {process : Process Inherited} (fresh : process.attempts = []) :
    ∀ outcome ∈ (runCmd kernel command position).run process,
      ∀ node ∈ outcome.1.attempts, position <:+ node := by
  have calls : CallsKeep fun process : Process Inherited =>
      ∀ node ∈ process.attempts, position <:+ node := by
    constructor
    · intro process _ node member
      cases member
    · exact fun _ holds => holds
    · exact fun _ holds => holds
    · exact fun _ holds => holds
    · exact fun _ _ holds => holds
    · exact fun _ _ _ holds => holds
    · exact fun _ _ _ holds => holds
    · exact fun _ holds => holds
    · exact fun _ holds => holds
    · exact fun _ _ _ holds => holds
  apply run_cmd_keeps calls kernel
  · intro deeper below process holds node member
    rcases List.mem_append.mp member with member | member
    · exact holds node member
    · rw [List.mem_singleton.mp member]
      exact below
  · exact List.suffix_refl position
  · rw [fresh]
    intro node member
    cases member

theorem turn_of_suffixes {position node : Position} {turn other : Turn}
    (first : turn :: position <:+ node) (second : other :: position <:+ node) : turn = other := by
  have same := List.suffix_of_suffix_length_le first second (Nat.le_refl _)
  have equal := same.eq_of_length rfl
  exact (List.cons.inj equal).1

theorem exec_nodes_below (command : Command) (position : Position) :
    ∀ node ∈ execNodes command position, position <:+ node := by
  induction command generalizing position with
  | exec argv =>
      intro node member
      cases argv with
      | nil => cases member
      | cons name arguments =>
          have same : node = position := List.mem_singleton.mp member
          subst same
          exact List.suffix_refl node
  | pipe left right leftBelow rightBelow =>
      intro node member
      rcases List.mem_append.mp member with member | member
      · exact (List.suffix_cons _ _).trans (leftBelow _ node member)
      · exact (List.suffix_cons _ _).trans (rightBelow _ node member)
  | redirect cmd file mode fd ih =>
      intro node member
      exact (List.suffix_cons _ _).trans (ih _ node member)

theorem exec_nodes_wrap (command : Command) (redirections : List Redirection)
    (position : Position) :
    execNodes (wrap command redirections) position =
      execNodes command (List.replicate redirections.length .inner ++ position) := by
  induction redirections generalizing command with
  | nil => rfl
  | cons redirection redirections ih =>
      exact ih (.redirect command redirection.file redirection.mode redirection.fd)

theorem exec_nodes_stage (stage : Stage) (position : Position) :
    execNodes (stageTree stage.items) position = [stagePosition stage position] := by
  obtain ⟨name, arguments, words⟩ := words_of_stage stage
  rw [stageTree, exec_nodes_wrap, words, execNodes, stagePosition]

/-! ## Counting -/

theorem attempting_append (node : Position) (outcomes others : Outcomes Inherited) :
    attempting node (outcomes ++ others) = attempting node outcomes + attempting node others :=
  List.countP_append

theorem attempting_zero {node : Position} {outcomes : Outcomes Inherited}
    (none : ∀ outcome ∈ outcomes, node ∉ outcome.1.attempts) : attempting node outcomes = 0 :=
  List.countP_eq_zero.mpr fun outcome member => by simpa using none outcome member

theorem attempting_single {node : Position} {outcome : Outcome (Process Inherited) Ending Unit}
    (attempts : node ∈ outcome.1.attempts) : attempting node [outcome] = 1 := by
  simp [attempting, attempts]

theorem attempting_close_returned (node : Position) (fd0 fd1 : Nat)
    (outcomes : Outcomes Inherited) :
    attempting node (outcomes.map (closeReturned fd0 fd1)) = attempting node outcomes := by
  rw [attempting, List.countP_map]
  apply congrArg (fun test => outcomes.countP test)
  exact same_of_close_returned _ fd0 fd1 fun _ => rfl

theorem overruns_close_returned (fd0 fd1 : Nat) (outcomes : Outcomes Inherited) :
    Overruns (outcomes.map (closeReturned fd0 fd1)) ↔ Overruns outcomes := by
  have each : ∀ outcome : Outcome (Process Inherited) Ending Unit,
      (closeReturned fd0 fd1 outcome).2 = .error .overrun ↔ outcome.2 = .error .overrun := by
    intro outcome
    have same := same_of_close_returned
      (fun outcome : Outcome (Process Inherited) Ending Unit => outcome.2 = .error .overrun)
      fd0 fd1 fun _ => rfl
    exact iff_of_eq (congrFun same outcome)
  constructor
  · intro overruns
    obtain ⟨outcome, member, overrun⟩ := overruns
    obtain ⟨before, present, rfl⟩ := List.mem_map.mp member
    exact ⟨before, present, (each before).mp overrun⟩
  · intro overruns
    obtain ⟨outcome, member, overrun⟩ := overruns
    exact ⟨_, List.mem_map_of_mem member, (each outcome).mpr overrun⟩

theorem overruns_append (outcomes others : Outcomes Inherited) :
    Overruns (outcomes ++ others) ↔ Overruns outcomes ∨ Overruns others := by
  simp only [Overruns, List.mem_append, or_and_right, exists_or]

/-- What a process does from its second `fork` on, in terms of the child's run.
-/
theorem attempting_right_half (kernel : Kernel) (right : Command) (position : Position)
    (fd0 fd1 : Nat) (process : Process Inherited) (node : Position) :
    attempting node ((rightHalf kernel right position fd0 fd1).run process) =
      attempting node ((runCmd kernel right (.right :: position)).run
        (wireRight fd0 fd1 (childOf process))) +
      attempting node [(process, .ok ())] := by
  rw [right_half_run, attempting_append, attempting_close_returned]
  rfl

theorem overruns_right_half (kernel : Kernel) (right : Command) (position : Position)
    (fd0 fd1 : Nat) (process : Process Inherited) :
    Overruns ((rightHalf kernel right position fd0 fd1).run process) ↔
      Overruns ((runCmd kernel right (.right :: position)).run
        (wireRight fd0 fd1 (childOf process))) := by
  rw [right_half_run, overruns_append, overruns_close_returned]
  constructor
  · intro either
    cases either with
    | inl inside => exact inside
    | inr last =>
        obtain ⟨outcome, member, overrun⟩ := last
        rw [List.mem_singleton.mp member] at overrun
        cases overrun
  · exact Or.inl

/-! ## Every command is attempted at least once -/

theorem own_node_attempted {stage : Stage} {position : Position}
    {process after : Process Inherited}
    (tried : Tried (stagePosition stage position) process after) :
    stagePosition stage position ∈ after.attempts := by
  rw [tried.attempts]
  exact List.mem_append_right _ (List.mem_singleton.mpr rfl)

/-- The induction is on the stages that follow; the first stage is tried in the
left child, whatever becomes of it. -/
theorem attempted_at_least_once {kernel : Kernel} (succeed : PipesAndForks kernel)
    (stage : Stage) (rest : List Stage) (position : Position) (process : Process Inherited) :
    ∀ node ∈ execNodes (pipelineTree stage rest) position,
      0 < attempting node ((runCmd kernel (pipelineTree stage rest) position).run process) := by
  induction rest generalizing stage position process with
  | nil =>
      intro node member
      rw [pipelineTree, exec_nodes_stage] at member
      obtain ⟨after, ran, tried⟩ := run_stage kernel stage position process
      rw [pipelineTree, ran, List.mem_singleton.mp member,
        attempting_single (own_node_attempted tried)]
      exact Nat.one_pos
  | cons next rest ih =>
      intro node member
      rw [pipelineTree, run_pipe succeed, attempting_append]
      rcases List.mem_append.mp member with member | member
      · rw [exec_nodes_stage] at member
        obtain ⟨after, ran, tried⟩ := run_stage kernel stage (.left :: position)
          (wireLeft (pipeNumbers process).1 (pipeNumbers process).2
            (childOf (pipedProcess process)))
        rw [ran, List.flatMap_singleton, List.mem_singleton.mp member]
        have attempted := own_node_attempted tried
        apply Nat.add_pos_left
        cases execEnd kernel _ _ (wordsOf stage.items) with
        | error ending =>
            rw [continued, attempting_single attempted]
            exact Nat.one_pos
        | ok value =>
            rw [continued, attempting_right_half, attempting_single attempted]
            exact Nat.succ_pos _
      · apply Nat.add_pos_right
        rw [attempting_right_half]
        exact Nat.add_pos_left (ih next (.right :: position) _ node member) _

theorem has_exec_node (stage : Stage) (rest : List Stage) (position : Position) :
    ∃ node, node ∈ execNodes (pipelineTree stage rest) position := by
  cases rest with
  | nil =>
      refine ⟨stagePosition stage position, ?_⟩
      rw [pipelineTree, exec_nodes_stage]
      exact List.mem_singleton.mpr rfl
  | cons next rest =>
      refine ⟨stagePosition stage (.left :: position), ?_⟩
      rw [pipelineTree, execNodes, exec_nodes_stage]
      exact List.mem_append_left _ (List.mem_singleton.mpr rfl)

/-! ## Every command exactly once -/

theorem each_once_single (kernel : Kernel) (stage : Stage) (position : Position)
    (process : Process Inherited) :
    EachOnce (execNodes (stageTree stage.items) position)
        ((runCmd kernel (stageTree stage.items) position).run process) ↔
      execEnd kernel process.pid process.execs (wordsOf stage.items) ≠ .error .overrun := by
  obtain ⟨after, ran, tried⟩ := run_stage kernel stage position process
  rw [ran, exec_nodes_stage]
  constructor
  · intro once overrun
    exact once.1 ⟨_, List.mem_singleton.mpr rfl, overrun⟩
  · intro noOverrun
    constructor
    · intro overruns
      obtain ⟨outcome, member, overrun⟩ := overruns
      rw [List.mem_singleton.mp member] at overrun
      exact noOverrun overrun
    · intro node member
      rw [List.mem_singleton.mp member]
      exact attempting_single (own_node_attempted tried)

theorem left_not_in_right_half {kernel : Kernel} {right : Command} {position node : Position}
    {fd0 fd1 : Nat} {process : Process Inherited} (fresh : process.attempts = [])
    (below : .left :: position <:+ node) :
    attempting node ((rightHalf kernel right position fd0 fd1).run process) = 0 := by
  rw [attempting_right_half, Nat.add_eq_zero_iff]
  constructor
  · apply attempting_zero
    intro outcome member attempts
    have childFresh : (wireRight fd0 fd1 (childOf process)).attempts = [] := rfl
    cases turn_of_suffixes below (attempts_below childFresh outcome member node attempts)
  · apply attempting_zero
    intro outcome member
    rw [List.mem_singleton.mp member, fresh]
    exact List.not_mem_nil

theorem each_once_right_half {kernel : Kernel} {right : Command} {position : Position}
    {fd0 fd1 : Nat} {process : Process Inherited} {nodes : List Position}
    (fresh : process.attempts = []) :
    EachOnce nodes ((rightHalf kernel right position fd0 fd1).run process) ↔
      EachOnce nodes ((runCmd kernel right (.right :: position)).run
        (wireRight fd0 fd1 (childOf process))) := by
  have own : ∀ node, attempting node [((process, .ok ()) : Outcome _ Ending _)] = 0 := by
    intro node
    apply attempting_zero
    intro outcome member
    rw [List.mem_singleton.mp member, fresh]
    exact List.not_mem_nil
  simp only [EachOnce, overruns_right_half, attempting_right_half, own, Nat.add_zero]

/-- One process more that attempts a node of its own. -/
theorem each_once_cons {node : Position} {nodes : List Position}
    {outcome : Outcome (Process Inherited) Ending Unit} {others : Outcomes Inherited}
    (own : node ∈ outcome.1.attempts) (alone : attempting node others = 0)
    (apart : ∀ other ∈ nodes, other ∉ outcome.1.attempts) :
    EachOnce ([node] ++ nodes) ([outcome] ++ others) ↔
      outcome.2 ≠ .error .overrun ∧ EachOnce nodes others := by
  have first : Overruns [outcome] ↔ outcome.2 = .error .overrun := by
    simp [Overruns]
  have away : ∀ other ∈ nodes, attempting other [outcome] = 0 := by
    intro other member
    apply attempting_zero
    intro same present
    rw [List.mem_singleton.mp present]
    exact apart other member
  rw [EachOnce, overruns_append, first, not_or, and_assoc, EachOnce]
  apply and_congr_right
  intro _
  apply and_congr_right
  intro _
  constructor
  · intro once other member
    have total := once other (List.mem_append_right _ member)
    rw [attempting_append, away other member, Nat.zero_add] at total
    exact total
  · intro once other member
    rw [attempting_append]
    rcases List.mem_append.mp member with member | member
    · rw [List.mem_singleton.mp member, attempting_single own, alone]
    · rw [away other member, once other member]

theorem exec_end_error {kernel : Kernel} {pid : Pid} {execs : Nat} {stage : Stage}
    {ending : Ending} (ended : execEnd kernel pid execs (wordsOf stage.items) = .error ending) :
    ending = .overrun ∨ ∃ path argv, ending = .replaced path argv := by
  obtain ⟨name, arguments, words⟩ := words_of_stage stage
  rw [words, execEnd] at ended
  split_ifs at ended
  all_goals cases ended
  · exact .inr ⟨_, _, rfl⟩
  · exact .inr ⟨_, _, rfl⟩
  · exact .inr ⟨_, _, rfl⟩
  · exact .inl rfl
  · exact .inl rfl

theorem replaced_iff {kernel : Kernel} {pid : Pid} {execs : Nat} {stage : Stage}
    {ending : Ending} (ended : execEnd kernel pid execs (wordsOf stage.items) = .error ending) :
    Replaced kernel pid execs stage ↔ (.error ending : Except Ending Unit) ≠ .error .overrun := by
  rw [Replaced, ended]
  rcases exec_end_error ended with overrun | ⟨path, argv, replaced⟩
  · simp [overrun]
  · simp [replaced]

theorem each_once_iff_others_replaced {kernel : Kernel} (succeed : PipesAndForks kernel)
    (stage : Stage) (rest : List Stage) (position : Position) {process : Process Inherited}
    (fresh : process.attempts = []) :
    EachOnce (execNodes (pipelineTree stage rest) position)
        ((runCmd kernel (pipelineTree stage rest) position).run process) ↔
      OthersReplaced kernel process.pid process.forks process.execs stage rest := by
  induction rest generalizing stage position process with
  | nil => exact each_once_single kernel stage position process
  | cons next rest ih =>
      obtain ⟨after, ran, tried⟩ := run_stage kernel stage (.left :: position)
        (wireLeft (pipeNumbers process).1 (pipeNumbers process).2 (childOf (pipedProcess process)))
      have own := own_node_attempted tried
      have attempts : after.attempts = [stagePosition stage (.left :: position)] := tried.attempts
      have leftRan : _ = [(after, execEnd kernel (process.forks :: process.pid) 0
        (wordsOf stage.items))] := ran
      have parentFresh : (countFork (pipedProcess process)).attempts = [] := fresh
      have belowLeft : .left :: position <:+ stagePosition stage (.left :: position) :=
        List.suffix_append _ _
      have later : EachOnce (execNodes (pipelineTree next rest) (.right :: position))
          ((rightHalf kernel (pipelineTree next rest) position (pipeNumbers process).1
            (pipeNumbers process).2).run (countFork (pipedProcess process))) ↔
          OthersReplaced kernel ((process.forks + 1) :: process.pid) 0 0 next rest := by
        rw [each_once_right_half parentFresh]
        exact ih next (.right :: position) rfl
      rw [pipelineTree, run_pipe succeed, execNodes, exec_nodes_stage, leftRan,
        List.flatMap_singleton, OthersReplaced]
      cases ended : execEnd kernel (process.forks :: process.pid) 0 (wordsOf stage.items) with
      | error ending =>
          rw [continued, replaced_iff ended, ← later]
          apply each_once_cons own
          · exact left_not_in_right_half parentFresh belowLeft
          · intro node member present
            rw [attempts, List.mem_singleton] at present
            have right := exec_nodes_below _ _ node member
            rw [present] at right
            cases turn_of_suffixes belowLeft right
      | ok value =>
          rw [continued]
          constructor
          · intro once
            obtain ⟨node, member⟩ := has_exec_node next rest (.right :: position)
            have total := once.2 node (List.mem_append_right _ member)
            rw [attempting_append, attempting_right_half, attempting_right_half] at total
            have first := attempted_at_least_once succeed next rest (.right :: position)
              (wireRight (pipeNumbers process).1 (pipeNumbers process).2 (childOf after)) node member
            have second := attempted_at_least_once succeed next rest (.right :: position)
              (wireRight (pipeNumbers process).1 (pipeNumbers process).2
                (childOf (countFork (pipedProcess process)))) node member
            omega
          · intro others
            obtain ⟨⟨path, argv, replaced⟩, _⟩ := others
            rw [ended] at replaced
            cases replaced

/-! ## The line `a|b` -/

/-- Everything succeeds but the `execv` calls of the first process forked. -/
def firstFails : Kernel where
  forks _ _ := true
  pipes _ _ := true
  opens _ _ := true
  execs pid _ := decide (pid ≠ [0])

theorem both_commands_once :
    EachOnce [[.left], [.right]]
      ((runCmd allSucceed (.pipe (.exec [[97]]) (.exec [[98]])) []).run
        (caller [some (), some (), some ()])) :=
  (each_once_iff_others_replaced all_succeed.pipesAndForks stageA [stageB] [] rfl).mpr
    ⟨⟨[97], [[97]], rfl⟩, by
      intro overrun
      cases overrun⟩

/-- `b` is tried by its own process and by a child of the one that failed. -/
theorem second_command_twice :
    PipesAndForks firstFails ∧
      attempting [.right] ((runCmd firstFails (pipelineTree stageA [stageB]) []).run
        (caller [some (), some (), some ()])) = 2 ∧
      ¬ EachOnce (execNodes (pipelineTree stageA [stageB]) [])
        ((runCmd firstFails (pipelineTree stageA [stageB]) []).run
          (caller [some (), some (), some ()])) := by
  have twice : attempting [.right] ((runCmd firstFails (pipelineTree stageA [stageB]) []).run
      (caller [some (), some (), some ()])) = 2 := by
    decide +kernel
  refine ⟨⟨fun _ _ => rfl, fun _ _ => rfl⟩, twice, ?_⟩
  intro once
  have one := once.2 [.right] (by decide)
  rw [twice] at one
  cases one

end Sysprog.Shell.CommandAttempts
