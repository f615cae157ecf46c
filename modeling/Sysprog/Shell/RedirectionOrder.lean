import Sysprog.Shell.ParsedStages
import Sysprog.Shell.RedirectionLanding

/-!
# The order in which redirections take effect

`parse_exec` wraps each redirection around those before it and `run_cmd` works
from the outside in. So the files are opened from the last one written to the
first, and of several redirections of one descriptor the first one stays.
-/

namespace Sysprog.Shell.RedirectionOrder

open CheckedRuns Processes Scanner DescriptorTable Commands Interpreter LineParser Tokens
open TokenParser Pipelines ParsedStages CommandRuns PipelineWiring RedirectionLanding

set_option autoImplicit false

variable {Inherited : Type}

/-- What `run_cmd` reports when it calls `open` for these redirections one
after another, the first of them as the call with this count. -/
def reported (opens : Nat → Bool) : Nat → List Redirection → List (String × Text)
  | _, [] => []
  | count, redirection :: rest =>
      if opens count then reported opens (count + 1) rest
      else ("open %s failed\n", redirection.file) :: reported opens (count + 1) rest

/-- The calls of `open` are for these files in this order: whichever of the
calls fail, just those files are reported, and there are as many calls. -/
def OpensInTurn (Inherited : Type) (command : Command) (redirections : List Redirection) : Prop :=
  ∀ (kernel : Kernel) (position : Position) (process : Process Inherited),
    ∀ outcome ∈ (runCmd kernel command position).run process,
      outcome.1.opens = process.opens + redirections.length ∧
        process.stderr ++ reported (opensOf kernel process) 0 redirections <+: outcome.1.stderr

def ExecedWithFirst (kernel : Kernel) (command : Command) (position : Position)
    (process : Process Inherited) (redirections : List Redirection) : Prop :=
  ∀ outcome ∈ (runCmd kernel command position).run process,
    outcome.1.attempts ≠ process.attempts ∧
      Redirected (lookup process.table) redirections outcome.1.table

theorem reported_append (opens : Nat → Bool) (count : Nat) (first second : List Redirection) :
    reported opens count (first ++ second) =
      reported opens count first ++ reported opens (count + first.length) second := by
  induction first generalizing count with
  | nil => rfl
  | cons redirection rest ih =>
      have shifted : count + 1 + rest.length = count + (rest.length + 1) := by omega
      rw [List.cons_append, reported, reported, ih, List.length_cons, shifted]
      split_ifs
      · rfl
      · rfl

theorem redirected_stderr (kernel : Kernel) (redirections : List Redirection)
    (process : Process Inherited) :
    (redirectedAll kernel redirections process).stderr =
      process.stderr ++ reported (opensOf kernel process) 0 redirections.reverse := by
  induction redirections with
  | nil => exact (List.append_nil _).symm
  | cons redirection redirections ih =>
      have pid := (same_record_redirected kernel redirections process).pid
      have count := redirected_opens kernel redirections process
      have whole : redirectedAll kernel (redirection :: redirections) process =
          redirected kernel redirection.file redirection.mode redirection.fd
            (redirectedAll kernel redirections process) := rfl
      have last : reported (opensOf kernel process) redirections.length [redirection] =
          if opensOf kernel process redirections.length then []
          else [("open %s failed\n", redirection.file)] := rfl
      rw [List.reverse_cons, reported_append, Nat.zero_add, List.length_reverse, last,
        ← List.append_assoc, ← ih, whole, redirected, pid, count, opensOf]
      split_ifs
      · exact (List.append_nil _).symm
      · rfl

theorem wrapped_opens_in_turn (argv : List Text) (redirections : List Redirection) :
    OpensInTurn Inherited (wrap (.exec argv) redirections) redirections.reverse := by
  intro kernel position process outcome member
  rw [run_wrap] at member
  rw [List.length_reverse, ← redirected_stderr, ← redirected_opens kernel redirections process]
  have kept : Keeps (fun after : Process Inherited =>
      after.opens = (redirectedAll kernel redirections process).opens ∧
        (redirectedAll kernel redirections process).stderr <+: after.stderr)
      (runCmd kernel (.exec argv) (List.replicate redirections.length .inner ++ position)) := by
    apply exec_keeps
    · exact fun _ held => held
    · intro format argument process held
      exact ⟨held.1, held.2.trans (List.prefix_append _ _)⟩
    · exact fun _ held => held
  exact kept _ ⟨rfl, List.prefix_refl _⟩ outcome member

theorem wrapped_execed_with_first {kernel : Kernel}
    (opens : ∀ pid count, kernel.opens pid count = true) {argv : List Text} (words : argv ≠ [])
    (redirections : List Redirection) (position : Position) {process : Process Inherited}
    (standard : StandardOpen (lookup process.table)) :
    ExecedWithFirst kernel (wrap (.exec argv) redirections) position process redirections := by
  intro outcome member
  cases argv with
  | nil => exact absurd rfl words
  | cons name arguments =>
      have record := same_record_redirected kernel redirections process
      obtain ⟨after, ran, tried⟩ := run_exec kernel name arguments
        (List.replicate redirections.length .inner ++ position)
        (redirectedAll kernel redirections process)
      rw [run_wrap, ran] at member
      rw [List.mem_singleton.mp member]
      constructor
      · rw [tried.attempts, record.attempts]
        simp
      · rw [tried.table]
        exact redirected_all_lookup opens redirections standard.1 fun number => rfl

/-- A stage that begins with a word is parsed, its files are opened from the
last one written to the first, and when all of this succeeds its command is
executed on the first `<` and the first `>` written. -/
theorem redirections_act_in_reverse {stage : Stage} {copies : List Item} {rest : List Tok}
    {line : Text} (written : WrittenAs (stageTokens stage.items ++ rest) line)
    (proper : ∀ token ∈ rest, Proper (strchr whitespaces) (strchr symbols) token)
    (ends : ParsedStages.Ends rest) (copied : copyItems stage.items = .ok copies)
    (state : ParseState) {kernel : Kernel} (opens : ∀ pid count, kernel.opens pid count = true)
    (position : Position) {process : Process Inherited}
    (standard : StandardOpen (lookup process.table)) :
    ∃ parsed command, parseExec line state = .ok parsed ∧
      Represents parsed.state.nodes parsed.cmd command ∧
      OpensInTurn Inherited command (redirectionsOf copies).reverse ∧
      ExecedWithFirst kernel command position process (redirectionsOf copies) := by
  have allProper : ∀ token ∈ stageTokens stage.items ++ rest,
      Proper (strchr whitespaces) (strchr symbols) token := by
    intro token member
    rcases List.mem_append.mp member with own | other
    · exact proper_stage stage.names token own
    · exact proper token other
  obtain ⟨text, others, first⟩ := stage.wordFirst
  have notFirst := not_redirection_first stage.wordFirst
  obtain ⟨cmd, after, built, tree⟩ := exec_built state ends notFirst copied stage.fewWords
  rw [← tokens_of_written written allProper, ← parse_exec_eq] at built
  cases parsed : parseExec line state with
  | error halt =>
      rw [parsed] at built
      cases built
  | ok result =>
      rw [parsed] at built
      have same : onTokens result = ⟨cmd, rest, after⟩ := Except.ok.inj built
      have words : wordsOf copies ≠ [] := by
        have count := words_of_copies copied
        rw [first, words_of_word, List.length_cons] at count
        intro empty
        rw [empty] at count
        cases count
      refine ⟨result, stageTree copies, rfl, ?_, wrapped_opens_in_turn _ _,
        wrapped_execed_with_first opens words _ position standard⟩
      have stateSame : result.state = after := congrArg Parsed.state same
      have cmdSame : result.cmd = cmd := congrArg Parsed.cmd same
      rw [stateSame, cmdSame]
      exact tree.tree

/-! ## Two redirections of one descriptor: `a<x<y` -/

def twoInputs : Stage where
  items := [.word [97], .redirect ⟨false, [120]⟩, .redirect ⟨false, [121]⟩]
  wordFirst := ⟨_, _, rfl⟩
  fewWords := by decide
  names := by simp [Item.text, Name, whitespaces, symbols, inputSign, outputSign, pipeSign]

theorem two_inputs_written :
    WrittenAs (stageTokens twoInputs.items ++ []) [97, 60, 120, 60, 121] :=
  @Renders.token _ _ (.word [97]) _ [] [60, 120, 60, 121] no_whitespace trivial
    (@Renders.token _ _ (.sign 60) _ [] [120, 60, 121] no_whitespace trivial
      (@Renders.token _ _ (.word [120]) _ [] [60, 121] no_whitespace trivial
        (@Renders.token _ _ (.sign 60) _ [] [121] no_whitespace trivial
          (@Renders.token _ _ (.word [121]) _ [] [] no_whitespace trivial
            (@Renders.done _ _ [] no_whitespace)))))

theorem first_input_stays :
    ∃ parsed command, parseExec [97, 60, 120, 60, 121] emptyState = .ok parsed ∧
      Represents parsed.state.nodes parsed.cmd command ∧
      OpensInTurn Nat command [⟨false, [121]⟩, ⟨false, [120]⟩] ∧
      ExecedWithFirst allSucceed command [] standardCaller [⟨false, [120]⟩, ⟨false, [121]⟩] :=
  redirections_act_in_reverse two_inputs_written (by simp) ends_of_line
    (copy_items_of_short (by simp [twoInputs, Item.text])) emptyState (fun _ _ => rfl) []
    standard_caller_open

def twoInputsTree : Command := wrap (.exec [[97]]) [⟨false, [120]⟩, ⟨false, [121]⟩]

/-- The tree is not run in the order written: `y` is opened first, and `x`
stays on descriptor 0. -/
theorem written_order_reversed :
    (∃ parsed, parseExec [97, 60, 120, 60, 121] emptyState = .ok parsed ∧
      Represents parsed.state.nodes parsed.cmd twoInputsTree) ∧
    ¬ OpensInTurn Nat twoInputsTree [⟨false, [120]⟩, ⟨false, [121]⟩] ∧
    ¬ ExecedWithFirst allSucceed twoInputsTree [] standardCaller
      [⟨false, [121]⟩, ⟨false, [120]⟩] := by
  refine ⟨⟨_, rfl, .redirect rfl (.redirect rfl (.exec rfl (by decide)))⟩, ?_, ?_⟩
  · intro inTurn
    have stderr : ((runCmd firstOpenFails twoInputsTree []).run standardCaller).map
        (fun outcome => outcome.1.stderr) = [[("open %s failed\n", [121])]] := by rfl
    have present : [("open %s failed\n", [121])] ∈
        ((runCmd firstOpenFails twoInputsTree []).run standardCaller).map
          (fun outcome => outcome.1.stderr) := by
      rw [stderr]
      exact List.mem_singleton_self _
    obtain ⟨outcome, member, same⟩ := List.mem_map.mp present
    have reports := (inTurn firstOpenFails [] standardCaller outcome member).2
    rw [same] at reports
    revert reports
    decide
  · intro execed
    have ran : inputAndOutput ((runCmd allSucceed twoInputsTree []).run standardCaller) =
        [([[.inner, .inner]], some (.file [120] oRdonly ([], 1)), some (.inherited 1))] := by rfl
    have present : ([[.inner, .inner]], some (.file [120] oRdonly ([], 1)),
        some (.inherited 1)) ∈
          inputAndOutput ((runCmd allSucceed twoInputsTree []).run standardCaller) := by
      rw [ran]
      exact List.mem_singleton_self _
    obtain ⟨outcome, member, same⟩ := List.mem_map.mp present
    have input : lookup outcome.1.table 0 = some (.file [120] oRdonly ([], 1)) :=
      (Prod.mk.inj (Prod.mk.inj same).2).1
    obtain ⟨opened, file⟩ := (execed outcome member).2 0
    rw [input] at file
    cases file

end Sysprog.Shell.RedirectionOrder
