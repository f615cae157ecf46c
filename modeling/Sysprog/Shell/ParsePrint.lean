import Sysprog.Shell.ParsedStages

/-!
# The parser undoes the printing of a pipeline

Every line that writes a pipeline down is parsed to its tree, as long as its
words and file names are shorter than what the `int` of `mkcopy` can count.
-/

namespace Sysprog.Shell.ParsePrint

open CheckedRuns Scanner Commands LineParser Tokens TokenParser Pipelines ParsedStages

set_option autoImplicit false

def ParsesTo (line : Text) (tree : Command) : Prop :=
  ∃ cmd after, parseCommand line = .ok (cmd, after) ∧ Represents after.nodes cmd tree ∧
    after.stderr = []

/-- The induction is on the stages that follow: `parse_pipe` calls itself on
what is left after the pipe sign. -/
theorem pipeline_built {stage : Stage} {rest : List Stage} {fuel : Nat} (state : ParseState)
    (copied : ∀ one ∈ stage :: rest, copyItems one.items = .ok one.items)
    (enough : rest.length ≤ fuel) :
    ∃ cmd after, pipeline fuel (pipelineTokens stage rest) state = .ok ⟨cmd, [], after⟩ ∧
      Built state (pipelineTree stage rest) cmd after := by
  have own := copied stage List.mem_cons_self
  have notFirst := not_redirection_first stage.wordFirst
  induction rest generalizing stage fuel state with
  | nil =>
      obtain ⟨cmd, after, ran, built⟩ :=
        exec_built state ends_of_line notFirst own stage.fewWords
      rw [List.append_nil] at ran
      refine ⟨cmd, after, ?_, built⟩
      apply pipeline_done ran
      intro token member
      cases member
  | cons next rest ih =>
      have ends : Ends (.sign pipeSign :: pipelineTokens next rest) := by
        intro token first
        rw [← Option.some.inj first]
        rfl
      obtain ⟨left, middle, ran, builtLeft⟩ :=
        exec_built state ends notFirst own stage.fewWords
      cases fuel with
      | zero => exact absurd enough (Nat.not_succ_le_zero _)
      | succ fuel =>
          have others : ∀ one ∈ next :: rest, copyItems one.items = .ok one.items :=
            fun one member => copied one (List.mem_cons_of_mem _ member)
          obtain ⟨right, after, parsed, builtRight⟩ := ih middle others
            (Nat.le_of_succ_le_succ enough) (others next List.mem_cons_self)
            (not_redirection_first next.wordFirst)
          rcases created : commandCreatePipe left right after with ⟨cmd, final⟩
          refine ⟨cmd, final, ?_, built_pipe builtLeft builtRight created⟩
          have isPipeSign : isPipe (.sign pipeSign) = true := rfl
          rw [pipelineTokens, pipeline, ran, ok_bind]
          simp only [isPipeSign, if_true]
          rw [parsed, ok_bind]
          simp only [created]

theorem parse_undoes_print {stage : Stage} {rest : List Stage} {line : Text}
    (written : WrittenAs (pipelineTokens stage rest) line)
    (short : ∀ one ∈ stage :: rest, ∀ item ∈ one.items, item.text.length < 2 ^ 31 - 1) :
    ParsesTo line (pipelineTree stage rest) := by
  have proper := proper_pipeline stage rest
  have whole := cString_of_written written proper
  have toks := tokens_of_written written proper
  have enough : rest.length ≤ line.length := by
    have stages := length_stages_lt stage rest
    have symbols := @length_tokens_le _ (strchr whitespaces) (strchr symbols) line
    rw [← toks] at stages
    exact Nat.le_trans stages symbols
  have copied : ∀ one ∈ stage :: rest, copyItems one.items = .ok one.items :=
    fun one member => copy_items_of_short (short one member)
  obtain ⟨cmd, after, parsed, built⟩ := pipeline_built emptyState copied enough
  refine ⟨cmd, after, ?_, built.tree, built.printed⟩
  rw [parse_command_eq, whole, toks, TokenParser.whole, parsed, ok_bind]
  exact if_neg (not_not.mpr rfl)

/-! ## A pipeline of two stages: `a<f |b` -/

def copyStage : Stage where
  items := [.word [97], .redirect ⟨false, [102]⟩]
  wordFirst := ⟨_, _, rfl⟩
  fewWords := by decide
  names := by simp [Item.text, Name, whitespaces, symbols, inputSign, outputSign, pipeSign]

def nextStage : Stage where
  items := [.word [98]]
  wordFirst := ⟨_, _, rfl⟩
  fewWords := by decide
  names := by simp [Item.text, Name, whitespaces, symbols, inputSign, outputSign, pipeSign]

theorem two_stages_parsed :
    ParsesTo [97, 60, 102, 32, 124, 98]
      (.pipe (.redirect (.exec [[97]]) [102] oRdonly 0) (.exec [[98]])) := by
  exact @parse_undoes_print copyStage [nextStage] [97, 60, 102, 32, 124, 98]
    (@Renders.token _ _ (.word [97]) _ [] [60, 102, 32, 124, 98] no_whitespace trivial
      (@Renders.token _ _ (.sign 60) _ [] [102, 32, 124, 98] no_whitespace trivial
        (@Renders.token _ _ (.word [102]) _ [] [32, 124, 98] no_whitespace trivial
          (@Renders.token _ _ (.sign 124) _ [32] [98] one_space trivial
            (@Renders.token _ _ (.word [98]) _ [] [] no_whitespace trivial (@Renders.done _ _ [] no_whitespace))))))
    (by simp [copyStage, nextStage, Item.text])

/-! ## A word too long for the `int` of `mkcopy` -/

def longWord : Text := List.replicate (2 ^ 32 + 1) 97

theorem long_word_length : longWord.length = 2 ^ 32 + 1 := List.length_replicate

theorem long_word_name : Name longWord := by
  constructor
  · intro empty
    have length := long_word_length
    rw [empty] at length
    cases length
  · intro byte member
    rw [List.eq_of_mem_replicate member]
    decide

def longStage : Stage where
  items := [.word longWord]
  wordFirst := ⟨_, _, rfl⟩
  fewWords := Nat.lt_of_lt_of_le Nat.one_lt_two (by decide)
  names := by
    intro item member
    rw [List.mem_singleton.mp member]
    exact long_word_name

theorem copy_of_long_word : copyText longWord = .ok [97] := by
  have count : toInt ((longWord.length : Int) - ([] : Text).length) = 1 := by
    rw [long_word_length, toInt, Int.bmod_def]
    split_ifs <;> simp at *
  rw [copyText, mkcopy]
  simp only [count]
  rw [if_pos (by decide), longWord, List.take_replicate]
  rfl

theorem long_word_written : WrittenAs (pipelineTokens longStage []) longWord := by
  have line := @Renders.token _ isWhitespace (.word longWord) [] [] [] no_whitespace trivial (.done no_whitespace)
  rw [List.nil_append, Token.text, List.append_nil] at line
  exact line

/-- The length wraps around to 1. -/
theorem long_word_cut : WrittenAs (pipelineTokens longStage []) longWord ∧
    ¬ ParsesTo longWord (pipelineTree longStage []) := by
  refine ⟨long_word_written, ?_⟩
  intro parses
  obtain ⟨cmd, after, parsed, tree, _⟩ := parses
  have copied : copyItems longStage.items = .ok [.word [97]] := by
    rw [longStage, copyItems, copyItem, copy_of_long_word, ok_bind, ok_bind, copyItems, ok_bind]
  have proper := proper_pipeline longStage []
  obtain ⟨cut, final, ran, built⟩ := one_stage_parsed long_word_written proper
    (not_redirection_first longStage.wordFirst) copied longStage.fewWords
  rw [parsed] at ran
  cases ran
  have same : [longWord] = [[97]] := Command.exec.inj (represents_unique tree built.tree)
  have length := congrArg List.length (List.singleton_inj.mp same)
  rw [long_word_length] at length
  cases length

end Sysprog.Shell.ParsePrint
