import Mathlib.Data.List.Forall2
import Sysprog.Shell.ParsePrint
import Sysprog.Shell.PipeEnds
import Sysprog.Shell.ScanCmd

/-!
# From the keyboard to the processes

Pipelines typed one to a line are read, parsed and run one after another, each
as it was typed.
-/

namespace Sysprog.Shell.TypedLines

open CheckedRuns Scanner DescriptorTable Commands LineParser Tokens TokenParser Pipelines
  ParsedStages ParsePrint Interpreter CommandRuns PipelineWiring PipeEnds ScanCmd

set_option autoImplicit false

structure Typed where
  stage : Stage
  rest : List Stage
  line : Text
  written : WrittenAs (pipelineTokens stage rest) line
  oneLine : newline ∉ line

def Typed.tree (typed : Typed) : Command := pipelineTree typed.stage typed.rest

/-- What the return key adds to. -/
def Typed.entered (typed : Typed) : Text := typed.line ++ [newline]

/-- Every stage of the tree is executed once, in order and with its own words,
with the pipes before and after it on 0 and 1. -/
def RunsAsWritten (typed : Typed) : Prop :=
  ∀ (Inherited : Type) (kernel : Kernel) (table : Table Inherited), AllSucceed kernel →
    StandardOpen (lookup table) →
    ∃ pipes : List Made, pipes.Nodup ∧ pipes.length = typed.rest.length ∧
      Wired (lookup (caller table).table) none pipes typed.stage typed.rest
        (execed ((runCmd kernel typed.tree []).run (caller table)))

/-! ## Lines -/

theorem renders_entered {toks : List Tok} {line : Text} (written : WrittenAs toks line) :
    WrittenAs toks (line ++ [newline]) := by
  have blankNewline : ∀ symbol ∈ [newline], isWhitespace symbol = true := by
    intro symbol member
    rw [List.mem_singleton.mp member]
    rfl
  induction written with
  | @done gap blanks =>
      apply Renders.done
      intro symbol member
      rcases List.mem_append.mp member with member | member
      · exact blanks symbol member
      · exact blankNewline symbol member
  | @token token following gap input blanks separate rest ih =>
      rw [List.append_assoc]
      apply Renders.token blanks _ ih
      cases token with
      | sign symbol => trivial
      | word text =>
          cases following with
          | nil => trivial
          | cons other following =>
              cases other with
              | sign symbol => trivial
              | word other =>
                  obtain ⟨symbol, tail, start, isBlank⟩ := separate
                  exact ⟨symbol, tail ++ [newline], by rw [start, List.cons_append], isBlank⟩

theorem token_length_le {toks : List Tok} {line : Text} (written : WrittenAs toks line) :
    ∀ token ∈ toks, token.text.length ≤ line.length := by
  induction written with
  | done blanks =>
      intro token member
      cases member
  | @token token following gap input blanks separate rest ih =>
      intro other member
      rw [List.length_append, List.length_append]
      rcases List.mem_cons.mp member with rfl | later
      · omega
      · have bound := ih other later
        omega

theorem item_token {stage : Stage} {rest : List Stage} {one : Stage} (present : one ∈ stage :: rest)
    {item : Item} (inside : item ∈ one.items) :
    ∃ token ∈ pipelineTokens stage rest, token.text = item.text := by
  have own : ∃ token ∈ stageTokens one.items, token.text = item.text := by
    cases item with
    | word text => exact ⟨.word text, List.mem_flatMap.mpr ⟨_, inside, by simp [itemTokens]⟩, rfl⟩
    | redirect redirection =>
        exact ⟨.word redirection.file, List.mem_flatMap.mpr ⟨_, inside, by simp [itemTokens]⟩, rfl⟩
  obtain ⟨token, member, text⟩ := own
  refine ⟨token, ?_, text⟩
  induction rest generalizing stage with
  | nil =>
      rw [List.mem_singleton.mp present] at member
      exact member
  | cons next rest ih =>
      rw [pipelineTokens]
      rcases List.mem_cons.mp present with rfl | later
      · exact List.mem_append_left _ member
      · exact List.mem_append_right _ (List.mem_cons_of_mem _ (ih later))

/-! ## One line -/

theorem runs_as_written (typed : Typed) : RunsAsWritten typed := by
  intro Inherited kernel table succeed standard
  exact ⟨pipesMade [] 0 0 typed.rest.length, pipes_made_distinct _ _ _ _,
    length_pipes_made _ _ _ _, wired_pipeline succeed typed.stage typed.rest []
      (caller_standard standard) (caller_no_ends table) (caller_wired table)⟩

theorem entered_c_string (typed : Typed) : cString typed.entered = typed.entered :=
  cString_of_written (renders_entered typed.written) (proper_pipeline typed.stage typed.rest)

theorem entered_no_nul (typed : Typed) : ∀ byte ∈ typed.entered, byte ≠ 0 := by
  intro byte member
  have whole := entered_c_string typed
  rw [cString, List.takeWhile_eq_self_iff] at whole
  simpa using whole byte member

theorem entered_nonempty (typed : Typed) : typed.entered ≠ [] :=
  List.append_ne_nil_of_right_ne_nil _ (List.cons_ne_nil _ _)

theorem padded_c_string (typed : Typed) (len : Nat) :
    cString (padded len typed.entered) = typed.entered := by
  have all : ∀ byte ∈ typed.entered, (byte != 0) = true := by
    intro byte member
    simpa using entered_no_nul typed byte member
  have zeros : (List.replicate (len - typed.entered.length) (0 : Byte)).takeWhile
      (fun byte => byte != 0) = [] := by
    cases len - typed.entered.length with
    | zero => rfl
    | succ count => rfl
  rw [cString, padded, List.takeWhile_append_of_pos all, zeros, List.append_nil]

theorem typed_parsed {typed : Typed} (short : typed.entered.length < 2 ^ 31 - 1) {str : Text}
    (holds : cString str = typed.entered) : ParsesTo str typed.tree := by
  have proper := proper_pipeline typed.stage typed.rest
  have written := renders_entered typed.written
  have toks := tokens_of_written written proper
  have enough : typed.rest.length ≤ typed.entered.length := by
    have stages := length_stages_lt typed.stage typed.rest
    have symbols := @length_tokens_le _ (strchr whitespaces) (strchr symbols) typed.entered
    rw [← toks] at stages
    exact Nat.le_trans stages symbols
  have copied : ∀ one ∈ typed.stage :: typed.rest, copyItems one.items = .ok one.items := by
    intro one present
    apply copy_items_of_short
    intro item inside
    obtain ⟨token, member, text⟩ := item_token present inside
    rw [← text]
    exact Nat.lt_of_le_of_lt (token_length_le written token member) short
  obtain ⟨cmd, after, parsed, built⟩ := pipeline_built emptyState copied enough
  refine ⟨cmd, after, ?_, built.tree, built.printed⟩
  have tokens : lineTokens typed.entered = pipelineTokens typed.stage typed.rest := toks
  rw [parse_command_eq, holds, tokens, TokenParser.whole, parsed, ok_bind]
  exact if_neg (not_not.mpr rfl)

/-! ## All lines -/

theorem cut_of_typed {room : Nat} {all : List Typed}
    (fits : ∀ typed ∈ all, typed.entered.length ≤ room) :
    Cut room (all.map Typed.entered) (all.map Typed.entered).flatten := by
  induction all with
  | nil => exact .done
  | cons typed all ih =>
      rw [List.map_cons, List.flatten_cons]
      apply Cut.piece
      · exact entered_nonempty typed
      · exact fits typed List.mem_cons_self
      · rw [OneLine, Typed.entered, List.dropLast_concat]
        exact typed.oneLine
      · left
        rw [Typed.entered, List.getLast?_concat]
      · exact ih fun other member => fits other (List.mem_cons_of_mem _ member)

theorem entered_starts (typed : Typed) : startsWithNul typed.entered = false := by
  obtain ⟨byte, tail, whole⟩ := List.exists_cons_of_ne_nil (entered_nonempty typed)
  have notNul := entered_no_nul typed byte (whole ▸ List.mem_cons_self)
  rw [startsWithNul, whole]
  simpa [deref] using notNul

/-- Each line comes out of the array as it was typed. -/
theorem typed_pipelines_run {len : Nat} (room : 2 ≤ len) (isInt : len < 2 ^ 31) {str : Text}
    (size : str.length = len) {console : Console} {all : List Typed}
    (input : console.input = (all.map Typed.entered).flatten)
    (fits : ∀ typed ∈ all, typed.entered.length < len) :
    (∃ strs last, Reads len str console strs last) ∧
      ∀ strs last, Reads len str console strs last → last.input = [] ∧
        List.Forall₂ (fun typed str => ParsesTo str typed.tree ∧ RunsAsWritten typed) all strs := by
  have cut := @cut_of_typed (len - 1) all fun typed member => by
    have bound := fits typed member
    omega
  rw [← input] at cut
  refine ⟨exists_reads room size cut, ?_⟩
  intro strs last reads
  obtain ⟨handed, left, _⟩ := hands_out_of_cut room size cut reads
  have go : ∀ piece ∈ all.map Typed.entered, (!startsWithNul piece) = true := by
    intro piece member
    obtain ⟨typed, _, rfl⟩ := List.mem_map.mp member
    rw [entered_starts]
    rfl
  rw [List.takeWhile_eq_self_iff.mpr go] at handed
  rw [List.dropWhile_eq_nil_iff.mpr go] at left
  refine ⟨left, ?_⟩
  rw [handed, List.map_map, List.forall₂_map_right_iff, List.forall₂_same]
  intro typed member
  refine ⟨typed_parsed ?_ (padded_c_string typed len), runs_as_written typed⟩
  have bound := fits typed member
  omega

/-! ## The lines `a|b` and `b` -/

def typedPair : Typed where
  stage := stageA
  rest := [stageB]
  line := [97, 124, 98]
  written := @Renders.token _ _ (.word [97]) _ [] [124, 98] no_whitespace trivial
    (@Renders.token _ _ (.sign 124) _ [] [98] no_whitespace trivial
      (@Renders.token _ _ (.word [98]) _ [] [] no_whitespace trivial (.done no_whitespace)))
  oneLine := by decide

def typedSingle : Typed where
  stage := stageB
  rest := []
  line := [98]
  written := @Renders.token _ _ (.word [98]) _ [] [] no_whitespace trivial (.done no_whitespace)
  oneLine := by decide

theorem two_lines_run :
    (∃ strs last, Reads 8 (List.replicate 8 0) ⟨true, [97, 124, 98, 10, 98, 10], []⟩ strs last) ∧
      ∀ strs last, Reads 8 (List.replicate 8 0) ⟨true, [97, 124, 98, 10, 98, 10], []⟩ strs last →
        last.input = [] ∧ List.Forall₂
          (fun typed str => ParsesTo str typed.tree ∧ RunsAsWritten typed)
          [typedPair, typedSingle] strs :=
  @typed_pipelines_run 8 (by decide) (by decide) (List.replicate 8 0) rfl
    ⟨true, [97, 124, 98, 10, 98, 10], []⟩ [typedPair, typedSingle] rfl (by
      intro typed member
      simp only [List.mem_cons, List.not_mem_nil, or_false] at member
      rcases member with rfl | rfl
      · decide
      · decide)

end Sysprog.Shell.TypedLines
