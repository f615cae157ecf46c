import Sysprog.Shell.Endings

/-!
# The lines that the parser accepts

The grammar of a line over its tokens, and whether `parse_command` accepts the
lines that keep to it and no others. A redirection takes any token as its file
name.
-/

namespace Sysprog.Shell.AcceptedLines

open CheckedRuns Scanner Commands LineParser Tokens TokenParser Pipelines Readings
  Endings

set_option autoImplicit false

def joined : List Item → List (List Item) → List Tok
  | items, [] => stageTokens items
  | items, next :: rest => stageTokens items ++ .sign pipeSign :: joined next rest

/-- Stages of words and redirections to a word, each with few words. -/
def InGrammar (toks : List Tok) : Prop :=
  ∃ first rest, toks = joined first rest ∧
    ∀ items ∈ first :: rest, (wordsOf items).length < maxargs

/-! ## The grammar in terms of what the parser reads -/

def partOf : Item → Part
  | .word text => .word text
  | .redirect redirection => .redirect redirection.sign (.word redirection.file)

/-- A redirection that takes a sign as its file name. -/
def TakesSign (stage : List Part) : Prop :=
  ∃ symbol file, .redirect symbol (.sign file) ∈ stage

theorem read_stage (items : List Item) (rest : List Tok) :
    readStages (stageTokens items ++ rest) =
      (items.map partOf ++ (readStages rest).1, (readStages rest).2) := by
  induction items with
  | nil => rfl
  | cons item items ih =>
      cases item with
      | word text =>
          rw [stage_tokens_word, List.cons_append, readStages, ih]
          rfl
      | redirect redirection =>
          obtain ⟨isRedir, _, _⟩ := ParsedStages.redirect_of_type redirection
          rw [stage_tokens_redirect, List.cons_append, List.cons_append, readStages, if_pos isRedir,
            ih]
          rfl

theorem read_pipe (toks : List Tok) : readStages (.sign pipeSign :: toks) = ([], stagesOf toks) := by
  cases toks with
  | nil => rfl
  | cons token rest => rfl

theorem stages_of_joined (first : List Item) (rest : List (List Item)) :
    stagesOf (joined first rest) = (first :: rest).map (List.map partOf) := by
  induction rest generalizing first with
  | nil =>
      have whole := read_stage first []
      rw [List.append_nil] at whole
      simp [joined, stagesOf, whole, readStages]
  | cons next rest ih =>
      rw [joined, stagesOf, read_stage, read_pipe, ih]
      simp

theorem complete_of_items {items : List Item} :
    Complete (items.map partOf) ↔ (wordsOf items).length < maxargs := by
  have count : wordCount (items.map partOf) = (wordsOf items).length := by
    induction items with
    | nil => rfl
    | cons item items ih =>
        cases item with
        | word text => simp [partOf, ih]
        | redirect redirection => simp [partOf, ih]
  have noBare : ∀ symbol, Part.bare symbol ∉ items.map partOf := by
    intro symbol member
    obtain ⟨item, _, same⟩ := List.mem_map.mp member
    cases item with
    | word text => cases same
    | redirect redirection => cases same
  rw [Complete, count]
  exact ⟨And.right, fun few => ⟨noBare, few⟩⟩

theorem no_sign_of_items (items : List Item) : ¬ TakesSign (items.map partOf) := by
  rintro ⟨symbol, file, member⟩
  obtain ⟨item, _, same⟩ := List.mem_map.mp member
  cases item with
  | word text => cases same
  | redirect redirection => cases same

/-- The item that was read as a part. -/
def itemOf : Part → Item
  | .word text => .word text
  | .redirect symbol file => .redirect ⟨symbol == outputSign, file.text⟩
  | .bare _ => .word []

theorem sign_of_redirect {symbol : Byte} (isSign : symbol ∈ symbols)
    (redir : isRedirect (.sign symbol) = true) (file : Text) :
    Redirection.sign ⟨symbol == outputSign, file⟩ = symbol := by
  have one : symbol = inputSign ∨ symbol = pipeSign ∨ symbol = outputSign := by
    simpa [symbols] using isSign
  rcases one with rfl | rfl | rfl
  · rfl
  · cases redir
  · rfl

theorem sign_of_pipe {symbol : Byte} (isSign : symbol ∈ symbols)
    (other : ¬ isRedirect (.sign symbol) = true) : symbol = pipeSign := by
  have one : symbol = inputSign ∨ symbol = pipeSign ∨ symbol = outputSign := by
    simpa [symbols] using isSign
  rcases one with rfl | rfl | rfl
  · exact absurd rfl other
  · rfl
  · exact absurd rfl other

def WellRead (stage : List Part) : Prop :=
  (∀ symbol, .bare symbol ∉ stage) ∧ ¬ TakesSign stage

theorem well_read_tail {part : Part} {stage : List Part} (well : WellRead (part :: stage)) :
    WellRead stage := by
  constructor
  · intro symbol member
    exact well.1 symbol (List.mem_cons_of_mem _ member)
  · rintro ⟨symbol, file, member⟩
    exact well.2 ⟨symbol, file, List.mem_cons_of_mem _ member⟩

theorem joined_item (item : Item) (first : List Item) (rest : List (List Item)) :
    joined (item :: first) rest = itemTokens item ++ joined first rest := by
  cases rest with
  | nil => rfl
  | cons next rest =>
      simp only [joined, stageTokens, List.flatMap_cons, List.append_assoc]

/-- Tokens that are read without a sign in a wrong place are those of items. -/
theorem joined_of_read {toks : List Tok} (signs : ∀ symbol, .sign symbol ∈ toks → symbol ∈ symbols)
    (first : WellRead (readStages toks).1) (others : ∀ stage ∈ (readStages toks).2, WellRead stage) :
    joined ((readStages toks).1.map itemOf) ((readStages toks).2.map (List.map itemOf)) = toks := by
  induction toks using readStages.induct with
  | case1 => rfl
  | case2 text rest ih =>
      have signsRest : ∀ symbol, .sign symbol ∈ rest → symbol ∈ symbols :=
        fun symbol member => signs symbol (List.mem_cons_of_mem _ member)
      rw [readStages] at first others ⊢
      have tail := ih signsRest (well_read_tail first) others
      rw [List.map_cons, joined_item, tail]
      rfl
  | case3 symbol isRedir =>
      rw [readStages, if_pos isRedir] at first
      exact absurd List.mem_cons_self (first.1 symbol)
  | case4 symbol other =>
      have pipe := sign_of_pipe (signs symbol List.mem_cons_self) other
      rw [readStages, if_neg other, pipe]
      rfl
  | case5 symbol file rest isRedir ih =>
      have signsRest : ∀ symbol, .sign symbol ∈ rest → symbol ∈ symbols := by
        intro other member
        exact signs other (List.mem_cons_of_mem _ (List.mem_cons_of_mem _ member))
      rw [readStages, if_pos isRedir] at first others ⊢
      have tail := ih signsRest (well_read_tail first) others
      cases file with
      | sign sign => exact absurd ⟨symbol, sign, List.mem_cons_self⟩ first.2
      | word text =>
          have same := sign_of_redirect (signs symbol List.mem_cons_self) isRedir text
          rw [List.map_cons, joined_item, tail]
          simp only [itemOf, itemTokens, Token.text, same]
          rfl
  | case6 symbol file rest other ih =>
      have signsRest : ∀ symbol, .sign symbol ∈ file :: rest → symbol ∈ symbols :=
        fun symbol member => signs symbol (List.mem_cons_of_mem _ member)
      have pipe := sign_of_pipe (signs symbol List.mem_cons_self) other
      rw [readStages, if_neg other] at others ⊢
      have tail := ih signsRest (others _ List.mem_cons_self)
        fun stage member => others stage (List.mem_cons_of_mem _ member)
      rw [List.map_cons, List.map_nil, joined, tail, pipe]
      rfl

theorem items_of_well_read {stage : List Part} (well : WellRead stage) :
    (wordsOf (stage.map itemOf)).length = wordCount stage := by
  induction stage with
  | nil => rfl
  | cons part stage ih =>
      have tail := ih (well_read_tail well)
      cases part with
      | word text => simp [itemOf, tail]
      | redirect symbol file => simp [itemOf, tail]
      | bare symbol => exact absurd List.mem_cons_self (well.1 symbol)

/-- The grammar, read stage by stage. -/
theorem in_grammar_iff {toks : List Tok}
    (signs : ∀ symbol, .sign symbol ∈ toks → symbol ∈ symbols) :
    InGrammar toks ↔ ∀ stage ∈ stagesOf toks, Complete stage ∧ ¬ TakesSign stage := by
  constructor
  · rintro ⟨first, rest, rfl, few⟩ stage member
    rw [stages_of_joined] at member
    obtain ⟨items, present, rfl⟩ := List.mem_map.mp member
    exact ⟨complete_of_items.mpr (few items present), no_sign_of_items items⟩
  · intro complete
    have well : ∀ stage ∈ stagesOf toks, WellRead stage :=
      fun stage member => ⟨(complete stage member).1.1, (complete stage member).2⟩
    refine ⟨(readStages toks).1.map itemOf, (readStages toks).2.map (List.map itemOf), ?_, ?_⟩
    · symm
      apply joined_of_read signs
      · exact well _ List.mem_cons_self
      · exact fun stage member => well stage (List.mem_cons_of_mem _ member)
    · intro items member
      rw [← List.map_cons] at member
      obtain ⟨stage, present, rfl⟩ := List.mem_map.mp member
      rw [items_of_well_read (well stage present)]
      exact (complete stage present).1.2

theorem signs_of_line {line : Text} {symbol : Byte}
    (member : .sign symbol ∈ lineTokens line) : symbol ∈ symbols := by
  have proper : Proper (strchr whitespaces) (strchr symbols) (.sign symbol) :=
    proper_of_tokens member
  rcases sign_cases proper.1 (ne_nul_of_not_whitespace proper.2) with rfl | rfl | rfl
  all_goals decide

/-! ## Accepting exactly the grammar -/

/-- A line of the grammar is parsed, and any other line ends the shell with an
error message. -/
def AcceptsByGrammar (line : Text) : Prop :=
  (InGrammar (lineTokens (cString line)) → ∃ parsed, parseCommand line = .ok parsed) ∧
    (¬ InGrammar (lineTokens (cString line)) →
      ∃ halt text, parseCommand line = .error halt ∧ halt.message = some text)

/-- The parser accepts the grammar and refuses every other line exactly when
every stage it gets to fits, and a line in which a redirection takes a sign as
its file name has another stage at fault. -/
theorem accepts_by_grammar_iff (line : Text) :
    AcceptsByGrammar line ↔
      Fits (stagesOf (lineTokens (cString line))) ∧
        ((∃ stage ∈ stagesOf (lineTokens (cString line)), TakesSign stage) →
          ∃ stage ∈ stagesOf (lineTokens (cString line)), ¬ Complete stage) := by
  have grammar := @in_grammar_iff (lineTokens (cString line)) fun _ member => signs_of_line member
  constructor
  · rintro ⟨accepted, refused⟩
    by_cases inside : InGrammar (lineTokens (cString line))
    · have complete := grammar.mp inside
      constructor
      · apply (fits_iff _).mp
        exact .inl (verdict_of_parsed (accepted inside))
      · rintro ⟨stage, member, takes⟩
        exact absurd takes (complete stage member).2
    · obtain ⟨halt, text, ended, printed⟩ := refused inside
      have ended := error_iff_verdict.mp ended
      have fits := (fits_iff _).mp (intended_of_message ended printed)
      refine ⟨fits, fun _ => ?_⟩
      by_contra none
      have complete : ∀ stage ∈ stagesOf (lineTokens (cString line)), Complete stage := by
        intro stage member
        by_contra other
        exact none ⟨stage, member, other⟩
      rw [(verdict_ok_iff fits).mpr complete] at ended
      cases ended
  · rintro ⟨fits, otherwise⟩
    constructor
    · intro inside
      apply parsed_of_verdict
      exact (verdict_ok_iff fits).mpr fun stage member => (grammar.mp inside stage member).1
    · intro outside
      have refused : verdict (stagesOf (lineTokens (cString line))) ≠ .ok () := by
        intro accepted
        have complete := (verdict_ok_iff fits).mp accepted
        apply outside
        apply grammar.mpr
        intro stage member
        refine ⟨complete stage member, fun takes => ?_⟩
        obtain ⟨other, present, incomplete⟩ := otherwise ⟨stage, member, takes⟩
        exact incomplete (complete other present)
      obtain ⟨halt, ended, printed⟩ := message_of_intended ((fits_iff _).mpr fits) refused
      rcases printed with printed | printed
      · exact ⟨halt, _, ended, printed⟩
      · exact ⟨halt, _, ended, printed⟩

/-- `a<|` is parsed, with the pipe sign as the name of the file. -/
theorem sign_taken_as_file : ¬ AcceptsByGrammar [97, 60, 124] := by
  intro accepts
  have outside : ¬ InGrammar (lineTokens (cString [97, 60, 124])) := by
    intro inside
    have complete := (in_grammar_iff fun _ member => signs_of_line member).mp inside
    have taken : TakesSign [.word [97], .redirect 60 (.sign 124)] := ⟨60, 124, by decide⟩
    exact (complete _ (by decide +kernel)).2 taken
  obtain ⟨halt, text, ended, _⟩ := accepts.2 outside
  have parsed : (parseCommand [97, 60, 124]).isOk = true := by decide +kernel
  rw [ended] at parsed
  cases parsed

end Sysprog.Shell.AcceptedLines
