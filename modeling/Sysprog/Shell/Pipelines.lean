import Sysprog.Shell.TokenParser

/-!
# Pipelines

A pipeline as it is written down, its tokens, and the command tree that a
reader expects of it.
-/

namespace Sysprog.Shell.Pipelines

open CheckedRuns Scanner Commands LineParser Tokens TokenParser

set_option autoImplicit false

structure Redirection where
  output : Bool
  file : Text
  deriving DecidableEq

inductive Item where
  | word (text : Text)
  | redirect (redirection : Redirection)
  deriving DecidableEq

def Item.text : Item → Text
  | .word text => text
  | .redirect redirection => redirection.file

def Item.word? : Item → Option Text
  | .word text => some text
  | .redirect _ => none

def Item.redirection? : Item → Option Redirection
  | .word _ => none
  | .redirect redirection => some redirection

def wordsOf (items : List Item) : List Text := items.filterMap Item.word?

def redirectionsOf (items : List Item) : List Redirection := items.filterMap Item.redirection?

@[simp] theorem words_of_word (text : Text) (items : List Item) :
    wordsOf (.word text :: items) = text :: wordsOf items := rfl

@[simp] theorem words_of_redirect (redirection : Redirection) (items : List Item) :
    wordsOf (.redirect redirection :: items) = wordsOf items := rfl

@[simp] theorem redirections_of_word (text : Text) (items : List Item) :
    redirectionsOf (.word text :: items) = redirectionsOf items := rfl

@[simp] theorem redirections_of_redirect (redirection : Redirection) (items : List Item) :
    redirectionsOf (.redirect redirection :: items) = redirection :: redirectionsOf items := rfl

def Redirection.mode (redirection : Redirection) : Nat :=
  if redirection.output then oWronly ||| oCreat ||| oTrunc else oRdonly

def Redirection.fd (redirection : Redirection) : Nat := if redirection.output then 1 else 0

def Redirection.sign (redirection : Redirection) : Byte :=
  if redirection.output then outputSign else inputSign

/-- The last redirection written is the outermost. -/
def wrap (command : Command) (redirections : List Redirection) : Command :=
  redirections.foldl
    (fun inner redirection => .redirect inner redirection.file redirection.mode redirection.fd)
    command

def stageTree (items : List Item) : Command := wrap (.exec (wordsOf items)) (redirectionsOf items)

def isWhitespace (byte : Byte) : Bool := whitespaces.contains byte

def Name (text : Text) : Prop :=
  text ≠ [] ∧ ∀ byte ∈ text, byte ≠ 0 ∧ byte ∉ whitespaces ∧ byte ∉ symbols

def WordFirst (items : List Item) : Prop := ∃ text rest, items = .word text :: rest

/-- A stage that begins with a word. -/
structure Stage where
  items : List Item
  wordFirst : WordFirst items
  fewWords : (wordsOf items).length < maxargs
  names : ∀ item ∈ items, Name item.text

def wordStage (text : Text) (name : Name text) : Stage where
  items := [.word text]
  wordFirst := ⟨text, [], rfl⟩
  fewWords := Nat.le_of_ble_eq_true rfl
  names := by
    intro item member
    rw [List.mem_singleton.mp member]
    exact name

theorem name_of_letter {byte : Byte} (notNul : byte ≠ 0) (notBlank : byte ∉ whitespaces)
    (notSign : byte ∉ symbols) : Name [byte] := by
  constructor
  · exact List.cons_ne_nil byte []
  · intro other member
    rw [List.mem_singleton.mp member]
    exact ⟨notNul, notBlank, notSign⟩

def stageA : Stage := wordStage [97] (name_of_letter (by decide) (by decide) (by decide))
def stageB : Stage := wordStage [98] (name_of_letter (by decide) (by decide) (by decide))

/-- Pipes nest to the right. -/
def pipelineTree : Stage → List Stage → Command
  | stage, [] => stageTree stage.items
  | stage, next :: rest => .pipe (stageTree stage.items) (pipelineTree next rest)

def itemTokens : Item → List Tok
  | .word text => [.word text]
  | .redirect redirection => [.sign redirection.sign, .word redirection.file]

def stageTokens (items : List Item) : List Tok := items.flatMap itemTokens

@[simp] theorem stage_tokens_word (text : Text) (items : List Item) :
    stageTokens (.word text :: items) = .word text :: stageTokens items := rfl

@[simp] theorem stage_tokens_redirect (redirection : Redirection) (items : List Item) :
    stageTokens (.redirect redirection :: items) =
      .sign redirection.sign :: .word redirection.file :: stageTokens items := rfl

def pipelineTokens : Stage → List Stage → List Tok
  | stage, [] => stageTokens stage.items
  | stage, next :: rest => stageTokens stage.items ++ .sign pipeSign :: pipelineTokens next rest

/-- A line that writes the tokens down, with any whitespace between them. -/
abbrev WrittenAs (toks : List Tok) (line : Text) : Prop := Renders isWhitespace toks line

theorem no_whitespace : ∀ byte ∈ ([] : Text), isWhitespace byte = true := by
  intro byte member
  cases member

theorem one_space : ∀ byte ∈ ([32] : Text), isWhitespace byte = true := by
  intro byte member
  rw [List.mem_singleton.mp member]
  rfl

/-! ## What holds of the tokens of a line -/

theorem blank_of_whitespace (byte : Byte) (blank : isWhitespace byte = true) :
    strchr whitespaces byte = true := by
  unfold isWhitespace at blank
  simp only [strchr, blank, Bool.true_or]

theorem proper_of_name {text : Text} (name : Name text) :
    Proper (strchr whitespaces) (strchr symbols) (.word text) := by
  refine ⟨name.1, ?_⟩
  intro byte member
  obtain ⟨notNul, notBlank, notSign⟩ := name.2 byte member
  simp [plain, strchr, notNul, notBlank, notSign]

theorem proper_sign {symbol : Byte} (isSign : symbol ∈ symbols) :
    Proper (strchr whitespaces) (strchr symbols) (.sign symbol) := by
  have one : symbol = inputSign ∨ symbol = pipeSign ∨ symbol = outputSign := by
    simpa [symbols] using isSign
  rcases one with rfl | rfl | rfl
  all_goals exact ⟨rfl, rfl⟩

theorem sign_in_symbols (redirection : Redirection) : redirection.sign ∈ symbols := by
  unfold Redirection.sign
  split_ifs
  · decide
  · decide

theorem proper_stage {items : List Item} (names : ∀ item ∈ items, Name item.text) :
    ∀ token ∈ stageTokens items, Proper (strchr whitespaces) (strchr symbols) token := by
  intro token member
  obtain ⟨item, present, inside⟩ := List.mem_flatMap.mp member
  have name := names item present
  cases item with
  | word text =>
      have same : token = .word text := List.mem_singleton.mp inside
      rw [same]
      exact proper_of_name name
  | redirect redirection =>
      have either : token = .sign redirection.sign ∨ token = .word redirection.file := by
        simpa [itemTokens] using inside
      rcases either with rfl | rfl
      · exact proper_sign (sign_in_symbols redirection)
      · exact proper_of_name name

theorem proper_pipeline (stage : Stage) (rest : List Stage) :
    ∀ token ∈ pipelineTokens stage rest, Proper (strchr whitespaces) (strchr symbols) token := by
  induction rest generalizing stage with
  | nil => exact proper_stage stage.names
  | cons next rest ih =>
      intro token member
      rcases List.mem_append.mp member with member | member
      · exact proper_stage stage.names token member
      · rcases List.mem_cons.mp member with rfl | member
        · exact proper_sign (by decide)
        · exact ih next token member

theorem tokens_of_written {toks : List Tok} {line : Text} (written : WrittenAs toks line)
    (proper : ∀ token ∈ toks, Proper (strchr whitespaces) (strchr symbols) token) :
    lineTokens line = toks :=
  tokens_of_renders (renders_mono blank_of_whitespace written) proper

theorem cString_of_written {toks : List Tok} {line : Text} (written : WrittenAs toks line)
    (proper : ∀ token ∈ toks, Proper (strchr whitespaces) (strchr symbols) token) :
    cString line = line := by
  have noNul : ∀ byte ∈ line, byte ≠ 0 := by
    intro byte member isNul
    subst isNul
    rcases symbol_of_renders written member with blank | ⟨token, present, inside⟩
    · cases blank
    · have properToken := proper token present
      cases token with
      | sign symbol =>
          have same : (0 : Byte) = symbol := List.mem_singleton.mp inside
          have notBlank := properToken.2
          rw [← same, strchr_nul] at notBlank
          cases notBlank
      | word text =>
          have isPlain := properToken.2 0 inside
          simp [plain, strchr_nul] at isPlain
  unfold cString
  apply List.takeWhile_eq_self_iff.mpr
  intro byte member
  simpa using noNul byte member

theorem length_stages_lt (stage : Stage) (rest : List Stage) :
    rest.length ≤ (pipelineTokens stage rest).length := by
  induction rest generalizing stage with
  | nil => exact Nat.zero_le _
  | cons next rest ih =>
      have more := ih next
      simp only [pipelineTokens, List.length_append, List.length_cons]
      omega

/-! ## Copies -/

/-- An item as `mkcopy` copies its text. -/
def copyItem : Item → Except ParseExit Item
  | .word text => do
      let word ← copyText text
      .ok (.word word)
  | .redirect redirection => do
      let file ← copyText redirection.file
      .ok (.redirect { redirection with file })

def copyItems : List Item → Except ParseExit (List Item)
  | [] => .ok []
  | item :: items => do
      let copy ← copyItem item
      let copies ← copyItems items
      .ok (copy :: copies)

theorem copy_item_word {text : Text} {copy : Item} :
    copyItem (.word text) = .ok copy ↔ ∃ word, copyText text = .ok word ∧ copy = .word word := by
  simp only [copyItem, bind_eq_ok, Except.ok.injEq, @eq_comm _ copy]

theorem copy_item_redirect {redirection : Redirection} {copy : Item} :
    copyItem (.redirect redirection) = .ok copy ↔
      ∃ file, copyText redirection.file = .ok file ∧
        copy = .redirect { redirection with file } := by
  simp only [copyItem, bind_eq_ok, Except.ok.injEq, @eq_comm _ copy]

theorem copy_item_text {item copy : Item} (copied : copyItem item = .ok copy) :
    copyText item.text = .ok copy.text := by
  cases item with
  | word text =>
      obtain ⟨word, one, rfl⟩ := copy_item_word.mp copied
      exact one
  | redirect redirection =>
      obtain ⟨file, one, rfl⟩ := copy_item_redirect.mp copied
      exact one

theorem copy_items_cons {item : Item} {items copies : List Item} :
    copyItems (item :: items) = .ok copies ↔
      ∃ copy others, copyItem item = .ok copy ∧ copyItems items = .ok others ∧
        copies = copy :: others := by
  rw [copyItems, bind_eq_ok]
  constructor
  · intro copied
    obtain ⟨copy, first, rest⟩ := copied
    obtain ⟨others, copied, done⟩ := bind_eq_ok.mp rest
    exact ⟨copy, others, first, copied, (Except.ok.inj done).symm⟩
  · intro copied
    obtain ⟨copy, others, first, copied, rfl⟩ := copied
    exact ⟨copy, first, bind_eq_ok.mpr ⟨others, copied, rfl⟩⟩

theorem copy_items_of_short {items : List Item}
    (short : ∀ item ∈ items, item.text.length < 2 ^ 31 - 1) : copyItems items = .ok items := by
  induction items with
  | nil => rfl
  | cons item items ih =>
      have rest := ih fun other member => short other (List.mem_cons_of_mem _ member)
      have first := copy_text_of_short (short item List.mem_cons_self)
      have copied : copyItem item = .ok item := by
        cases item with
        | word text => exact copy_item_word.mpr ⟨text, first, rfl⟩
        | redirect redirection => exact copy_item_redirect.mpr ⟨redirection.file, first, rfl⟩
      exact copy_items_cons.mpr ⟨item, items, copied, rest, rfl⟩

end Sysprog.Shell.Pipelines
