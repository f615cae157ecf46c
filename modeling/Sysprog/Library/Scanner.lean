import Mathlib.Data.List.DropRight

/-!
# A scanner of words and signs

Input over any alphabet in which some symbols are blank and some are signs.
A sign is a token by itself, a word is a longest run of symbols that are
neither. The tokens of an input are those of every way to write them down.
-/

namespace Sysprog.Scanner

set_option autoImplicit false

variable {Symbol : Type*}

inductive Token (Symbol : Type*) where
  | sign (symbol : Symbol)
  | word (text : List Symbol)
  deriving DecidableEq

def Token.text : Token Symbol → List Symbol
  | .sign symbol => [symbol]
  | .word text => text

variable (blank sign : Symbol → Bool)

def plain (symbol : Symbol) : Bool := !blank symbol && !sign symbol

/-- The first token and what follows it, blanks skipped on both sides. -/
def next (input : List Symbol) : Option (Token Symbol × List Symbol) :=
  match input.dropWhile blank with
  | [] => none
  | symbol :: rest =>
      if sign symbol then some (.sign symbol, rest.dropWhile blank)
      else some (.word ((symbol :: rest).takeWhile (plain blank sign)),
        ((symbol :: rest).dropWhile (plain blank sign)).dropWhile blank)

def tokensWithin : Nat → List Symbol → List (Token Symbol)
  | 0, _ => []
  | fuel + 1, input =>
      match next blank sign input with
      | none => []
      | some (token, rest) => token :: tokensWithin fuel rest

def tokens (input : List Symbol) : List (Token Symbol) := tokensWithin blank sign input.length input

variable {blank sign}

theorem head_not_of_dropWhile {p : Symbol → Bool} {input rest : List Symbol} {symbol : Symbol}
    (left : input.dropWhile p = symbol :: rest) : p symbol = false := by
  have stopped := List.head?_dropWhile_not p input
  rw [left] at stopped
  simpa using stopped

theorem next_of_blank {input : List Symbol} (left : input.dropWhile blank = []) :
    next blank sign input = none := by
  simp [next, left]

theorem next_of_sign {input rest : List Symbol} {symbol : Symbol}
    (left : input.dropWhile blank = symbol :: rest) (isSign : sign symbol = true) :
    next blank sign input = some (.sign symbol, rest.dropWhile blank) := by
  simp [next, left, isSign]

theorem next_of_word {input rest : List Symbol} {symbol : Symbol}
    (left : input.dropWhile blank = symbol :: rest) (notSign : sign symbol = false) :
    next blank sign input = some (.word ((symbol :: rest).takeWhile (plain blank sign)),
      ((symbol :: rest).dropWhile (plain blank sign)).dropWhile blank) := by
  simp [next, left, notSign]

theorem next_skip (input : List Symbol) :
    next blank sign (input.dropWhile blank) = next blank sign input := by
  rw [next, next, List.dropWhile_idempotent]

theorem next_shorter {input rest : List Symbol} {token : Token Symbol}
    (found : next blank sign input = some (token, rest)) : rest.length < input.length := by
  have skipped := List.length_dropWhile_le blank input
  cases left : input.dropWhile blank with
  | nil =>
      rw [next_of_blank left] at found
      cases found
  | cons symbol tail =>
      rw [left, List.length_cons] at skipped
      by_cases isSign : sign symbol = true
      · rw [next_of_sign left isSign] at found
        cases found
        have after := List.length_dropWhile_le blank tail
        omega
      · have notSign : sign symbol = false := by simpa using isSign
        rw [next_of_word left notSign] at found
        cases found
        have isPlain : plain blank sign symbol = true := by
          simp [plain, head_not_of_dropWhile left, notSign]
        rw [List.dropWhile_cons_of_pos isPlain]
        have word := List.length_dropWhile_le (plain blank sign) tail
        have after := List.length_dropWhile_le blank (tail.dropWhile (plain blank sign))
        omega

theorem tokens_within_eq {input : List Symbol} {fuel other : Nat} (enough : input.length ≤ fuel)
    (otherEnough : input.length ≤ other) :
    tokensWithin blank sign fuel input = tokensWithin blank sign other input := by
  induction fuel generalizing other input with
  | zero =>
      have empty : input = [] := List.length_eq_zero_iff.mp (by omega)
      subst empty
      cases other <;> rfl
  | succ fuel ih =>
      cases other with
      | zero =>
          have empty : input = [] := List.length_eq_zero_iff.mp (by omega)
          subst empty
          rfl
      | succ other =>
          cases found : next blank sign input with
          | none => simp only [tokensWithin, found]
          | some pair =>
              rcases pair with ⟨token, rest⟩
              have shorter := next_shorter found
              have same : tokensWithin blank sign fuel rest = tokensWithin blank sign other rest :=
                ih (by omega) (by omega)
              simp only [tokensWithin, found, same]

theorem length_tokens_le (input : List Symbol) : (tokens blank sign input).length ≤ input.length := by
  unfold tokens
  generalize input.length = fuel
  induction fuel generalizing input with
  | zero => exact Nat.le_refl _
  | succ fuel ih =>
      cases found : next blank sign input with
      | none => simp [tokensWithin, found]
      | some pair =>
          rcases pair with ⟨token, rest⟩
          have rest := ih rest
          simp only [tokensWithin, found, List.length_cons]
          omega

theorem tokens_of_next_none {input : List Symbol} (none : next blank sign input = none) :
    tokens blank sign input = [] := by
  unfold tokens
  cases input.length with
  | zero => rfl
  | succ fuel => simp only [tokensWithin, none]

theorem tokens_of_next {input rest : List Symbol} {token : Token Symbol}
    (found : next blank sign input = some (token, rest)) :
    tokens blank sign input = token :: tokens blank sign rest := by
  have shorter := next_shorter found
  unfold tokens
  cases length : input.length with
  | zero => omega
  | succ fuel =>
      simp only [tokensWithin, found]
      rw [tokens_within_eq (by omega) (Nat.le_refl _)]

@[simp] theorem tokens_skip (input : List Symbol) :
    tokens blank sign (input.dropWhile blank) = tokens blank sign input := by
  cases found : next blank sign input with
  | none =>
      rw [tokens_of_next_none found, tokens_of_next_none (by rw [next_skip, found])]
  | some pair =>
      rcases pair with ⟨token, rest⟩
      rw [tokens_of_next found, tokens_of_next (by rw [next_skip, found])]

variable (blank sign)

def Proper : Token Symbol → Prop
  | .sign symbol => sign symbol = true ∧ blank symbol = false
  | .word text => text ≠ [] ∧ ∀ symbol ∈ text, plain blank sign symbol = true

variable {blank sign}

theorem proper_of_next {input rest : List Symbol} {token : Token Symbol}
    (found : next blank sign input = some (token, rest)) : Proper blank sign token := by
  cases left : input.dropWhile blank with
  | nil =>
      rw [next_of_blank left] at found
      cases found
  | cons symbol tail =>
      have notBlank := head_not_of_dropWhile left
      cases isSign : sign symbol with
      | true =>
          rw [next_of_sign left isSign] at found
          cases found
          exact ⟨isSign, notBlank⟩
      | false =>
          rw [next_of_word left isSign] at found
          cases found
          have isPlain : plain blank sign symbol = true := by
            simp [plain, notBlank, isSign]
          constructor
          · rw [List.takeWhile_cons_of_pos isPlain]
            exact List.cons_ne_nil _ _
          · intro other member
            exact List.mem_takeWhile_imp member

/-- Every token of an input is a sign or a word of plain symbols. -/
theorem proper_of_tokens {input : List Symbol} {token : Token Symbol}
    (member : token ∈ tokens blank sign input) : Proper blank sign token := by
  induction length : input.length using Nat.strong_induction_on generalizing input with
  | _ size ih =>
      cases found : next blank sign input with
      | none =>
          rw [tokens_of_next_none found] at member
          cases member
      | some pair =>
          rcases pair with ⟨first, rest⟩
          rw [tokens_of_next found] at member
          rcases List.mem_cons.mp member with rfl | member
          · exact proper_of_next found
          · have shorter := next_shorter found
            exact ih rest.length (by omega) member rfl

variable (blank sign)

/-- Two words that follow one another need a blank between them. -/
def Separate : Token Symbol → List (Token Symbol) → List Symbol → Prop
  | .word _, .word _ :: _, input => ∃ symbol rest, input = symbol :: rest ∧ blank symbol = true
  | _, _, _ => True

/-- An input is the tokens in order with any blanks before, between and after
them. -/
inductive Renders : List (Token Symbol) → List Symbol → Prop where
  | done {gap : List Symbol} (blanks : ∀ symbol ∈ gap, blank symbol = true) : Renders [] gap
  | token {token : Token Symbol} {following : List (Token Symbol)} {gap input : List Symbol}
      (blanks : ∀ symbol ∈ gap, blank symbol = true)
      (separate : Separate blank token following input) (rest : Renders following input) :
      Renders (token :: following) (gap ++ token.text ++ input)

variable {blank sign}

theorem renders_mono {wider : Symbol → Bool} {toks : List (Token Symbol)} {input : List Symbol}
    (implied : ∀ symbol, blank symbol = true → wider symbol = true)
    (rendered : Renders blank toks input) : Renders wider toks input := by
  induction rendered with
  | done blanks => exact .done fun symbol member => implied symbol (blanks symbol member)
  | @token token following gap input blanks separate rest ih =>
      apply Renders.token
      · exact fun symbol member => implied symbol (blanks symbol member)
      · cases token with
        | sign symbol => trivial
        | word text =>
            cases following with
            | nil => trivial
            | cons other following =>
                cases other with
                | sign symbol => trivial
                | word other =>
                    obtain ⟨symbol, tail, start, isBlank⟩ := separate
                    exact ⟨symbol, tail, start, implied symbol isBlank⟩
      · exact ih

/-- Every symbol of a rendering is blank or belongs to a token. -/
theorem symbol_of_renders {toks : List (Token Symbol)} {input : List Symbol} {symbol : Symbol}
    (rendered : Renders blank toks input) (member : symbol ∈ input) :
    blank symbol = true ∨ ∃ token ∈ toks, symbol ∈ token.text := by
  induction rendered with
  | done blanks => exact .inl (blanks symbol member)
  | @token token following gap input blanks separate rest ih =>
      rcases List.mem_append.mp member with member | member
      · rcases List.mem_append.mp member with member | member
        · exact .inl (blanks symbol member)
        · exact .inr ⟨token, List.mem_cons_self, member⟩
      · rcases ih member with isBlank | ⟨other, present, inside⟩
        · exact .inl isBlank
        · exact .inr ⟨other, List.mem_cons_of_mem _ present, inside⟩

/-- What follows a word in a rendering does not go on with it. -/
theorem word_ends {following : List (Token Symbol)} {text input : List Symbol}
    (rendered : Renders blank following input)
    (proper : ∀ token ∈ following, Proper blank sign token)
    (separate : Separate blank (.word text) following input) :
    ∀ symbol ∈ input.head?, plain blank sign symbol = false := by
  intro symbol first
  cases rendered with
  | done blanks =>
      have isBlank := blanks symbol (List.mem_of_head? first)
      simp [plain, isBlank]
  | @token token following gap input blanks _ rest =>
      cases gap with
      | cons blankSymbol gap =>
          simp only [List.cons_append, List.head?_cons, Option.mem_some_iff] at first
          have isBlank := blanks blankSymbol List.mem_cons_self
          simp [plain, ← first, isBlank]
      | nil =>
          cases token with
          | sign signSymbol =>
              simp only [Token.text, List.nil_append, List.cons_append, List.head?_cons,
                Option.mem_some_iff] at first
              have isSign := (proper _ List.mem_cons_self).1
              simp [plain, ← first, isSign]
          | word other =>
              obtain ⟨blankSymbol, tail, start, isBlank⟩ := separate
              rw [start, List.head?_cons, Option.mem_some_iff] at first
              simp [plain, ← first, isBlank]

theorem takeWhile_of_head {p : Symbol → Bool} {input : List Symbol}
    (stops : ∀ symbol ∈ input.head?, p symbol = false) :
    input.takeWhile p = [] ∧ input.dropWhile p = input := by
  cases input with
  | nil => exact ⟨rfl, rfl⟩
  | cons symbol rest =>
      have stop : ¬ p symbol = true := by simp [stops symbol rfl]
      exact ⟨List.takeWhile_cons_of_neg stop, List.dropWhile_cons_of_neg stop⟩

/-- The tokens of an input are those it renders. -/
theorem tokens_of_renders {toks : List (Token Symbol)} {input : List Symbol}
    (rendered : Renders blank toks input) (proper : ∀ token ∈ toks, Proper blank sign token) :
    tokens blank sign input = toks := by
  induction rendered with
  | @done gap blanks =>
      apply tokens_of_next_none
      apply next_of_blank
      exact List.dropWhile_eq_nil_iff.mpr blanks
  | @token token following gap input blanks separate rest ih =>
      have properRest : ∀ token ∈ following, Proper blank sign token :=
        fun other member => proper other (List.mem_cons_of_mem _ member)
      have tail := ih properRest
      have start : (gap ++ token.text ++ input).dropWhile blank =
          (token.text ++ input).dropWhile blank := by
        rw [List.append_assoc, List.dropWhile_append_of_pos blanks]
      have properToken := proper token List.mem_cons_self
      cases token with
      | sign symbol =>
          obtain ⟨isSign, notBlank⟩ := properToken
          have left : (gap ++ (Token.sign symbol).text ++ input).dropWhile blank =
              symbol :: input := by
            rw [start]
            exact List.dropWhile_cons_of_neg (by simp [notBlank])
          rw [tokens_of_next (next_of_sign left isSign), tokens_skip, tail]
      | word text =>
          obtain ⟨nonempty, plains⟩ := properToken
          obtain ⟨first, letters, rfl⟩ := List.exists_cons_of_ne_nil nonempty
          have firstPlain := plains first List.mem_cons_self
          simp only [plain, Bool.and_eq_true, Bool.not_eq_true'] at firstPlain
          have left : (gap ++ (Token.word (first :: letters)).text ++ input).dropWhile blank =
              first :: (letters ++ input) := by
            rw [start]
            exact List.dropWhile_cons_of_neg (by simp [firstPlain.1])
          have ends := takeWhile_of_head (word_ends rest properRest separate)
          have word : (first :: (letters ++ input)).takeWhile (plain blank sign) =
              first :: letters := by
            rw [← List.cons_append, List.takeWhile_append_of_pos plains, ends.1, List.append_nil]
          have after : (first :: (letters ++ input)).dropWhile (plain blank sign) = input := by
            rw [← List.cons_append, List.dropWhile_append_of_pos plains, ends.2]
          rw [tokens_of_next (next_of_word left firstPlain.2), word, after, tokens_skip, tail]

end Sysprog.Scanner
