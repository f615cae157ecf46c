import Sysprog.Library.Scanner
import Sysprog.Library.CheckedRuns
import Sysprog.Shell.LineParser

/-!
# Tokens of a line

`gettoken` is the scanner's next token of the line, `peek` looks at it and
moves past whitespace only, and `mkcopy` copies its text.
-/

namespace Sysprog.Shell.Tokens

open CheckedRuns Scanner Commands LineParser

set_option autoImplicit false

abbrev Tok := Token Byte

def lineTokens (ptr : Text) : List Tok := tokens (strchr whitespaces) (strchr symbols) ptr

abbrev nextToken (ptr : Text) : Option (Tok × Text) :=
  next (strchr whitespaces) (strchr symbols) ptr

def typeOf : Tok → TokenType
  | .word _ => .letter
  | .sign symbol =>
      if symbol = pipeSign then .pipe else if symbol = inputSign then .input else .output

def isPipe (token : Tok) : Bool := typeOf token == .pipe

def isRedirect (token : Tok) : Bool := typeOf token == .input || typeOf token == .output

def copyText (text : Text) : Except ParseExit Text := mkcopy text []

theorem to_int_le {length : Nat} (nonneg : 0 ≤ toInt length) : (toInt length).toNat ≤ length := by
  rw [toInt, Int.bmod_def] at *
  split_ifs at * <;> omega

theorem to_int_of_lt {length : Nat} (short : length < 2 ^ 31) : toInt length = length := by
  rw [toInt, Int.bmod_def]
  split_ifs <;> omega

theorem mkcopy_append (text rest : Text) : mkcopy (text ++ rest) rest = copyText text := by
  have length : ((text ++ rest).length : Int) - rest.length = text.length := by
    rw [List.length_append]
    omega
  have whole : ((text.length : Int) - ([] : Text).length) = text.length := by simp
  simp only [copyText, mkcopy, length, whole]
  by_cases inside : 0 ≤ toInt text.length ∧ toInt text.length < 2 ^ 31 - 1
  · rw [if_pos inside, if_pos inside, List.take_append_of_le_length (to_int_le inside.1)]
  · rw [if_neg inside, if_neg inside]

theorem copy_text_of_short {text : Text} (short : text.length < 2 ^ 31 - 1) :
    copyText text = .ok text := by
  have whole : ((text.length : Int) - ([] : Text).length) = text.length := by simp
  have length := to_int_of_lt (show text.length < 2 ^ 31 by omega)
  have inside : 0 ≤ toInt text.length ∧ toInt text.length < 2 ^ 31 - 1 := by
    rw [length]
    omega
  simp only [copyText, mkcopy, whole]
  rw [if_pos inside, length, Int.toNat_natCast, List.take_length]

theorem strchr_nul (set : List Byte) : strchr set 0 = true := by
  simp [strchr]

theorem ne_nul_of_not_whitespace {byte : Byte} (notBlank : strchr whitespaces byte = false) :
    byte ≠ 0 := by
  rintro rfl
  rw [strchr_nul] at notBlank
  cases notBlank

theorem deref_cons (byte : Byte) (rest : Text) : deref (byte :: rest) = byte := rfl

theorem sign_cases {byte : Byte} (isSign : strchr symbols byte = true) (notNul : byte ≠ 0) :
    byte = inputSign ∨ byte = pipeSign ∨ byte = outputSign := by
  simpa [strchr, symbols, notNul] using isSign

theorem next_cases (ptr : Text) :
    (nextToken ptr = none ∧ skipWhitespaces ptr = []) ∨
      (∃ symbol rest, skipWhitespaces ptr = symbol :: rest ∧ symbol ≠ 0 ∧
        strchr symbols symbol = true ∧
        nextToken ptr = some (.sign symbol, skipWhitespaces rest)) ∨
      ∃ symbol rest, skipWhitespaces ptr = symbol :: rest ∧ symbol ≠ 0 ∧
        strchr symbols symbol = false ∧
        nextToken ptr = some
          (.word ((symbol :: rest).takeWhile (plain (strchr whitespaces) (strchr symbols))),
            skipWhitespaces
              ((symbol :: rest).dropWhile (plain (strchr whitespaces) (strchr symbols)))) := by
  cases left : skipWhitespaces ptr with
  | nil => exact .inl ⟨next_of_blank left, rfl⟩
  | cons symbol rest =>
      have notNul := ne_nul_of_not_whitespace (head_not_of_dropWhile left)
      right
      cases isSign : strchr symbols symbol with
      | true => exact .inl ⟨symbol, rest, rfl, notNul, isSign, next_of_sign left isSign⟩
      | false => exact .inr ⟨symbol, rest, rfl, notNul, isSign, next_of_word left isSign⟩

theorem gettoken_none {ptr : Text} (none : nextToken ptr = none) :
    (gettoken ptr).tokType = .invalid ∧ lineTokens (gettoken ptr).cursor = [] := by
  rcases next_cases ptr with ⟨_, left⟩ | ⟨symbol, rest, _, _, _, found⟩ | ⟨symbol, rest, _, _, _, found⟩
  · simp only [gettoken, left]
    exact ⟨rfl, rfl⟩
  · rw [none] at found
    cases found
  · rw [none] at found
    cases found

theorem gettoken_some {ptr rest : Text} {token : Tok} (found : nextToken ptr = some (token, rest)) :
    (gettoken ptr).tokType = typeOf token ∧
      mkcopy (gettoken ptr).outStr (gettoken ptr).endOutStr = copyText token.text ∧
      (gettoken ptr).cursor = rest := by
  rcases next_cases ptr with ⟨none, _⟩ | ⟨symbol, tail, left, notNul, isSign, next⟩ |
    ⟨symbol, tail, left, notNul, notSign, next⟩
  · rw [none] at found
    cases found
  · rw [next] at found
    cases found
    have copied : mkcopy (symbol :: tail) tail = copyText [symbol] := mkcopy_append [symbol] tail
    rcases sign_cases isSign notNul with rfl | rfl | rfl
    all_goals
      simp only [gettoken, left, deref_cons]
      exact ⟨rfl, copied, rfl⟩
  · rw [next] at found
    cases found
    have others : symbol ≠ inputSign ∧ symbol ≠ pipeSign ∧ symbol ≠ outputSign := by
      refine ⟨?_, ?_, ?_⟩ <;>
        · rintro rfl
          cases notSign
    have copied := mkcopy_append
      ((symbol :: tail).takeWhile (plain (strchr whitespaces) (strchr symbols)))
      ((symbol :: tail).dropWhile (plain (strchr whitespaces) (strchr symbols)))
    rw [List.takeWhile_append_dropWhile] at copied
    simp only [gettoken, left, deref_cons, if_neg notNul, if_neg others.1, if_neg others.2.1,
      if_neg others.2.2]
    exact ⟨rfl, copied, rfl⟩

theorem tokens_none {ptr : Text} (none : nextToken ptr = none) : lineTokens ptr = [] :=
  tokens_of_next_none none

theorem tokens_some {ptr rest : Text} {token : Tok} (found : nextToken ptr = some (token, rest)) :
    lineTokens ptr = token :: lineTokens rest := tokens_of_next found

theorem skip_whitespaces_nil_iff (ptr : Text) : skipWhitespaces ptr = [] ↔ lineTokens ptr = [] := by
  rcases next_cases ptr with ⟨none, left⟩ | ⟨symbol, rest, left, _, _, found⟩ |
    ⟨symbol, rest, left, _, _, found⟩
  · simp [left, tokens_none none]
  · simp [left, tokens_some found]
  · simp [left, tokens_some found]

/-- `peek` moves past whitespace only. -/
theorem peek_none {ptr : Text} (toks : List Byte) (none : nextToken ptr = none) :
    ∃ cursor, peek ptr toks = (false, cursor) ∧ lineTokens cursor = [] ∧
      nextToken cursor = Option.none := by
  rcases next_cases ptr with ⟨_, left⟩ | ⟨symbol, rest, _, _, _, found⟩ | ⟨symbol, rest, _, _, _, found⟩
  · refine ⟨[], ?_, rfl, rfl⟩
    simp only [peek, left]
    rfl
  · rw [none] at found
    cases found
  · rw [none] at found
    cases found

/-- `peek` tells of the next token whether it is one of the given signs. -/
theorem peek_some {ptr rest : Text} {token : Tok} (found : nextToken ptr = some (token, rest)) :
    ∃ cursor, peek ptr [inputSign, outputSign] = (isRedirect token, cursor) ∧
      peek ptr [pipeSign] = (isPipe token, cursor) ∧ nextToken cursor = some (token, rest) := by
  refine ⟨skipWhitespaces ptr, ?_⟩
  have same : nextToken (skipWhitespaces ptr) = some (token, rest) := by
    rw [← found]
    exact next_skip ptr
  rcases next_cases ptr with ⟨none, _⟩ | ⟨symbol, tail, left, notNul, isSign, next⟩ |
    ⟨symbol, tail, left, notNul, notSign, next⟩
  · rw [none] at found
    cases found
  · rw [next] at found
    cases found
    rcases sign_cases isSign notNul with rfl | rfl | rfl
    all_goals
      simp only [peek, left, deref_cons] at same ⊢
      exact ⟨rfl, rfl, same⟩
  · rw [next] at found
    cases found
    have others : symbol ≠ inputSign ∧ symbol ≠ pipeSign ∧ symbol ≠ outputSign := by
      refine ⟨?_, ?_, ?_⟩ <;>
        · rintro rfl
          cases notSign
    have noSign : ∀ toks : List Byte, (∀ sign ∈ toks, symbol ≠ sign) →
        (symbol != 0 && strchr toks symbol) = false := by
      intro toks different
      have absent : symbol ∉ toks := fun member => different symbol member rfl
      simp [strchr, notNul, absent]
    simp only [peek, left, deref_cons] at same ⊢
    rw [noSign [inputSign, outputSign] (by simp [others]), noSign [pipeSign] (by simp [others])]
    exact ⟨rfl, rfl, same⟩

end Sysprog.Shell.Tokens
