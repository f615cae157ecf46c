import Sysprog.Shell.TokenSpans
import Sysprog.Shell.Readings

/-!
# Lines with the same tokens

The calls of `gettoken` on a line determine its token list, the token list
determines what the parser does, and `peek` moves past nothing that a token
begins with. So lines with the same tokens are parsed alike.
-/

namespace Sysprog.Shell.TokenOutcomes

open CheckedRuns Scanner Commands LineParser Tokens TokenParser TokenSpans Readings

set_option autoImplicit false

def yieldOf (gotten : Gotten) : TokenType × Option Text :=
  (gotten.tokType, if gotten.tokType = .letter then some (spanText gotten) else none)

/-- Repeated calls of `gettoken` give the same tokens on both lines. -/
def SameTokens (line other : Text) : Prop :=
  ∃ gotten last others otherLast, Called (cString line) gotten last ∧
    Called (cString other) others otherLast ∧ gotten.map yieldOf = others.map yieldOf

def tokenOf : TokenType × Option Text → Tok
  | (.letter, some text) => .word text
  | (kind, _) => .sign ((signOf kind).getD 0)

theorem token_of_call {ptr rest : Text} {token : Tok} (found : nextToken ptr = some (token, rest)) :
    tokenOf (yieldOf (gettoken ptr)) = token := by
  rcases next_cases ptr with ⟨none, _⟩ | ⟨symbol, tail, left, notNul, isSign, next⟩ |
    ⟨symbol, tail, left, notNul, notSign, next⟩
  · rw [none] at found
    cases found
  · rw [next] at found
    cases found
    obtain ⟨kind, sign, gotten⟩ := gettoken_sign left notNul isSign
    rw [gotten]
    cases kind <;> cases sign <;> rfl
  · rw [next] at found
    cases found
    rw [gettoken_word left notNul notSign]
    have whole := @List.takeWhile_append_dropWhile _
      (plain (strchr whitespaces) (strchr symbols)) (symbol :: tail)
    generalize (symbol :: tail).takeWhile (plain (strchr whitespaces) (strchr symbols)) = word at *
    generalize (symbol :: tail).dropWhile (plain (strchr whitespaces) (strchr symbols)) = after at *
    rw [← whole, yieldOf, if_pos rfl, spanText]
    simp only [List.length_append, Nat.add_sub_cancel, List.take_left]
    rfl

theorem tokens_of_called {ptr : Text} {gotten : List Gotten} {last : Gotten}
    (called : Called ptr gotten last) : lineTokens ptr = (gotten.map yieldOf).map tokenOf := by
  induction called with
  | @ended ptr invalid =>
      cases found : nextToken ptr with
      | none => exact tokens_none found
      | some pair =>
          rw [(gettoken_some found).1] at invalid
          exact absurd invalid (typeOf_ne_invalid pair.1)
  | @more ptr gotten last isToken rest ih =>
      cases found : nextToken ptr with
      | none => exact absurd (gettoken_none found).1 isToken
      | some pair =>
          rcases pair with ⟨token, after⟩
          rw [(gettoken_some found).2.2] at ih
          rw [tokens_some found, List.map_cons, List.map_cons, token_of_call found, ih]

/-! ## The fuel of the pipeline -/

theorem stage_shorter {cmde argc cmd : Nat} {toks : List Tok} {state : ParseState}
    {ended : Nat × Parsed (List Tok)} (done : stage cmde argc cmd toks state = .ok ended) :
    ended.2.cursor.length ≤ toks.length := by
  induction argc, cmd, toks, state using stage.induct with
  | case1 argc cmd state =>
      cases done
      exact Nat.le_refl _
  | case2 argc cmd text rest state ih =>
      rw [stage, bind_eq_ok] at done
      obtain ⟨word, _, done⟩ := done
      obtain ⟨next, _, done⟩ := bind_eq_ok.mp done
      split_ifs at done
      exact Nat.le_succ_of_le (ih next done)
  | case3 argc cmd symbol state isRedir =>
      rw [stage, if_pos isRedir] at done
      cases done
  | case4 argc cmd symbol state other =>
      rw [stage, if_neg other] at done
      cases done
      exact Nat.le_refl _
  | case5 argc cmd symbol file rest state isRedir ih =>
      rw [stage, if_pos isRedir, bind_eq_ok] at done
      obtain ⟨text, _, done⟩ := done
      exact Nat.le_succ_of_le (Nat.le_succ_of_le (ih _ _ done))
  | case6 argc cmd symbol file rest state other =>
      rw [stage, if_neg other] at done
      cases done
      exact Nat.le_refl _

theorem after_redirects_shorter {cmde argc : Nat} {first : Parsed (List Tok)}
    {ended : Nat × Parsed (List Tok)} (done : afterRedirects cmde argc first = .ok ended) :
    ended.2.cursor.length ≤ first.cursor.length := by
  rcases first with ⟨cmd, toks, state⟩
  cases toks with
  | nil =>
      cases done
      exact Nat.le_refl _
  | cons token rest =>
      cases token with
      | sign symbol =>
          simp only [afterRedirects] at done
          split_ifs at done
          cases done
          exact Nat.le_refl _
      | word text =>
          simp only [afterRedirects, bind_eq_ok] at done
          obtain ⟨word, _, next, _, done⟩ := done
          split_ifs at done
          exact Nat.le_succ_of_le (stage_shorter done)

theorem exec_shorter {toks : List Tok} {state : ParseState} {left : Parsed (List Tok)}
    (done : exec toks state = .ok left) : left.cursor.length ≤ toks.length := by
  simp only [exec, bind_eq_ok] at done
  obtain ⟨first, redirected, ended, looped, next, _, done⟩ := done
  cases done
  exact Nat.le_trans (after_redirects_shorter looped) (redirects_shorter redirected)

/-- The recursion of `parse_pipe` stops before as many rounds as there are
tokens. -/
theorem pipeline_fuel {fuel other : Nat} {toks : List Tok} {state : ParseState}
    (enough : toks.length ≤ fuel) (otherEnough : toks.length ≤ other) :
    pipeline fuel toks state = pipeline other toks state := by
  induction fuel generalizing other toks state with
  | zero =>
      have empty : toks = [] := List.length_eq_zero_iff.mp (Nat.le_zero.mp enough)
      subst empty
      cases executed : exec [] state with
      | error halt => rw [pipeline_fault executed, pipeline_fault executed]
      | ok left =>
          have nothing : left.cursor = [] := List.length_eq_zero_iff.mp
            (Nat.le_zero.mp (exec_shorter executed))
          have last : ∀ token ∈ left.cursor.head?, isPipe token = false := by
            rw [nothing]
            exact nofun
          rw [pipeline_done executed last, pipeline_done executed last]
  | succ fuel ih =>
      cases executed : exec toks state with
      | error halt => rw [pipeline_fault executed, pipeline_fault executed]
      | ok left =>
          by_cases last : ∀ token ∈ left.cursor.head?, isPipe token = false
          · rw [pipeline_done executed last, pipeline_done executed last]
          · have shorter := exec_shorter executed
            cases cursor : left.cursor with
            | nil =>
                rw [cursor] at last
                exact absurd nofun last
            | cons token rest =>
                rw [cursor, List.length_cons] at shorter
                obtain ⟨fewer, rfl⟩ : ∃ fewer, other = fewer + 1 := ⟨other - 1, by omega⟩
                have same : ∀ state, pipeline fuel rest state = pipeline fewer rest state :=
                  fun state => ih (by omega) (by omega)
                rw [pipeline, pipeline, executed, ok_bind, ok_bind, cursor]
                simp only [same]

/-- Lines with the same tokens give the same tree or the same exit, and no
`peek` changes what the next call of `gettoken` sees. -/
theorem parsed_alike_of_same_tokens {line other : Text} (same : SameTokens line other) :
    parseCommand line = parseCommand other ∧
      ∀ ptr toks, gettoken (peek ptr toks).2 = gettoken ptr := by
  obtain ⟨gotten, last, others, otherLast, called, otherCalled, yields⟩ := same
  have sameTokens : lineTokens (cString line) = lineTokens (cString other) := by
    rw [tokens_of_called called, tokens_of_called otherCalled, yields]
  constructor
  · have enough := @length_tokens_le _ (strchr whitespaces) (strchr symbols) (cString line)
    have otherEnough := @length_tokens_le _ (strchr whitespaces) (strchr symbols) (cString other)
    change (lineTokens (cString line)).length ≤ _ at enough
    change (lineTokens (cString other)).length ≤ _ at otherEnough
    rw [← sameTokens] at otherEnough
    rw [parse_command_eq, parse_command_eq, ← sameTokens, whole, whole,
      pipeline_fuel enough otherEnough]
  · intro ptr toks
    have skipped : skipWhitespaces (skipWhitespaces ptr) = skipWhitespaces ptr :=
      List.dropWhile_idempotent (strchr whitespaces) ptr
    simp only [peek, gettoken, skipped]

/-- ` a| b` and `a|b ` both give the pipe of `a` and `b`. -/
theorem spaced_lines_alike : ∃ cmd state,
    parseCommand [32, 97, 124, 32, 98] = .ok (cmd, state) ∧
      parseCommand [97, 124, 98, 32] = .ok (cmd, state) ∧
      Represents state.nodes cmd (.pipe (.exec [[97]]) (.exec [[98]])) := by
  have first : Called (cString [32, 97, 124, 32, 98]) _ _ :=
    .more (by decide) (.more (by decide) (.more (by decide) (.ended rfl)))
  have second : Called (cString [97, 124, 98, 32]) _ _ :=
    .more (by decide) (.more (by decide) (.more (by decide) (.ended rfl)))
  have alike := (parsed_alike_of_same_tokens ⟨_, _, _, _, first, second, rfl⟩).1
  have tree : (parseCommand [32, 97, 124, 32, 98]).map (fun parsed => (parsed.1, parsed.2.nodes)) =
      .ok (2, [.exec (argvOf [[97]]), .exec (argvOf [[98]]), .pipe (.node 0) (.node 1)]) := by
    decide +kernel
  cases done : parseCommand [32, 97, 124, 32, 98] with
  | error halt =>
      rw [done] at tree
      cases tree
  | ok parsed =>
      rcases parsed with ⟨cmd, state⟩
      rw [done] at tree
      obtain ⟨rfl, nodes⟩ := Prod.mk.inj (Except.ok.inj tree)
      refine ⟨2, state, rfl, alike.symm.trans done, ?_⟩
      dsimp only at nodes
      rw [nodes]
      exact .pipe rfl (.exec rfl (by decide)) (.exec rfl (by decide))

end Sysprog.Shell.TokenOutcomes
