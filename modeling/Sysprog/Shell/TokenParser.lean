import Sysprog.Shell.Tokens

/-!
# The parser over tokens

What the parse functions do depends on the tokens of the line only. The
parser is written once more over a list of tokens, and every parse function
is shown to be that one on the tokens of what is left of the line.
-/

namespace Sysprog.Shell.TokenParser

open CheckedRuns Scanner Commands LineParser Tokens

set_option autoImplicit false

/-- `parse_redirects` over tokens. -/
def redirects : Nat → List Tok → ParseState → Except ParseExit (Parsed (List Tok))
  | cmd, [], state => .ok ⟨cmd, [], state⟩
  | cmd, [token], state =>
      if isRedirect token then .error .noRedirectionArg else .ok ⟨cmd, [token], state⟩
  | cmd, token :: file :: rest, state =>
      if isRedirect token then do
        let text ← copyText file.text
        let (cmd, state) := commandCreateRedirect cmd text (typeOf token) state
        redirects cmd rest state
      else .ok ⟨cmd, token :: file :: rest, state⟩

/-- What is left of a stage, after the first `parse_redirects`: words are
stored and redirections wrapped around the command as they come. -/
def stage (cmde : Nat) : Nat → Nat → List Tok → ParseState →
    Except ParseExit (Nat × Parsed (List Tok))
  | argc, cmd, [], state => .ok (argc, ⟨cmd, [], state⟩)
  | argc, cmd, .word text :: rest, state => do
      let word ← copyText text
      let state ← storeArg cmde argc (.text word) state
      if argc + 1 ≥ maxargs then .error .tooManyArgs else stage cmde (argc + 1) cmd rest state
  | argc, cmd, [.sign symbol], state =>
      if isRedirect (.sign symbol) then .error .noRedirectionArg
      else .ok (argc, ⟨cmd, [.sign symbol], state⟩)
  | argc, cmd, .sign symbol :: file :: rest, state =>
      if isRedirect (.sign symbol) then do
        let text ← copyText file.text
        let (cmd, state) := commandCreateRedirect cmd text (typeOf (.sign symbol)) state
        stage cmde argc cmd rest state
      else .ok (argc, ⟨cmd, .sign symbol :: file :: rest, state⟩)

def afterRedirects (cmde argc : Nat) (parsed : Parsed (List Tok)) :
    Except ParseExit (Nat × Parsed (List Tok)) :=
  match parsed.cursor with
  | [] => .ok (argc, parsed)
  | .sign symbol :: _ =>
      if isPipe (.sign symbol) then .ok (argc, parsed) else .error .syntaxError
  | .word text :: rest => do
      let word ← copyText text
      let state ← storeArg cmde argc (.text word) parsed.state
      if argc + 1 ≥ maxargs then .error .tooManyArgs
      else stage cmde (argc + 1) parsed.cmd rest state

def exec (toks : List Tok) (state : ParseState) : Except ParseExit (Parsed (List Tok)) := do
  let (cmd, state) := commandCreateExec state
  let first ← redirects cmd toks state
  let (argc, last) ← afterRedirects first.cmd 0 first
  let state ← storeArg first.cmd argc .null last.state
  .ok ⟨last.cmd, last.cursor, state⟩

def pipeline : Nat → List Tok → ParseState → Except ParseExit (Parsed (List Tok))
  | fuel, toks, state => do
      let left ← exec toks state
      match left.cursor with
      | [] => .ok left
      | token :: rest =>
          if isPipe token then
            match fuel with
            | 0 => .error .outOfFuel
            | fuel + 1 => do
                let right ← pipeline fuel rest left.state
                let (cmd, state) := commandCreatePipe left.cmd right.cmd right.state
                .ok ⟨cmd, right.cursor, state⟩
          else .ok left

def whole (fuel : Nat) (toks : List Tok) : Except ParseExit (Nat × ParseState) := do
  let parsed ← pipeline fuel toks emptyState
  if parsed.cursor ≠ [] then .error .symbolsRemained else .ok (parsed.cmd, parsed.state)

theorem typeOf_cases (token : Tok) :
    (∃ text, token = .word text) ∨ (∃ symbol, token = .sign symbol ∧ isPipe token = true ∧
      isRedirect token = false) ∨
      ∃ symbol, token = .sign symbol ∧ isPipe token = false ∧ isRedirect token = true := by
  cases token with
  | word text => exact .inl ⟨text, rfl⟩
  | sign symbol =>
      right
      simp only [isPipe, isRedirect, typeOf]
      split_ifs
      · exact .inl ⟨symbol, rfl, rfl, rfl⟩
      · exact .inr ⟨symbol, rfl, rfl, rfl⟩
      · exact .inr ⟨symbol, rfl, rfl, rfl⟩

theorem redirects_none {token : Tok} {cmd : Nat} {rest : List Tok} {state : ParseState}
    (other : isRedirect token = false) :
    redirects cmd (token :: rest) state = .ok ⟨cmd, token :: rest, state⟩ := by
  cases rest <;> simp [redirects, other]

theorem stage_none {token : Tok} {cmde argc cmd : Nat} {rest : List Tok} {state : ParseState}
    (other : isRedirect token = false) :
    stage cmde argc cmd (token :: rest) state =
      afterRedirects cmde argc ⟨cmd, token :: rest, state⟩ := by
  rcases typeOf_cases token with ⟨text, rfl⟩ | ⟨symbol, rfl, pipe, _⟩ | ⟨symbol, rfl, _, redir⟩
  · rw [stage, afterRedirects]
  · cases rest <;> simp only [stage, other, afterRedirects, pipe] <;> rfl
  · rw [other] at redir
    cases redir

/-- A stage is its redirections up to the next word and then the rest. -/
theorem stage_eq (cmde argc cmd : Nat) (toks : List Tok) (state : ParseState) :
    stage cmde argc cmd toks state =
      (redirects cmd toks state >>= fun parsed => afterRedirects cmde argc parsed) := by
  induction cmd, toks, state using redirects.induct with
  | case1 cmd state => rw [redirects, ok_bind, stage, afterRedirects]
  | case2 cmd token state isRedir =>
      cases token with
      | word text => cases isRedir
      | sign symbol => rw [stage, redirects, if_pos isRedir, if_pos isRedir, error_bind]
  | case3 cmd token state other =>
      have notRedirect : isRedirect token = false := by simpa using other
      rw [redirects_none notRedirect, ok_bind, stage_none notRedirect]
  | case4 cmd token file rest state isRedir ih =>
      cases token with
      | word text => cases isRedir
      | sign symbol =>
          rw [stage, redirects, if_pos isRedir, if_pos isRedir]
          cases copyText file.text with
          | error halt => rw [error_bind, error_bind, error_bind]
          | ok text =>
              rw [ok_bind, ok_bind]
              exact ih _ _
  | case5 cmd token file rest state other =>
      have notRedirect : isRedirect token = false := by simpa using other
      rw [redirects_none notRedirect, ok_bind, stage_none notRedirect]

theorem redirects_shorter {cmd : Nat} {toks : List Tok} {state : ParseState}
    {parsed : Parsed (List Tok)} (done : redirects cmd toks state = .ok parsed) :
    parsed.cursor.length ≤ toks.length := by
  induction cmd, toks, state using redirects.induct with
  | case1 cmd state =>
      cases done
      exact Nat.le_refl _
  | case2 cmd token state isRedir =>
      rw [redirects, if_pos isRedir] at done
      cases done
  | case3 cmd token state other =>
      rw [redirects, if_neg other] at done
      cases done
      exact Nat.le_refl _
  | case4 cmd token file rest state isRedir ih =>
      rw [redirects, if_pos isRedir, bind_eq_ok] at done
      obtain ⟨text, _, done⟩ := done
      have shorter := ih _ _ done
      simp only [List.length_cons]
      omega
  | case5 cmd token file rest state other =>
      rw [redirects, if_neg other] at done
      cases done
      exact Nat.le_refl _

/-! ## The parse functions on the tokens of a line -/

def onTokens (parsed : Parsed Text) : Parsed (List Tok) :=
  ⟨parsed.cmd, lineTokens parsed.cursor, parsed.state⟩

theorem typeOf_ne_invalid (token : Tok) : typeOf token ≠ .invalid := by
  cases token with
  | word text => simp [typeOf]
  | sign symbol =>
      simp only [typeOf]
      split_ifs <;> simp

theorem is_redirect_iff (token : Tok) :
    isRedirect token = true ↔ typeOf token = .input ∨ typeOf token = .output := by
  simp [isRedirect]

theorem redirects_loop_stop {fuel cmd : Nat} {ptr cursor : Text} {state : ParseState}
    (looked : peek ptr [inputSign, outputSign] = (false, cursor)) :
    redirectsLoop fuel cmd ptr state = .ok ⟨cmd, cursor, state⟩ := by
  cases fuel
  all_goals
    rw [redirectsLoop, looked]
    exact if_neg Bool.false_ne_true

theorem redirects_loop_eq {fuel cmd : Nat} {ptr : Text} {state : ParseState}
    (enough : (lineTokens ptr).length ≤ fuel) :
    (redirectsLoop fuel cmd ptr state).map onTokens = redirects cmd (lineTokens ptr) state := by
  induction fuel generalizing cmd ptr state with
  | zero =>
      cases found : nextToken ptr with
      | none =>
          obtain ⟨cursor, looked, left, _⟩ := peek_none [inputSign, outputSign] found
          rw [redirects_loop_stop looked, tokens_none found, redirects]
          simp only [Except.map, onTokens, left]
      | some pair =>
          rcases pair with ⟨token, rest⟩
          rw [tokens_some found, List.length_cons] at enough
          omega
  | succ fuel ih =>
      cases found : nextToken ptr with
      | none =>
          obtain ⟨cursor, looked, left, _⟩ := peek_none [inputSign, outputSign] found
          rw [redirects_loop_stop looked, tokens_none found, redirects]
          simp only [Except.map, onTokens, left]
      | some pair =>
          rcases pair with ⟨token, rest⟩
          obtain ⟨cursor, looked, _, same⟩ := peek_some found
          have line := tokens_some found
          rw [line, List.length_cons] at enough
          rw [line]
          cases isRedir : isRedirect token with
          | false =>
              rw [isRedir] at looked
              rw [redirects_loop_stop looked, redirects_none isRedir]
              simp only [Except.map, onTokens, tokens_some same]
          | true =>
              obtain ⟨firstType, _, firstRest⟩ := gettoken_some same
              rw [redirectsLoop, looked, isRedir]
              simp only [if_true, firstRest]
              cases foundFile : nextToken rest with
              | none =>
                  rw [tokens_none foundFile, redirects, if_pos isRedir,
                    if_pos (gettoken_none foundFile).1]
                  rfl
              | some pair =>
                  rcases pair with ⟨file, after⟩
                  obtain ⟨fileType, copied, fileRest⟩ := gettoken_some foundFile
                  have valid : (gettoken rest).tokType ≠ .invalid := by
                    rw [fileType]
                    exact typeOf_ne_invalid file
                  have fewer := tokens_some foundFile
                  rw [fewer, List.length_cons] at enough
                  rw [fewer, redirects, if_pos isRedir, if_neg valid, firstType, copied, fileRest]
                  rcases (is_redirect_iff token).mp isRedir with type | type
                  all_goals
                    simp only [type]
                    rw [map_bound]
                    cases copyText file.text with
                    | error halt => rfl
                    | ok text => exact ih (by omega)

theorem parse_redirects_eq (cmd : Nat) (ptr : Text) (state : ParseState) :
    (parseRedirects cmd ptr state).map onTokens = redirects cmd (lineTokens ptr) state :=
  redirects_loop_eq (length_tokens_le ptr)

theorem exec_loop_end {fuel cmde argc cmd : Nat} {ptr : Text} {state : ParseState}
    (none : nextToken ptr = none) :
    (execLoop fuel cmde argc cmd ptr state).map (fun ended => (ended.1, onTokens ended.2)) =
      afterRedirects cmde argc ⟨cmd, lineTokens ptr, state⟩ := by
  obtain ⟨cursor, looked, _, same⟩ := peek_none [pipeSign] none
  obtain ⟨invalid, left⟩ := gettoken_none same
  rw [tokens_none none, afterRedirects]
  cases fuel
  all_goals
    rw [execLoop, looked]
    simp only [Bool.false_eq_true, if_false, if_pos invalid, Except.map, onTokens, left]

theorem exec_loop_eq {fuel cmde argc cmd : Nat} {ptr : Text} {state : ParseState}
    (enough : (lineTokens ptr).length ≤ fuel) :
    (execLoop fuel cmde argc cmd ptr state).map (fun ended => (ended.1, onTokens ended.2)) =
      afterRedirects cmde argc ⟨cmd, lineTokens ptr, state⟩ := by
  induction fuel generalizing argc cmd ptr state with
  | zero =>
      cases found : nextToken ptr with
      | none => exact exec_loop_end found
      | some pair =>
          rcases pair with ⟨token, rest⟩
          rw [tokens_some found, List.length_cons] at enough
          omega
  | succ fuel ih =>
      cases found : nextToken ptr with
      | none => exact exec_loop_end found
      | some pair =>
          rcases pair with ⟨token, rest⟩
          obtain ⟨cursor, _, looked, same⟩ := peek_some found
          obtain ⟨type, copied, after⟩ := gettoken_some same
          have line := tokens_some found
          rw [line, List.length_cons] at enough
          rw [execLoop, looked, line]
          rcases typeOf_cases token with ⟨text, rfl⟩ | ⟨symbol, rfl, pipe, _⟩ |
            ⟨symbol, rfl, pipe, redir⟩
          · have valid : (gettoken cursor).tokType ≠ .invalid := by simp [type, typeOf]
            have letter : ¬ (gettoken cursor).tokType ≠ .letter := by simp [type, typeOf]
            have notPipe : ¬ isPipe (.word text) = true := by simp [isPipe, typeOf]
            have copied : mkcopy (gettoken cursor).outStr (gettoken cursor).endOutStr =
                copyText text := copied
            simp only [if_neg notPipe, if_neg valid, if_neg letter, copied, after, afterRedirects]
            cases copyText text with
            | error halt => rw [error_bind, error_bind, Except.map]
            | ok word =>
                rw [ok_bind, ok_bind]
                cases storeArg cmde argc (.text word) state with
                | error halt => rw [error_bind, error_bind, Except.map]
                | ok stored =>
                    rw [ok_bind, ok_bind]
                    by_cases many : argc + 1 ≥ maxargs
                    · rw [if_pos many, if_pos many, Except.map]
                    · have redirected := parse_redirects_eq cmd rest stored
                      rw [if_neg many, if_neg many, stage_eq, ← redirected, map_bound]
                      cases done : parseRedirects cmd rest stored with
                      | error halt => rw [error_bind, Except.map, error_bind]
                      | ok parsed =>
                          rw [done] at redirected
                          have shorter := redirects_shorter redirected.symm
                          rw [ok_bind, Except.map, ok_bind]
                          apply ih
                          exact Nat.le_trans shorter (by omega)
          · simp only [if_pos pipe, Except.map, afterRedirects, onTokens, tokens_some same]
          · have invalid : (gettoken cursor).tokType ≠ .invalid := by
              rw [type]
              exact typeOf_ne_invalid _
            have notLetter : (gettoken cursor).tokType ≠ .letter := by
              rw [type]
              rcases (is_redirect_iff _).mp redir with type | type <;> rw [type] <;> decide
            have notPipe : ¬ isPipe (.sign symbol) = true := by simp [pipe]
            simp only [if_neg notPipe, if_neg invalid, if_pos notLetter, afterRedirects]
            rfl

theorem parse_exec_eq (ptr : Text) (state : ParseState) :
    (parseExec ptr state).map onTokens = exec (lineTokens ptr) state := by
  simp only [parseExec, exec]
  rcases created : commandCreateExec state with ⟨cmd, begun⟩
  simp only
  have redirected := parse_redirects_eq cmd ptr begun
  rw [← redirected, map_bound]
  cases parseRedirects cmd ptr begun with
  | error halt => rw [error_bind, Except.map, error_bind]
  | ok first =>
      rw [ok_bind, Except.map, ok_bind, map_bound]
      have looped := @exec_loop_eq first.cursor.length first.cmd 0 first.cmd first.cursor
        first.state (length_tokens_le _)
      have entry : onTokens first = ⟨first.cmd, lineTokens first.cursor, first.state⟩ := rfl
      rw [entry, ← looped]
      cases execLoop first.cursor.length first.cmd 0 first.cmd first.cursor first.state with
      | error halt => rw [error_bind, Except.map, error_bind]
      | ok ended =>
          rcases ended with ⟨argc, last⟩
          rw [ok_bind, Except.map, ok_bind, map_bound]
          rfl

theorem pipeline_done {fuel : Nat} {toks : List Tok} {state : ParseState}
    {left : Parsed (List Tok)} (parsed : exec toks state = .ok left)
    (last : ∀ token ∈ left.cursor.head?, isPipe token = false) :
    pipeline fuel toks state = .ok left := by
  cases fuel
  all_goals
    rw [pipeline, parsed, ok_bind]
    cases cursor : left.cursor with
    | nil => rfl
    | cons token rest =>
        have notPipe := last token (by simp [cursor])
        simp only [notPipe]
        rfl

theorem parse_pipe_fault {fuel : Nat} {ptr : Text} {state : ParseState} {halt : ParseExit}
    (failed : parseExec ptr state = .error halt) :
    (parsePipe fuel ptr state).map onTokens = pipeline fuel (lineTokens ptr) state := by
  have executed := parse_exec_eq ptr state
  rw [failed, Except.map] at executed
  cases fuel
  all_goals rw [parsePipe, pipeline, failed, ← executed, error_bind, error_bind, Except.map]

theorem parse_pipe_last {fuel : Nat} {ptr cursor : Text} {state : ParseState}
    {left : Parsed Text} (parsed : parseExec ptr state = .ok left)
    (looked : peek left.cursor [pipeSign] = (false, cursor))
    (same : lineTokens cursor = lineTokens left.cursor)
    (last : ∀ token ∈ (lineTokens left.cursor).head?, isPipe token = false) :
    (parsePipe fuel ptr state).map onTokens = pipeline fuel (lineTokens ptr) state := by
  have executed := parse_exec_eq ptr state
  rw [parsed, Except.map] at executed
  have ended : parsePipe fuel ptr state = .ok ⟨left.cmd, cursor, left.state⟩ := by
    cases fuel
    all_goals
      rw [parsePipe, parsed, ok_bind, looked]
      exact if_neg Bool.false_ne_true
  rw [ended, pipeline_done executed.symm last]
  simp only [Except.map, onTokens, same]

theorem stage_cases (ptr : Text) (state : ParseState) :
    (∃ halt, parseExec ptr state = .error halt) ∨
      (∃ left cursor, parseExec ptr state = .ok left ∧
        peek left.cursor [pipeSign] = (false, cursor) ∧
        lineTokens cursor = lineTokens left.cursor ∧
        ∀ token ∈ (lineTokens left.cursor).head?, isPipe token = false) ∨
      ∃ left cursor token rest, parseExec ptr state = .ok left ∧
        peek left.cursor [pipeSign] = (true, cursor) ∧ (gettoken cursor).cursor = rest ∧
        lineTokens left.cursor = token :: lineTokens rest ∧ isPipe token = true := by
  cases parsed : parseExec ptr state with
  | error halt => exact .inl ⟨halt, rfl⟩
  | ok left =>
      right
      cases found : nextToken left.cursor with
      | none =>
          obtain ⟨cursor, looked, nothing, _⟩ := peek_none [pipeSign] found
          have line := tokens_none found
          exact .inl ⟨left, cursor, rfl, looked, by rw [nothing, line], by simp [line]⟩
      | some pair =>
          rcases pair with ⟨token, rest⟩
          obtain ⟨cursor, _, looked, same⟩ := peek_some found
          have line := tokens_some found
          have after := (gettoken_some same).2.2
          cases pipe : isPipe token with
          | false =>
              rw [pipe] at looked
              exact .inl ⟨left, cursor, rfl, looked, by rw [tokens_some same, line],
                by simp [line, pipe]⟩
          | true =>
              rw [pipe] at looked
              exact .inr ⟨left, cursor, token, rest, rfl, looked, after, line, pipe⟩

theorem parse_pipe_eq (fuel : Nat) (ptr : Text) (state : ParseState) :
    (parsePipe fuel ptr state).map onTokens = pipeline fuel (lineTokens ptr) state := by
  induction fuel generalizing ptr state with
  | zero =>
      rcases stage_cases ptr state with ⟨halt, failed⟩ | ⟨left, cursor, parsed, looked, same, last⟩ |
        ⟨left, cursor, token, rest, parsed, looked, after, line, pipe⟩
      · exact parse_pipe_fault failed
      · exact parse_pipe_last parsed looked same last
      · have executed := parse_exec_eq ptr state
        rw [parsed, Except.map] at executed
        rw [parsePipe, pipeline, parsed, ← executed, ok_bind, ok_bind, looked]
        simp only [onTokens, line, pipe, if_true, Except.map]
  | succ fuel ih =>
      rcases stage_cases ptr state with ⟨halt, failed⟩ | ⟨left, cursor, parsed, looked, same, last⟩ |
        ⟨left, cursor, token, rest, parsed, looked, after, line, pipe⟩
      · exact parse_pipe_fault failed
      · exact parse_pipe_last parsed looked same last
      · have executed := parse_exec_eq ptr state
        rw [parsed, Except.map] at executed
        rw [parsePipe, pipeline, parsed, ← executed, ok_bind, ok_bind, looked]
        simp only [onTokens, line, pipe, if_true, after]
        rw [← ih, map_bound]
        cases parsePipe fuel rest left.state with
        | error halt => rw [error_bind, Except.map, error_bind]
        | ok right => rfl

/-- The parser of a line is the parser over its tokens. -/
theorem parse_command_eq (str : Text) :
    parseCommand str = whole (cString str).length (lineTokens (cString str)) := by
  rw [parseCommand, whole, parseLine, ← parse_pipe_eq]
  cases parsePipe (cString str).length (cString str) emptyState with
  | error halt => rw [error_bind, Except.map, error_bind]
  | ok parsed =>
      have remains := skip_whitespaces_nil_iff parsed.cursor
      rw [ok_bind, Except.map, ok_bind]
      rcases looked : peek parsed.cursor [] with ⟨found, rest⟩
      have moved : rest = skipWhitespaces parsed.cursor := (congrArg Prod.snd looked).symm
      simp only
      by_cases nothing : lineTokens parsed.cursor = []
      · have empty := remains.mpr nothing
        rw [moved, onTokens, nothing, empty, if_neg (not_not.mpr rfl), if_neg (not_not.mpr rfl)]
      · have more : rest ≠ [] := by
          rw [moved]
          exact fun empty => nothing (remains.mp empty)
        rw [if_pos more, onTokens, if_pos nothing]

end Sysprog.Shell.TokenParser
