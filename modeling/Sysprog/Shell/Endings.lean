import Sysprog.Shell.Readings

/-!
# How a line ends the parser

The parser returns or prints one of two messages on every line whose stages
fit: `mkcopy` can count their texts, and a stage that begins with a
redirection stores no more pointers than that struct has room for.
-/

namespace Sysprog.Shell.Endings

open CheckedRuns Scanner Commands LineParser Tokens TokenParser Pipelines Readings

set_option autoImplicit false

/-! ## What a stage asks of the parser -/

def Copyable (text : Text) : Prop := text.length % 2 ^ 32 < 2 ^ 31 - 1

instance (text : Text) : Decidable (Copyable text) := by
  unfold Copyable
  infer_instance

def isWord : Part → Bool
  | .word _ => true
  | _ => false

def wordCount (stage : List Part) : Nat := stage.countP isWord

@[simp] theorem word_count_word (text : Text) (stage : List Part) :
    wordCount (.word text :: stage) = wordCount stage + 1 := List.countP_cons_of_pos rfl

@[simp] theorem word_count_redirect (symbol : Byte) (file : Tok) (stage : List Part) :
    wordCount (.redirect symbol file :: stage) = wordCount stage :=
  List.countP_cons_of_neg Bool.false_ne_true

def copiedTexts : Nat → List Part → List Text
  | 0, _ => []
  | _ + 1, [] => []
  | _ + 1, .bare _ :: _ => []
  | count + 1, .redirect _ file :: rest => file.text :: copiedTexts (count + 1) rest
  | count + 1, .word text :: rest => text :: copiedTexts count rest

/-- The pointers stored to `argv`: the words, and the NULL if it comes to it. -/
def argvStores : List Part → Nat
  | [] => 1
  | .bare _ :: _ => 0
  | .redirect _ _ :: rest => argvStores rest
  | .word _ :: rest => argvStores rest + 1

/-- Every text that is copied has a length for `mkcopy`, and a stage that
begins with a redirection has no more pointers than that struct has room. -/
def StageFits (stage : List Part) : Prop :=
  (∀ text ∈ copiedTexts maxargs stage, Copyable text) ∧
    (argvRoom stage = 3 → argvStores stage ≤ 3)

def Complete (stage : List Part) : Prop :=
  (∀ symbol, .bare symbol ∉ stage) ∧ wordCount stage < maxargs

def Fits : List (List Part) → Prop
  | [] => True
  | stage :: rest => StageFits stage ∧ (Complete stage → Fits rest)

def Intended (outcome : Except ParseExit Unit) : Prop :=
  outcome = .ok () ∨ outcome = .error .noRedirectionArg ∨ outcome = .error .tooManyArgs

theorem to_int_mod (length : Nat) :
    (0 ≤ toInt length ∧ toInt length < 2 ^ 31 - 1) ↔ length % 2 ^ 32 < 2 ^ 31 - 1 := by
  rw [toInt, Int.bmod_def]
  split_ifs <;> omega

theorem copy_cases (text : Text) :
    (Copyable text ∧ ∃ copy, copyText text = .ok copy) ∨
      (¬ Copyable text ∧ copyText text = .error .badCopy) := by
  have whole : ((text.length : Int) - ([] : Text).length) = text.length := by simp
  by_cases copyable : Copyable text
  · refine .inl ⟨copyable, text.take (toInt text.length).toNat, ?_⟩
    simp only [copyText, mkcopy, whole]
    rw [if_pos ((to_int_mod text.length).mpr copyable)]
  · refine .inr ⟨copyable, ?_⟩
    simp only [copyText, mkcopy, whole]
    rw [if_neg fun inside => copyable ((to_int_mod text.length).mp inside)]

theorem not_intended_of_bad_copy : ¬ Intended (.error .badCopy) := by
  intro intended
  rcases intended with ended | ended | ended
  all_goals cases ended

theorem not_intended_out_of_range : ¬ Intended (.error .outOfRange) := by
  intro intended
  rcases intended with ended | ended | ended
  all_goals cases ended

/-- A stage ends in an intended way exactly when its texts can be copied and
the stores stay inside a struct with less room than `argv`. -/
theorem run_stage_intended {room argc : Nat} {stage : List Part} (inside : argc ≤ room)
    (room_le : room ≤ maxargs) (argc_lt : argc < maxargs) :
    Intended (runStage room argc stage) ↔
      (∀ text ∈ copiedTexts (maxargs - argc) stage, Copyable text) ∧
        (room < maxargs → argc + argvStores stage ≤ room) := by
  obtain ⟨count, left⟩ : ∃ count, maxargs - argc = count + 1 := ⟨maxargs - argc - 1, by omega⟩
  induction stage generalizing argc count with
  | nil =>
      rw [runStage, left, copiedTexts, argvStores]
      by_cases more : argc < room
      · rw [if_pos more]
        simp only [Intended, true_or, true_iff]
        exact ⟨by simp, fun _ => more⟩
      · rw [if_neg more]
        apply iff_of_false not_intended_out_of_range
        intro fits
        have stores := fits.2 (by omega)
        omega
  | cons part rest ih =>
      cases part with
      | bare symbol =>
          rw [runStage, left, copiedTexts, argvStores]
          simp only [Intended, true_or, or_true, true_iff]
          exact ⟨by simp, fun _ => inside⟩
      | redirect symbol file =>
          rw [runStage, left, copiedTexts, argvStores]
          rcases copy_cases file.text with ⟨copyable, copy, copied⟩ | ⟨notCopyable, failed⟩
          · rw [copied, ok_bind, ih inside argc_lt count left, left]
            simp only [List.mem_cons, forall_eq_or_imp, copyable, true_and]
          · rw [failed, error_bind]
            apply iff_of_false not_intended_of_bad_copy
            intro fits
            exact absurd (fits.1 _ List.mem_cons_self) notCopyable
      | word text =>
          rw [runStage, left, copiedTexts, argvStores]
          rcases copy_cases text with ⟨copyable, copy, copied⟩ | ⟨notCopyable, failed⟩
          · rw [copied, ok_bind]
            simp only [List.mem_cons, forall_eq_or_imp, copyable, true_and]
            by_cases more : argc < room
            · rw [if_pos more]
              by_cases many : argc + 1 ≥ maxargs
              · have none : count = 0 := by omega
                rw [if_pos many, none, copiedTexts]
                simp only [Intended, or_true, true_iff]
                exact ⟨by simp, fun less => by omega⟩
              · obtain ⟨fewer, left'⟩ : ∃ fewer, maxargs - (argc + 1) = fewer + 1 :=
                  ⟨maxargs - (argc + 1) - 1, by omega⟩
                have same : count = maxargs - (argc + 1) := by omega
                rw [if_neg many, ih (by omega) (by omega) fewer left', same]
                have sum : argc + 1 + argvStores rest = argc + (argvStores rest + 1) := by omega
                rw [sum]
            · rw [if_neg more]
              apply iff_of_false not_intended_out_of_range
              intro fits
              have stores := fits.2 (by omega)
              omega
          · rw [failed, error_bind]
            apply iff_of_false not_intended_of_bad_copy
            intro fits
            exact absurd (fits.1 _ List.mem_cons_self) notCopyable

theorem stage_fits_iff (stage : List Part) : Intended (stageVerdict stage) ↔ StageFits stage := by
  have room : argvRoom stage ≤ maxargs := by
    rcases argv_room_cases stage with three | whole
    · rw [three]
      decide
    · rw [whole]
  rw [stageVerdict, run_stage_intended (Nat.zero_le _) room (by decide), StageFits]
  rcases argv_room_cases stage with three | whole
  · simp only [three, Nat.zero_add, Nat.sub_zero]
    simp [maxargs]
  · rw [whole]
    simp [maxargs]

theorem run_stage_ok {room argc : Nat} {stage : List Part}
    (intended : Intended (runStage room argc stage)) (argc_lt : argc < maxargs) :
    runStage room argc stage = .ok () ↔
      (∀ symbol, .bare symbol ∉ stage) ∧ argc + wordCount stage < maxargs := by
  induction stage generalizing argc with
  | nil =>
      rw [runStage] at intended ⊢
      by_cases inside : argc < room
      · rw [if_pos inside]
        simpa [wordCount] using argc_lt
      · rw [if_neg inside] at intended
        exact absurd intended not_intended_out_of_range
  | cons part rest ih =>
      cases part with
      | bare symbol =>
          rw [runStage]
          constructor
          · intro ended
            cases ended
          · intro complete
            exact absurd List.mem_cons_self (complete.1 symbol)
      | redirect symbol file =>
          rw [runStage] at intended ⊢
          rcases copy_cases file.text with ⟨_, copy, copied⟩ | ⟨_, failed⟩
          · rw [copied, ok_bind] at intended ⊢
            simp [ih intended argc_lt]
          · rw [failed, error_bind] at intended
            exact absurd intended not_intended_of_bad_copy
      | word text =>
          rw [runStage] at intended ⊢
          rcases copy_cases text with ⟨_, copy, copied⟩ | ⟨_, failed⟩
          · rw [copied, ok_bind] at intended ⊢
            by_cases inside : argc < room
            · rw [if_pos inside] at intended ⊢
              by_cases many : argc + 1 ≥ maxargs
              · rw [if_pos many]
                constructor
                · intro ended
                  cases ended
                · intro complete
                  have fewer := complete.2
                  rw [word_count_word] at fewer
                  omega
              · rw [if_neg many] at intended ⊢
                have sum : argc + 1 + wordCount rest = argc + (wordCount rest + 1) := by omega
                simp [ih intended (by omega), sum]
            · rw [if_neg inside] at intended
              exact absurd intended not_intended_out_of_range
          · rw [failed, error_bind] at intended
            exact absurd intended not_intended_of_bad_copy

theorem stage_complete_iff {stage : List Part} (fits : StageFits stage) :
    stageVerdict stage = .ok () ↔ Complete stage := by
  have complete := run_stage_ok ((stage_fits_iff stage).mpr fits) (by decide)
  rw [Nat.zero_add] at complete
  exact complete

/-! ## What a line asks of the parser -/

theorem fits_iff (stages : List (List Part)) : Intended (verdict stages) ↔ Fits stages := by
  induction stages with
  | nil =>
      simp only [verdict, Fits, iff_true]
      exact .inl rfl
  | cons stage rest ih =>
      rw [verdict, Fits, ← ih]
      constructor
      · intro intended
        cases first : stageVerdict stage with
        | error halt =>
            rw [first, error_bind] at intended
            have stageIntended : Intended (stageVerdict stage) := by
              rcases intended with ended | ended | ended
              · cases ended
              · cases ended
                exact .inr (.inl first)
              · cases ended
                exact .inr (.inr first)
            have fits := (stage_fits_iff stage).mp stageIntended
            refine ⟨fits, fun complete => ?_⟩
            have accepted := (stage_complete_iff fits).mpr complete
            rw [first] at accepted
            cases accepted
        | ok done =>
            rw [first, ok_bind] at intended
            have fits := (stage_fits_iff stage).mp (.inl first)
            exact ⟨fits, fun _ => intended⟩
      · intro fitting
        have fits := fitting.1
        by_cases complete : Complete stage
        · rw [(stage_complete_iff fits).mpr complete, ok_bind]
          exact fitting.2 complete
        · rcases (stage_fits_iff stage).mpr fits with first | first | first
          · exact absurd ((stage_complete_iff fits).mp first) complete
          · rw [first, error_bind]
            exact .inr (.inl rfl)
          · rw [first, error_bind]
            exact .inr (.inr rfl)

theorem verdict_ok_iff {stages : List (List Part)} (fits : Fits stages) :
    verdict stages = .ok () ↔ ∀ stage ∈ stages, Complete stage := by
  induction stages with
  | nil => simp [verdict]
  | cons stage rest ih =>
      rw [verdict, bind_eq_ok]
      simp only [List.mem_cons, forall_eq_or_imp]
      constructor
      · intro accepted
        obtain ⟨_, first, others⟩ := accepted
        have complete := (stage_complete_iff fits.1).mp first
        exact ⟨complete, (ih (fits.2 complete)).mp others⟩
      · intro complete
        refine ⟨(), (stage_complete_iff fits.1).mpr complete.1, ?_⟩
        exact (ih (fits.2 complete.1)).mpr complete.2

/-! ## How `parse_command` ends -/

theorem parsed_of_verdict {line : Text}
    (accepted : verdict (stagesOf (lineTokens (cString line))) = .ok ()) :
    ∃ parsed, parseCommand line = .ok parsed := by
  have ended := parse_command_verdict line
  rw [accepted] at ended
  cases parsed : parseCommand line with
  | error halt =>
      rw [parsed] at ended
      cases ended
  | ok result => exact ⟨result, rfl⟩

theorem verdict_of_parsed {line : Text} (parsed : ∃ parsed, parseCommand line = .ok parsed) :
    verdict (stagesOf (lineTokens (cString line))) = .ok () := by
  obtain ⟨result, parsed⟩ := parsed
  rw [← parse_command_verdict, parsed]
  rfl

theorem error_iff_verdict {line : Text} {halt : ParseExit} :
    parseCommand line = .error halt ↔
      verdict (stagesOf (lineTokens (cString line))) = .error halt := by
  rw [← parse_command_verdict]
  cases parseCommand line <;> simp [Except.map]

/-- The exits of the parser with a message are those two. -/
theorem run_stage_message {room argc : Nat} {stage : List Part} {halt : ParseExit} {text : String}
    (ended : runStage room argc stage = .error halt) (printed : halt.message = some text) :
    halt = .noRedirectionArg ∨ halt = .tooManyArgs := by
  induction stage generalizing argc with
  | nil =>
      rw [runStage] at ended
      split_ifs at ended
      cases ended
      cases printed
  | cons part rest ih =>
      cases part with
      | bare symbol =>
          cases ended
          exact .inl rfl
      | redirect symbol file =>
          rw [runStage] at ended
          rcases copy_cases file.text with ⟨_, copy, copied⟩ | ⟨_, failed⟩
          · rw [copied, ok_bind] at ended
            exact ih ended
          · rw [failed, error_bind] at ended
            cases ended
            cases printed
      | word word =>
          rw [runStage] at ended
          rcases copy_cases word with ⟨_, copy, copied⟩ | ⟨_, failed⟩
          · rw [copied, ok_bind] at ended
            split_ifs at ended
            · cases ended
              exact .inr rfl
            · exact ih ended
            · cases ended
              cases printed
          · rw [failed, error_bind] at ended
            cases ended
            cases printed

theorem verdict_message {stages : List (List Part)} {halt : ParseExit} {text : String}
    (ended : verdict stages = .error halt) (printed : halt.message = some text) :
    halt = .noRedirectionArg ∨ halt = .tooManyArgs := by
  induction stages with
  | nil => cases ended
  | cons stage rest ih =>
      rw [verdict] at ended
      cases first : stageVerdict stage with
      | error other =>
          rw [first, error_bind] at ended
          cases ended
          exact run_stage_message first printed
      | ok done =>
          rw [first, ok_bind] at ended
          exact ih ended

theorem intended_of_message {stages : List (List Part)} {halt : ParseExit} {text : String}
    (ended : verdict stages = .error halt) (printed : halt.message = some text) :
    Intended (verdict stages) := by
  rw [ended]
  rcases verdict_message ended printed with rfl | rfl
  · exact .inr (.inl rfl)
  · exact .inr (.inr rfl)

theorem message_of_intended {line : Text}
    (intended : Intended (verdict (stagesOf (lineTokens (cString line)))))
    (refused : verdict (stagesOf (lineTokens (cString line))) ≠ .ok ()) :
    ∃ halt, parseCommand line = .error halt ∧
      (halt.message = some "no redirection arg\n" ∨ halt.message = some "too many args\n") := by
  rcases intended with ended | ended | ended
  · exact absurd ended refused
  · exact ⟨_, error_iff_verdict.mpr ended, .inl rfl⟩
  · exact ⟨_, error_iff_verdict.mpr ended, .inr rfl⟩

/-! ## The cursor, the token types and the indices of `argv` -/

/-- Every move of the cursor is over a byte of the line: `gettoken` takes its
token from what is left, and a token of some type is not taken at the end. -/
structure CursorInside (ptr : Text) : Prop where
  skipped : (gettoken ptr).outStr <:+ ptr
  taken : (gettoken ptr).endOutStr <:+ (gettoken ptr).outStr
  left : (gettoken ptr).cursor <:+ (gettoken ptr).endOutStr
  notAtEnd : (gettoken ptr).tokType ≠ .invalid → (gettoken ptr).outStr ≠ []
  peeked : ∀ toks, (peek ptr toks).2 <:+ ptr

/-- The `argv` indices that the loop of `parse_exec` and the NULL after it
write, branch by branch as in `execLoop`. -/
def argvIndices : Nat → Nat → Nat → Nat → Text → ParseState → List Nat
  | fuel, cmde, argc, cmd, ptr, state =>
      let (found, ptr) := peek ptr [pipeSign]
      if found then [argc]
      else
        let gotten := gettoken ptr
        if gotten.tokType = .invalid then [argc]
        else if gotten.tokType ≠ .letter then []
        else
          match fuel with
          | 0 => []
          | fuel + 1 =>
              match mkcopy gotten.outStr gotten.endOutStr with
              | .error _ => []
              | .ok word =>
                  argc :: match storeArg cmde argc (.text word) state with
                    | .error _ => []
                    | .ok state =>
                        if argc + 1 ≥ maxargs then []
                        else
                          match parseRedirects cmd gotten.cursor state with
                          | .error _ => []
                          | .ok parsed =>
                              argvIndices fuel cmde (argc + 1) parsed.cmd parsed.cursor parsed.state

/-- The `argv` indices that `parse_exec` writes. -/
def execIndices (ptr : Text) (state : ParseState) : List Nat :=
  let (cmd, state) := commandCreateExec state
  match parseRedirects cmd ptr state with
  | .error _ => []
  | .ok first => argvIndices first.cursor.length first.cmd 0 first.cmd first.cursor first.state

theorem skip_suffix (ptr : Text) : skipWhitespaces ptr <:+ ptr := List.dropWhile_suffix _

theorem cursor_inside (ptr : Text) : CursorInside ptr := by
  constructor
  · exact skip_suffix ptr
  · simp only [gettoken]
    split_ifs
    · exact List.suffix_refl _
    · exact List.tail_suffix _
    · exact List.tail_suffix _
    · exact List.tail_suffix _
    · exact List.dropWhile_suffix _
  · exact skip_suffix _
  · intro valid atEnd
    apply valid
    have skipped : skipWhitespaces ptr = [] := atEnd
    simp only [gettoken, skipped]
    rfl
  · intro toks
    exact skip_suffix ptr

theorem known_type {ptr cursor : Text} (looked : peek ptr [inputSign, outputSign] = (true, cursor)) :
    (gettoken cursor).tokType = .input ∨ (gettoken cursor).tokType = .output := by
  cases found : nextToken ptr with
  | none =>
      obtain ⟨_, nothing, _⟩ := peek_none [inputSign, outputSign] found
      rw [looked] at nothing
      cases nothing
  | some pair =>
      rcases pair with ⟨token, rest⟩
      obtain ⟨after, seen, _, same⟩ := peek_some found
      have pair := looked.symm.trans seen
      have isRedir : true = isRedirect token := congrArg Prod.fst pair
      have place : cursor = after := congrArg Prod.snd pair
      rw [place, (gettoken_some same).1]
      exact (is_redirect_iff token).mp isRedir.symm

/-- A round of the loop of `parse_exec` is refused, or is the last, or goes on
with another index left. -/
theorem round_cases (fuel cmde argc cmd : Nat) (ptr : Text) (state : ParseState) :
    (∃ halt, execLoop fuel cmde argc cmd ptr state = .error halt ∧
        (argvIndices fuel cmde argc cmd ptr state = [] ∨
          argvIndices fuel cmde argc cmd ptr state = [argc])) ∨
      (∃ parsed, execLoop fuel cmde argc cmd ptr state = .ok (argc, parsed) ∧
        argvIndices fuel cmde argc cmd ptr state = [argc]) ∨
      ∃ fewer after rest next, fuel = fewer + 1 ∧ argc + 1 < maxargs ∧
        execLoop fuel cmde argc cmd ptr state = execLoop fewer cmde (argc + 1) after rest next ∧
        argvIndices fuel cmde argc cmd ptr state =
          argc :: argvIndices fewer cmde (argc + 1) after rest next := by
  rcases looked : peek ptr [pipeSign] with ⟨found, cursor⟩
  by_cases last : found = true ∨ (gettoken cursor).tokType = .invalid
  · refine .inr (.inl ?_)
    cases fuel
    all_goals
      rw [execLoop, argvIndices, looked]
      rcases last with atPipe | invalid
      · simp only [if_pos atPipe]
        exact ⟨_, rfl, trivial⟩
      · simp only [if_pos invalid]
        split_ifs
        · exact ⟨_, rfl, rfl⟩
        · exact ⟨_, rfl, rfl⟩
  · obtain ⟨notPipe, valid⟩ := not_or.mp last
    by_cases notLetter : (gettoken cursor).tokType ≠ .letter
    · refine .inl ?_
      cases fuel
      all_goals
        rw [execLoop, argvIndices, looked]
        simp only [if_neg notPipe, if_neg valid, if_pos notLetter]
        exact ⟨_, rfl, .inl trivial⟩
    · cases fuel with
      | zero =>
          rw [execLoop, argvIndices, looked]
          simp only [if_neg notPipe, if_neg valid, if_neg notLetter]
          exact .inl ⟨_, rfl, .inl trivial⟩
      | succ fewer =>
          rw [execLoop, argvIndices, looked]
          simp only [if_neg notPipe, if_neg valid, if_neg notLetter]
          cases mkcopy (gettoken cursor).outStr (gettoken cursor).endOutStr with
          | error halt => exact .inl ⟨_, rfl, .inl rfl⟩
          | ok word =>
              simp only [ok_bind]
              cases storeArg cmde argc (.text word) state with
              | error halt => exact .inl ⟨_, rfl, .inr rfl⟩
              | ok next =>
                  simp only [ok_bind]
                  by_cases many : argc + 1 ≥ maxargs
                  · simp only [if_pos many]
                    exact .inl ⟨_, rfl, .inr trivial⟩
                  · simp only [if_neg many]
                    cases parseRedirects cmd (gettoken cursor).cursor next with
                    | error halt => exact .inl ⟨_, rfl, .inr rfl⟩
                    | ok parsed => exact .inr (.inr ⟨fewer, _, _, _, rfl, by omega, rfl, rfl⟩)

theorem argv_indices_lt {fuel cmde argc cmd index : Nat} {ptr : Text} {state : ParseState}
    (inside : argc < maxargs) (written : index ∈ argvIndices fuel cmde argc cmd ptr state) :
    index < maxargs := by
  induction fuel using Nat.strong_induction_on generalizing argc cmd ptr state with
  | _ fuel ih =>
      rcases round_cases fuel cmde argc cmd ptr state with ⟨_, _, none | one⟩ | ⟨_, _, one⟩ |
        ⟨fewer, _, _, _, rfl, more, _, indices⟩
      · rw [none] at written
        cases written
      · rw [one] at written
        rwa [List.mem_singleton.mp written]
      · rw [one] at written
        rwa [List.mem_singleton.mp written]
      · rw [indices] at written
        rcases List.mem_cons.mp written with first | later
        · rwa [first]
        · exact ih fewer (Nat.lt_succ_self fewer) more later

/-- The indices are consecutive, and where `execLoop` returns they end with the
one it returns, that of the NULL. -/
theorem argv_indices_of_loop (fuel cmde argc cmd : Nat) (ptr : Text) (state : ParseState) :
    ∃ count, argvIndices fuel cmde argc cmd ptr state = List.range' argc count ∧
      ∀ last parsed, execLoop fuel cmde argc cmd ptr state = .ok (last, parsed) →
        argc + count = last + 1 := by
  induction fuel using Nat.strong_induction_on generalizing argc cmd ptr state with
  | _ fuel ih =>
      rcases round_cases fuel cmde argc cmd ptr state with ⟨halt, failed, none | one⟩ |
        ⟨parsed, returned, one⟩ | ⟨fewer, after, rest, next, rfl, _, same, indices⟩
      · refine ⟨0, none, ?_⟩
        intro last parsed returned
        rw [failed] at returned
        cases returned
      · refine ⟨1, one, ?_⟩
        intro last parsed returned
        rw [failed] at returned
        cases returned
      · refine ⟨1, one, ?_⟩
        intro last found again
        rw [returned] at again
        cases again
        rfl
      · obtain ⟨count, consecutive, ends⟩ :=
          ih fewer (Nat.lt_succ_self fewer) (argc + 1) after rest next
        refine ⟨count + 1, ?_, ?_⟩
        · rw [indices, consecutive, List.range'_succ]
        · intro last parsed returned
          rw [same] at returned
          have total := ends last parsed returned
          omega

theorem exec_indices_lt {ptr : Text} {state : ParseState} {index : Nat}
    (written : index ∈ execIndices ptr state) : index < maxargs := by
  unfold execIndices at written
  simp only at written
  split at written
  · exact absurd written List.not_mem_nil
  · exact argv_indices_lt (by decide) written

/-! ## Every line -/

structure EndsAsIntended (line : Text) : Prop where
  ways : (∃ parsed, parseLine (cString line) emptyState = .ok parsed ∧
      (peek parsed.cursor []).2 = [] ∧ parseCommand line = .ok (parsed.cmd, parsed.state)) ∨
    ∃ halt, parseCommand line = .error halt ∧
      (halt.message = some "no redirection arg\n" ∨ halt.message = some "too many args\n")
  cursor : ∀ ptr, ptr <:+ cString line → CursorInside ptr
  types : ∀ ptr cursor, ptr <:+ cString line → peek ptr [inputSign, outputSign] = (true, cursor) →
    (gettoken cursor).tokType = .input ∨ (gettoken cursor).tokType = .output
  indices : ∀ ptr state, ptr <:+ cString line → ∀ index ∈ execIndices ptr state, index < maxargs
  counted : ∀ fuel cmde cmd ptr state last parsed, ptr <:+ cString line →
    execLoop fuel cmde 0 cmd ptr state = .ok (last, parsed) →
      argvIndices fuel cmde 0 cmd ptr state = List.range' 0 (last + 1)

theorem parsed_at_end {line : Text} {cmd : Nat} {state : ParseState}
    (done : parseCommand line = .ok (cmd, state)) :
    ∃ parsed, parseLine (cString line) emptyState = .ok parsed ∧
      (peek parsed.cursor []).2 = [] ∧ parseCommand line = .ok (parsed.cmd, parsed.state) := by
  have whole := done
  rw [parseCommand, bind_eq_ok] at done
  obtain ⟨parsed, ran, ended⟩ := done
  rcases looked : peek parsed.cursor [] with ⟨found, rest⟩
  rw [looked] at ended
  simp only at ended
  split_ifs at ended with more
  cases ended
  refine ⟨parsed, ran, ?_, whole⟩
  rw [looked]
  exact not_not.mp more

/-- A line ends the parser in one of the three ways exactly when every stage
that the parser gets to fits. -/
theorem ends_as_intended_iff (line : Text) :
    EndsAsIntended line ↔ Fits (stagesOf (lineTokens (cString line))) := by
  rw [← fits_iff]
  constructor
  · intro ends
    rcases ends.ways with ⟨parsed, _, _, done⟩ | ⟨halt, ended, printed⟩
    · exact .inl (verdict_of_parsed ⟨_, done⟩)
    · have ended := error_iff_verdict.mp ended
      rcases printed with printed | printed
      · exact intended_of_message ended printed
      · exact intended_of_message ended printed
  · intro intended
    constructor
    · by_cases accepted : verdict (stagesOf (lineTokens (cString line))) = .ok ()
      · obtain ⟨⟨cmd, state⟩, done⟩ := parsed_of_verdict accepted
        exact .inl (parsed_at_end done)
      · exact .inr (message_of_intended intended accepted)
    · exact fun ptr _ => cursor_inside ptr
    · exact fun _ _ _ looked => known_type looked
    · exact fun _ _ _ _ written => exec_indices_lt written
    · intro fuel cmde cmd ptr state last parsed _ returned
      obtain ⟨count, consecutive, ends⟩ := argv_indices_of_loop fuel cmde 0 cmd ptr state
      have total := ends last parsed returned
      rw [consecutive, ← total, Nat.zero_add]

/-- For `<f a b c` the NULL after the third word is stored behind the struct of
the redirection. -/
theorem stored_behind_redirection : ¬ EndsAsIntended [60, 102, 32, 97, 32, 98, 32, 99] := by
  intro ends
  have outside : (parseCommand [60, 102, 32, 97, 32, 98, 32, 99]).map (fun _ => ()) =
      .error .outOfRange := by decide +kernel
  rcases ends.ways with ⟨parsed, _, _, done⟩ | ⟨halt, ended, printed⟩
  · rw [done] at outside
    cases outside
  · rw [ended] at outside
    cases outside
    rcases printed with printed | printed
    · cases printed
    · cases printed

end Sysprog.Shell.Endings
