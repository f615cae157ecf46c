import Sysprog.Shell.RedirectionPlaces

/-!
# A line as the parser reads it

The tokens of a line fall into stages, and a stage into words, redirections
with whatever token follows them, and a redirection sign at the end of the
line. How the parser ends depends on these parts and on the struct that
`cmde` points to.
-/

namespace Sysprog.Shell.Readings

open CheckedRuns Scanner Commands LineParser Tokens TokenParser Pipelines

set_option autoImplicit false

inductive Part where
  | word (text : Text)
  | redirect (symbol : Byte) (file : Tok)
  | bare (symbol : Byte)
  deriving DecidableEq

def readStages : List Tok → List Part × List (List Part)
  | [] => ([], [])
  | .word text :: rest => (.word text :: (readStages rest).1, (readStages rest).2)
  | [.sign symbol] => if isRedirect (.sign symbol) then ([.bare symbol], []) else ([], [[]])
  | .sign symbol :: file :: rest =>
      if isRedirect (.sign symbol) then
        (.redirect symbol file :: (readStages rest).1, (readStages rest).2)
      else ([], (readStages (file :: rest)).1 :: (readStages (file :: rest)).2)

def stagesOf (toks : List Tok) : List (List Part) := (readStages toks).1 :: (readStages toks).2

/-- How many pointers can be stored to `argv` of the struct at an address. -/
def roomOf : Node → Nat
  | .exec argv => argv.length
  | .redirect _ _ _ _ => 3
  | .pipe _ _ => 2

def RoomAt (state : ParseState) (address room : Nat) : Prop :=
  ∃ node, state.nodes[address]? = some node ∧ roomOf node = room

/-- `cmde` is the redirection that a stage begins with. -/
def argvRoom : List Part → Nat
  | .redirect _ _ :: _ => 3
  | _ => maxargs

/-- How `parse_exec` ends on a stage with `argc` words stored. -/
def runStage (room : Nat) : Nat → List Part → Except ParseExit Unit
  | argc, [] => if argc < room then .ok () else .error .outOfRange
  | _, .bare _ :: _ => .error .noRedirectionArg
  | argc, .redirect _ file :: rest => do
      let _ ← copyText file.text
      runStage room argc rest
  | argc, .word text :: rest => do
      let _ ← copyText text
      if argc < room then
        if argc + 1 ≥ maxargs then .error .tooManyArgs else runStage room (argc + 1) rest
      else .error .outOfRange

def stageVerdict (stage : List Part) : Except ParseExit Unit := runStage (argvRoom stage) 0 stage

def verdict : List (List Part) → Except ParseExit Unit
  | [] => .ok ()
  | stage :: rest => do
      stageVerdict stage
      verdict rest

/-! ## Stores keep the room of every struct -/

theorem store_into_room (node : Node) (index : Nat) (pointer : Pointer) :
    (index < roomOf node →
      ∃ changed, storeInto node index pointer = .ok changed ∧ roomOf changed = roomOf node) ∧
      (roomOf node ≤ index → storeInto node index pointer = .error .outOfRange) := by
  cases node with
  | exec argv =>
      constructor
      · intro inside
        exact ⟨_, if_pos inside, List.length_set⟩
      · intro outside
        exact if_neg (Nat.not_lt.mpr outside)
  | pipe left right =>
      constructor
      · intro inside
        have two : index = 0 ∨ index = 1 := by
          simp only [roomOf] at inside
          omega
        rcases two with rfl | rfl
        · exact ⟨_, rfl, rfl⟩
        · exact ⟨_, rfl, rfl⟩
      · intro outside
        obtain ⟨more, rfl⟩ := Nat.exists_eq_add_of_le' outside
        rfl
  | redirect cmd file mode fd =>
      constructor
      · intro inside
        have three : index = 0 ∨ index = 1 ∨ index = 2 := by
          simp only [roomOf] at inside
          omega
        rcases three with rfl | rfl | rfl
        · exact ⟨_, rfl, rfl⟩
        · exact ⟨_, rfl, rfl⟩
        · exact ⟨_, rfl, rfl⟩
      · intro outside
        obtain ⟨more, rfl⟩ := Nat.exists_eq_add_of_le' outside
        rfl

theorem store_inside {state : ParseState} {cmde room index : Nat} (pointer : Pointer)
    (place : RoomAt state cmde room) (inside : index < room) :
    ∃ next, storeArg cmde index pointer state = .ok next ∧
      ∀ address other, RoomAt state address other → RoomAt next address other := by
  obtain ⟨node, present, same⟩ := place
  rw [← same] at inside
  obtain ⟨changed, into, kept⟩ := (store_into_room node index pointer).1 inside
  have bound := (List.getElem?_eq_some_iff.mp present).1
  refine ⟨{ state with
    nodes := state.nodes.set cmde changed
    stores := state.stores ++ [cmde] }, ?_, ?_⟩
  · rw [storeArg, present]
    simp only [into, ok_bind]
  · intro address other placed
    obtain ⟨node', found, size⟩ := placed
    by_cases target : address = cmde
    · subst target
      rw [present] at found
      cases found
      exact ⟨changed, List.getElem?_set_self bound, kept.trans size⟩
    · exact ⟨node', by rw [List.getElem?_set_ne (Ne.symm target), found], size⟩

theorem store_outside {state : ParseState} {cmde room index : Nat} (pointer : Pointer)
    (place : RoomAt state cmde room) (outside : room ≤ index) :
    storeArg cmde index pointer state = .error .outOfRange := by
  obtain ⟨node, present, same⟩ := place
  rw [← same] at outside
  rw [storeArg, present]
  simp only [(store_into_room node index pointer).2 outside, error_bind]

theorem room_of_created {subcmd cmd : Nat} {file : Text} {mode : TokenType}
    {state next : ParseState} (created : commandCreateRedirect subcmd file mode state = (cmd, next)) :
    RoomAt next cmd 3 ∧ ∀ address room, RoomAt state address room → RoomAt next address room := by
  rw [commandCreateRedirect, allocNode] at created
  cases created
  constructor
  · exact ⟨_, List.getElem?_concat_length, rfl⟩
  · intro address room placed
    obtain ⟨node, present, same⟩ := placed
    exact ⟨node, ParsedStages.node_of_grown (List.prefix_append _ _) present, same⟩

/-! ## The parser over tokens reads the parts -/

def Leaves (left : List Tok) (others : List (List Part)) : Prop :=
  (left = [] ∧ others = []) ∨
    ∃ token rest, left = token :: rest ∧ isPipe token = true ∧ others = stagesOf rest

/-- The parser of a stage ends as its parts tell, at the other stages. -/
def EndsAs (outcome : Except ParseExit (Parsed (List Tok))) (ending : Except ParseExit Unit)
    (others : List (List Part)) : Prop :=
  match ending with
  | .error halt => outcome = .error halt
  | .ok _ => ∃ parsed, outcome = .ok parsed ∧ Leaves parsed.cursor others

def terminate (cmde : Nat) (ended : Nat × Parsed (List Tok)) :
    Except ParseExit (Parsed (List Tok)) := do
  let state ← storeArg cmde ended.1 .null ended.2.state
  .ok ⟨ended.2.cmd, ended.2.cursor, state⟩

theorem ends_of_terminate {cmde room argc cmd : Nat} {toks : List Tok} {state : ParseState}
    {others : List (List Part)} (place : RoomAt state cmde room) (leaves : Leaves toks others) :
    EndsAs (terminate cmde (argc, ⟨cmd, toks, state⟩)) (runStage room argc []) others := by
  by_cases inside : argc < room
  · obtain ⟨next, stored, _⟩ := store_inside .null place inside
    rw [runStage, if_pos inside]
    refine ⟨⟨cmd, toks, next⟩, ?_, leaves⟩
    simp only [terminate, stored, ok_bind]
  · rw [runStage, if_neg inside]
    simp only [EndsAs, terminate, store_outside .null place (Nat.le_of_not_lt inside), error_bind]

theorem stage_ends_as {cmde room argc cmd : Nat} {toks : List Tok} {state : ParseState}
    (place : RoomAt state cmde room) :
    EndsAs (stage cmde argc cmd toks state >>= terminate cmde)
      (runStage room argc (readStages toks).1) (readStages toks).2 := by
  induction argc, cmd, toks, state using stage.induct with
  | case1 argc cmd state =>
      rw [stage, ok_bind, readStages]
      exact ends_of_terminate place (.inl ⟨rfl, rfl⟩)
  | case2 argc cmd text rest state ih =>
      rw [stage, readStages, runStage]
      cases copyText text with
      | error halt => rfl
      | ok word =>
          rw [ok_bind, ok_bind]
          by_cases inside : argc < room
          · obtain ⟨next, stored, kept⟩ := store_inside (.text word) place inside
            rw [stored, ok_bind, if_pos inside]
            by_cases many : argc + 1 ≥ maxargs
            · rw [if_pos many, if_pos many]
              rfl
            · rw [if_neg many, if_neg many]
              exact ih next (kept _ _ place)
          · rw [if_neg inside, store_outside _ place (Nat.le_of_not_lt inside)]
            rfl
  | case3 argc cmd symbol state isRedir =>
      rw [stage, readStages, if_pos isRedir, if_pos isRedir]
      rfl
  | case4 argc cmd symbol state other =>
      rw [stage, readStages, if_neg other, if_neg other, ok_bind]
      apply ends_of_terminate place
      rcases typeOf_cases (.sign symbol) with ⟨text, same⟩ | ⟨_, _, pipe, _⟩ | ⟨_, _, _, redir⟩
      · cases same
      · exact .inr ⟨_, [], rfl, pipe, rfl⟩
      · exact absurd redir other
  | case5 argc cmd symbol file rest state isRedir ih =>
      rw [stage, readStages, if_pos isRedir, if_pos isRedir, runStage]
      cases copyText file.text with
      | error halt => rfl
      | ok text =>
          rw [ok_bind, ok_bind]
          have made := @room_of_created cmd _ text (typeOf (.sign symbol)) state _ rfl
          exact ih _ _ (made.2 _ _ place)
  | case6 argc cmd symbol file rest state other =>
      rw [stage, readStages, if_neg other, if_neg other, ok_bind]
      apply ends_of_terminate place
      rcases typeOf_cases (.sign symbol) with ⟨text, same⟩ | ⟨_, _, pipe, _⟩ | ⟨_, _, _, redir⟩
      · cases same
      · exact .inr ⟨_, file :: rest, rfl, pipe, rfl⟩
      · exact absurd redir other

theorem argv_room_cases (stage : List Part) : argvRoom stage = 3 ∨ argvRoom stage = maxargs := by
  unfold argvRoom
  split
  · exact .inl rfl
  · exact .inr rfl

/-- What is left of `parse_exec` once its struct is allocated. -/
def rounds (cmd : Nat) (toks : List Tok) (state : ParseState) :
    Except ParseExit (Parsed (List Tok)) := do
  let first ← redirects cmd toks state
  let ended ← afterRedirects first.cmd 0 first
  terminate first.cmd ended

theorem rounds_of_other {cmd : Nat} {token : Tok} {rest : List Tok} {state : ParseState}
    (other : isRedirect token = false) :
    rounds cmd (token :: rest) state =
      (stage cmd 0 cmd (token :: rest) state >>= terminate cmd) := by
  rw [rounds, redirects_none other, ok_bind, stage_none other]

theorem rounds_of_redirect {cmd : Nat} {token file : Tok} {rest : List Tok} {state : ParseState}
    (redir : isRedirect token = true) :
    rounds cmd (token :: file :: rest) state =
      (copyText file.text >>= fun text =>
        rounds (commandCreateRedirect cmd text (typeOf token) state).1 rest
          (commandCreateRedirect cmd text (typeOf token) state).2) := by
  rw [rounds, redirects, if_pos redir]
  cases copyText file.text with
  | error halt => rfl
  | ok text => rfl

/-- A redirection before the first word makes `cmde` point to it. -/
theorem rounds_end_as {cmd room : Nat} {toks : List Tok} {state : ParseState}
    (place : RoomAt state cmd room) (first : argvRoom (readStages toks).1 = 3 → room = 3) :
    EndsAs (rounds cmd toks state) (runStage room 0 (readStages toks).1) (readStages toks).2 := by
  induction cmd, toks, state using redirects.induct generalizing room with
  | case1 cmd state => exact stage_ends_as place
  | case2 cmd token state isRedir =>
      cases token with
      | word text => cases isRedir
      | sign symbol =>
          rw [rounds, redirects, readStages, if_pos isRedir, if_pos isRedir]
          rfl
  | case3 cmd token state other =>
      rw [rounds_of_other (by simpa using other)]
      exact stage_ends_as place
  | case4 cmd token file rest state isRedir ih =>
      cases token with
      | word text => cases isRedir
      | sign symbol =>
          rw [rounds_of_redirect isRedir, readStages, if_pos isRedir, runStage]
          rw [readStages, if_pos isRedir] at first
          have three := first rfl
          subst three
          cases copyText file.text with
          | error halt => rfl
          | ok text =>
              have made := @room_of_created cmd _ text (typeOf (.sign symbol)) state _ rfl
              exact ih _ _ made.1 fun _ => rfl
  | case5 cmd token file rest state other =>
      rw [rounds_of_other (by simpa using other)]
      exact stage_ends_as place

theorem exec_eq_rounds {toks : List Tok} {state begun : ParseState} {cmd : Nat}
    (created : commandCreateExec state = (cmd, begun)) :
    exec toks state = rounds cmd toks begun := by
  rw [exec, created]
  rfl

theorem room_of_exec {state begun : ParseState} {cmd : Nat}
    (created : commandCreateExec state = (cmd, begun)) : RoomAt begun cmd maxargs := by
  rw [commandCreateExec, allocNode] at created
  cases created
  exact ⟨_, List.getElem?_concat_length, List.length_replicate⟩

theorem exec_ends_as (toks : List Tok) (state : ParseState) :
    EndsAs (exec toks state) (stageVerdict (readStages toks).1) (readStages toks).2 := by
  rcases created : commandCreateExec state with ⟨cmd, begun⟩
  have place := room_of_exec created
  rw [exec_eq_rounds created, stageVerdict]
  by_cases first : argvRoom (readStages toks).1 = 3
  · match toks, first with
    | .sign symbol :: file :: rest, first =>
        cases redir : isRedirect (.sign symbol) with
        | false =>
            rw [readStages, redir] at first
            cases first
        | true =>
            rw [rounds_of_redirect redir, readStages, if_pos redir, argvRoom, runStage]
            cases copyText file.text with
            | error halt => rfl
            | ok text =>
                have made := @room_of_created cmd _ text (typeOf (.sign symbol)) begun _ rfl
                exact rounds_end_as made.1 fun _ => rfl
    | [.sign symbol], first =>
        cases redir : isRedirect (.sign symbol) with
        | false =>
            rw [readStages, redir] at first
            cases first
        | true =>
            rw [readStages, redir] at first
            cases first
  · rcases argv_room_cases (readStages toks).1 with three | whole
    · exact absurd three first
    · rw [whole]
      exact rounds_end_as place fun three => absurd three first

theorem length_others_le (toks : List Tok) : (readStages toks).2.length ≤ toks.length := by
  induction toks using readStages.induct with
  | case1 => exact Nat.le_refl _
  | case2 text rest ih =>
      rw [readStages, List.length_cons]
      exact Nat.le_succ_of_le ih
  | case3 symbol isRedir =>
      rw [readStages, if_pos isRedir]
      exact Nat.zero_le _
  | case4 symbol other =>
      rw [readStages, if_neg other]
      exact Nat.le_refl _
  | case5 symbol file rest isRedir ih =>
      rw [readStages, if_pos isRedir, List.length_cons, List.length_cons]
      exact Nat.le_succ_of_le (Nat.le_succ_of_le ih)
  | case6 symbol file rest other ih =>
      rw [readStages, if_neg other, List.length_cons, List.length_cons]
      exact Nat.succ_le_succ ih

theorem pipeline_fault {fuel : Nat} {toks : List Tok} {state : ParseState} {halt : ParseExit}
    (failed : exec toks state = .error halt) : pipeline fuel toks state = .error halt := by
  cases fuel
  all_goals rw [pipeline, failed, error_bind]

theorem first_stage_cases (toks : List Tok) (state : ParseState) :
    (∃ halt, stageVerdict (readStages toks).1 = .error halt ∧ exec toks state = .error halt) ∨
      stageVerdict (readStages toks).1 = .ok () ∧ ∃ parsed, exec toks state = .ok parsed ∧
        Leaves parsed.cursor (readStages toks).2 := by
  have ended := exec_ends_as toks state
  cases verdictOf : stageVerdict (readStages toks).1 with
  | error halt =>
      rw [verdictOf] at ended
      exact .inl ⟨halt, rfl, ended⟩
  | ok done =>
      rw [verdictOf] at ended
      exact .inr ⟨rfl, ended⟩

/-- The parser goes over all stages, and leaves nothing when it returns. -/
theorem pipeline_ends_as {fuel : Nat} {toks : List Tok} {state : ParseState}
    (enough : (readStages toks).2.length ≤ fuel) :
    (pipeline fuel toks state).map Parsed.cursor = (verdict (stagesOf toks)).map fun _ => [] := by
  induction fuel generalizing toks state with
  | zero =>
      have alone : (readStages toks).2 = [] := List.length_eq_zero_iff.mp (by omega)
      rw [stagesOf, verdict, alone]
      rcases first_stage_cases toks state with ⟨halt, refused, failed⟩ | ⟨accepted, parsed, ran, leaves⟩
      · rw [refused, pipeline_fault failed]
        rfl
      · rw [alone] at leaves
        rcases leaves with ⟨left, _⟩ | ⟨token, rest, _, _, more⟩
        · rw [accepted, pipeline_done ran (by simp [left])]
          exact congrArg Except.ok left
        · cases more
  | succ fuel ih =>
      rw [stagesOf, verdict]
      rcases first_stage_cases toks state with ⟨halt, refused, failed⟩ | ⟨accepted, parsed, ran, leaves⟩
      · rw [refused, pipeline_fault failed]
        rfl
      · rcases leaves with ⟨left, others⟩ | ⟨token, rest, left, pipe, others⟩
        · rw [accepted, others, pipeline_done ran (by simp [left])]
          exact congrArg Except.ok left
        · rw [others, stagesOf, List.length_cons] at enough
          have step := @ih rest parsed.state (by omega)
          rw [pipeline, ran, accepted, others, ok_bind, ok_bind, left, ← step]
          simp only [pipe, if_true]
          cases pipeline fuel rest parsed.state with
          | error halt => rfl
          | ok right => rfl

/-- How a line ends the parser. -/
theorem parse_command_verdict (line : Text) :
    (parseCommand line).map (fun _ => ()) = verdict (stagesOf (lineTokens (cString line))) := by
  have enough : (readStages (lineTokens (cString line))).2.length ≤ (cString line).length :=
    Nat.le_trans (length_others_le _) (length_tokens_le _)
  have ran := @pipeline_ends_as _ _ emptyState enough
  rw [parse_command_eq, whole]
  cases parsed : pipeline (cString line).length (lineTokens (cString line)) emptyState with
  | error halt =>
      rw [parsed] at ran
      cases ended : verdict (stagesOf (lineTokens (cString line))) with
      | error other =>
          rw [ended] at ran
          cases ran
          rfl
      | ok done =>
          rw [ended] at ran
          cases ran
  | ok last =>
      rw [parsed] at ran
      cases ended : verdict (stagesOf (lineTokens (cString line))) with
      | error other =>
          rw [ended] at ran
          cases ran
      | ok done =>
          rw [ended] at ran
          have nothing : last.cursor = [] := Except.ok.inj ran
          rw [ok_bind, if_neg (not_not.mpr nothing)]
          rfl

end Sysprog.Shell.Readings
