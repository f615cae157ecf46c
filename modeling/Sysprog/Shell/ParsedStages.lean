import Sysprog.Shell.Pipelines

/-!
# What the parser builds of a stage

While `parse_exec` goes over a stage, one struct holds the words so far and
the redirections so far are wrapped around it. Structs allocated before it
stay as they are.
-/

namespace Sysprog.Shell.ParsedStages

open CheckedRuns Scanner Commands LineParser Tokens TokenParser Pipelines

set_option autoImplicit false

def redirectNode (redirection : Redirection) (cmd : Nat) : Node :=
  .redirect (.node cmd) (.text redirection.file) (.value redirection.mode) (.value redirection.fd)

/-- The structs from `address` down to `inner` are these redirections. -/
inductive Wrapped (nodes : List Node) (inner : Nat) : Nat → List Redirection → Prop where
  | bare : Wrapped nodes inner inner []
  | wrapped {address cmd : Nat} {redirections : List Redirection} {redirection : Redirection}
      (present : nodes[address]? = some (redirectNode redirection cmd))
      (below : Wrapped nodes inner cmd redirections) :
      Wrapped nodes inner address (redirections ++ [redirection])

/-- The stores to `argv` since `before` went into command_exec structs. -/
def StoresInExec (before after : ParseState) : Prop :=
  ∃ stores, after.stores = before.stores ++ stores ∧
    ∀ address ∈ stores, ∃ argv, after.nodes[address]? = some (.exec argv)

structure Building (before : ParseState) (cmde cmd : Nat) (words : List Text)
    (redirections : List Redirection) (state : ParseState) : Prop where
  place : before.nodes.length ≤ cmde
  kept : before.nodes <+: state.nodes
  argv : state.nodes[cmde]? = some (.exec (argvOf words))
  wrapped : Wrapped state.nodes cmde cmd redirections
  stores : ∃ count, state.stores = before.stores ++ List.replicate count cmde
  printed : state.stderr = before.stderr

theorem represents_of_wrapped {nodes : List Node} {inner cmd : Nat} {command : Command}
    {redirections : List Redirection} (wrapped : Wrapped nodes inner cmd redirections)
    (tree : Represents nodes inner command) : Represents nodes cmd (wrap command redirections) := by
  induction wrapped with
  | bare => exact tree
  | wrapped present below ih =>
      rw [wrap, List.foldl_append]
      exact .redirect present ih

theorem node_of_grown {nodes more : List Node} {address : Nat} {node : Node}
    (grown : nodes <+: more) (present : nodes[address]? = some node) :
    more[address]? = some node := by
  obtain ⟨tail, rfl⟩ := grown
  have inside : address < nodes.length := by
    by_contra outside
    rw [List.getElem?_eq_none (by omega)] at present
    cases present
  rw [List.getElem?_append_left inside, present]

theorem represents_of_grown {nodes more : List Node} {address : Nat} {command : Command}
    (grown : nodes <+: more) (tree : Represents nodes address command) :
    Represents more address command := by
  induction tree with
  | exec present terminated => exact .exec (node_of_grown grown present) terminated
  | pipe present _ _ left right => exact .pipe (node_of_grown grown present) left right
  | redirect present _ inner => exact .redirect (node_of_grown grown present) inner

theorem wrapped_of_kept {nodes more : List Node} {inner cmd : Nat}
    {redirections : List Redirection} {argv : List Pointer}
    (bare : nodes[inner]? = some (.exec argv))
    (kept : ∀ address node, address ≠ inner → nodes[address]? = some node →
      more[address]? = some node)
    (wrapped : Wrapped nodes inner cmd redirections) : Wrapped more inner cmd redirections := by
  induction wrapped with
  | bare => exact .bare
  | @wrapped address cmd redirections redirection present below ih =>
      have other : address ≠ inner := by
        rintro rfl
        rw [bare] at present
        cases present
      exact .wrapped (kept address _ other present) ih

theorem length_argv_of {words : List Text} (room : words.length ≤ maxargs) :
    (argvOf words).length = maxargs := by
  simp only [argvOf, List.length_append, List.length_map, List.length_replicate]
  omega

theorem argv_of_set {words : List Text} (text : Text) (room : words.length < maxargs) :
    (argvOf words).set words.length (.text text) = argvOf (words ++ [text]) := by
  have more : maxargs - words.length = maxargs - (words.length + 1) + 1 := by omega
  simp only [argvOf, List.map_append, List.map_cons, List.map_nil, List.length_append,
    List.length_singleton]
  rw [more, List.replicate_succ, List.set_append_right _ _ (by simp)]
  simp

theorem argv_of_set_null {words : List Text} (room : words.length < maxargs) :
    (argvOf words).set words.length .null = argvOf words := by
  have more : maxargs - words.length = maxargs - (words.length + 1) + 1 := by omega
  rw [argvOf, more, List.replicate_succ, List.set_append_right _ _ (by simp)]
  simp

theorem building_store {before state : ParseState} {cmde cmd index : Nat}
    {words changed : List Text} {redirections : List Redirection} {pointer : Pointer}
    (building : Building before cmde cmd words redirections state)
    (inside : index < (argvOf words).length)
    (stored : (argvOf words).set index pointer = argvOf changed) :
    ∃ next, storeArg cmde index pointer state = .ok next ∧
      Building before cmde cmd changed redirections next := by
  have bound : cmde < state.nodes.length := (List.getElem?_eq_some_iff.mp building.argv).1
  refine ⟨{ state with
    nodes := state.nodes.set cmde (.exec (argvOf changed))
    stores := state.stores ++ [cmde] }, ?_, ?_⟩
  · rw [storeArg, building.argv]
    simp only
    rw [storeInto, if_pos inside, ok_bind, stored]
  · obtain ⟨count, stores⟩ := building.stores
    constructor
    · exact building.place
    · obtain ⟨tail, whole⟩ := building.kept
      refine ⟨tail.set (cmde - before.nodes.length) (.exec (argvOf changed)), ?_⟩
      rw [← whole, List.set_append_right _ _ building.place]
    · exact List.getElem?_set_self bound
    · apply wrapped_of_kept building.argv _ building.wrapped
      intro address node other present
      rw [List.getElem?_set_ne (Ne.symm other), present]
    · refine ⟨count + 1, ?_⟩
      simp only [stores, List.append_assoc, List.replicate_succ']
    · exact building.printed

theorem redirect_of_type (redirection : Redirection) :
    isRedirect (.sign redirection.sign) = true ∧
      redirectMode (typeOf (.sign redirection.sign)) = redirection.mode ∧
      redirectFd (typeOf (.sign redirection.sign)) = redirection.fd := by
  rcases redirection with ⟨output, file⟩
  cases output
  · exact ⟨rfl, rfl, rfl⟩
  · exact ⟨rfl, rfl, rfl⟩

theorem building_redirect {before state next : ParseState} {cmde cmd after : Nat}
    {words : List Text} {redirections : List Redirection} {redirection : Redirection}
    (building : Building before cmde cmd words redirections state)
    (created : commandCreateRedirect cmd redirection.file (typeOf (.sign redirection.sign)) state =
      (after, next)) :
    Building before cmde after words (redirections ++ [redirection]) next := by
  obtain ⟨_, mode, fd⟩ := redirect_of_type redirection
  rw [commandCreateRedirect, mode, fd, allocNode] at created
  cases created
  have grown : state.nodes <+: state.nodes ++ [redirectNode redirection cmd] :=
    List.prefix_append _ _
  constructor
  · exact building.place
  · exact building.kept.trans grown
  · exact node_of_grown grown building.argv
  · apply Wrapped.wrapped
    · exact List.getElem?_concat_length
    · apply wrapped_of_kept building.argv _ building.wrapped
      intro address node _ present
      exact node_of_grown grown present
  · exact building.stores
  · exact building.printed

def Ends (rest : List Tok) : Prop := ∀ token ∈ rest.head?, isPipe token = true

theorem ends_of_line : Ends [] := by
  intro token member
  cases member

theorem stage_of_ends {cmde argc cmd : Nat} {rest : List Tok} {state : ParseState}
    (ends : Ends rest) : stage cmde argc cmd rest state = .ok (argc, ⟨cmd, rest, state⟩) := by
  cases rest with
  | nil => rfl
  | cons token rest =>
      have pipe := ends token rfl
      rcases typeOf_cases token with ⟨text, rfl⟩ | ⟨symbol, rfl, _, redir⟩ | ⟨symbol, rfl, other, _⟩
      · cases pipe
      · rw [stage_none redir, afterRedirects]
        simp only [pipe, if_true]
      · rw [pipe] at other
        cases other

/-- All items of a stage are built in, one after another, as they are copied. -/
theorem stage_built {before state : ParseState} {cmde cmd : Nat} {words : List Text}
    {redirections : List Redirection} {items copies : List Item} {rest : List Tok}
    (building : Building before cmde cmd words redirections state) (ends : Ends rest)
    (copied : copyItems items = .ok copies)
    (room : words.length + (wordsOf items).length < maxargs) :
    ∃ last next, stage cmde words.length cmd (stageTokens items ++ rest) state =
        .ok ((words ++ wordsOf copies).length, ⟨last, rest, next⟩) ∧
      Building before cmde last (words ++ wordsOf copies) (redirections ++ redirectionsOf copies)
        next := by
  induction items generalizing cmd words redirections copies state with
  | nil =>
      cases copied
      refine ⟨cmd, state, ?_, ?_⟩
      · simpa [stageTokens, wordsOf] using stage_of_ends ends
      · simpa [wordsOf, redirectionsOf] using building
  | cons item items ih =>
      obtain ⟨copy, others, first, remaining, rfl⟩ := copy_items_cons.mp copied
      cases item with
      | word text =>
          obtain ⟨word, one, rfl⟩ := copy_item_word.mp first
          rw [words_of_word, List.length_cons] at room
          have free : words.length < maxargs := by omega
          have grown : (words ++ [word]).length = words.length + 1 := by simp
          obtain ⟨next, stored, built⟩ := building_store building
            (by rw [length_argv_of (by omega)]; exact free) (argv_of_set word free)
          obtain ⟨last, final, ran, finished⟩ := ih built remaining (by omega)
          rw [grown] at ran
          rw [List.append_assoc, List.singleton_append] at ran finished
          refine ⟨last, final, ?_, ?_⟩
          · rw [stage_tokens_word, List.cons_append, stage, one, ok_bind, stored, ok_bind,
              if_neg (by omega), words_of_word]
            exact ran
          · rw [words_of_word, redirections_of_word]
            exact finished
      | redirect redirection =>
          obtain ⟨file, one, rfl⟩ := copy_item_redirect.mp first
          obtain ⟨isRedir, _, _⟩ := redirect_of_type redirection
          rcases created : commandCreateRedirect cmd file (typeOf (.sign redirection.sign)) state
            with ⟨after, next⟩
          have built := @building_redirect _ _ _ _ _ _ _ _ { redirection with file } building
            created
          obtain ⟨last, final, ran, finished⟩ := ih built remaining room
          rw [List.append_assoc, List.singleton_append] at finished
          refine ⟨last, final, ?_, ?_⟩
          · rw [stage_tokens_redirect, List.cons_append, List.cons_append, stage, if_pos isRedir,
              Token.text, one, ok_bind, created, words_of_redirect]
            exact ran
          · rw [words_of_redirect, redirections_of_redirect]
            exact finished

structure Built (before : ParseState) (tree : Command) (cmd : Nat) (after : ParseState) : Prop where
  kept : before.nodes <+: after.nodes
  tree : Represents after.nodes cmd tree
  stores : StoresInExec before after
  printed : after.stderr = before.stderr

theorem redirects_stop {toks : List Tok} (cmd : Nat) (state : ParseState)
    (other : ∀ token ∈ toks.head?, isRedirect token = false) :
    redirects cmd toks state = .ok ⟨cmd, toks, state⟩ := by
  cases toks with
  | nil => rw [redirects]
  | cons token rest => exact redirects_none (other token rfl)

def RedirectionFirst (items : List Item) : Prop := ∃ redirection rest, items = .redirect redirection :: rest

theorem not_redirection_first {items : List Item} (wordFirst : WordFirst items) :
    ¬ RedirectionFirst items := by
  intro first
  obtain ⟨redirection, rest, redirectionFirst⟩ := first
  obtain ⟨text, others, first⟩ := wordFirst
  rw [first] at redirectionFirst
  cases redirectionFirst

theorem head_of_stage {items : List Item} {rest : List Tok} (ends : Ends rest)
    (notFirst : ¬ RedirectionFirst items) :
    ∀ token ∈ (stageTokens items ++ rest).head?, isRedirect token = false := by
  intro token first
  cases items with
  | nil =>
      have pipe := ends token first
      rcases typeOf_cases token with ⟨text, rfl⟩ | ⟨symbol, rfl, _, other⟩ | ⟨symbol, rfl, other, _⟩
      · cases pipe
      · exact other
      · rw [pipe] at other
        cases other
  | cons item items =>
      cases item with
      | word text =>
          have same : token = .word text := (Option.some.inj first).symm
          rw [same]
          rfl
      | redirect redirection => exact absurd ⟨redirection, items, rfl⟩ notFirst

/-- Without redirections at its start, a stage keeps its words in the struct
that was allocated for it. -/
theorem exec_eq_stage {items : List Item} {rest : List Tok} {state begun : ParseState} {cmd : Nat}
    (ends : Ends rest) (notFirst : ¬ RedirectionFirst items)
    (created : commandCreateExec state = (cmd, begun)) :
    exec (stageTokens items ++ rest) state =
      (stage cmd 0 cmd (stageTokens items ++ rest) begun >>= fun ended =>
        storeArg cmd ended.1 .null ended.2.state >>= fun after =>
          .ok ⟨ended.2.cmd, ended.2.cursor, after⟩) := by
  have stopped := redirects_stop cmd begun (head_of_stage ends notFirst)
  rw [exec, created, stage_eq, stopped, ok_bind]
  simp only
  rw [stopped, ok_bind]

theorem building_begun {state begun : ParseState} {cmd : Nat}
    (created : commandCreateExec state = (cmd, begun)) : Building state cmd cmd [] [] begun := by
  rw [commandCreateExec, allocNode] at created
  cases created
  constructor
  · exact Nat.le_refl _
  · exact List.prefix_append _ _
  · exact List.getElem?_concat_length
  · exact .bare
  · exact ⟨0, by simp⟩
  · rfl

theorem words_of_copies {items copies : List Item} (copied : copyItems items = .ok copies) :
    (wordsOf copies).length = (wordsOf items).length := by
  induction items generalizing copies with
  | nil =>
      cases copied
      rfl
  | cons item items ih =>
      obtain ⟨copy, others, first, remaining, rfl⟩ := copy_items_cons.mp copied
      have rest := ih remaining
      cases item with
      | word text =>
          obtain ⟨word, _, rfl⟩ := copy_item_word.mp first
          rw [words_of_word, words_of_word, List.length_cons, List.length_cons, rest]
      | redirect redirection =>
          obtain ⟨file, _, rfl⟩ := copy_item_redirect.mp first
          rw [words_of_redirect, words_of_redirect, rest]

theorem exec_built {items copies : List Item} {rest : List Tok} (state : ParseState)
    (ends : Ends rest) (notFirst : ¬ RedirectionFirst items)
    (copied : copyItems items = .ok copies) (room : (wordsOf items).length < maxargs) :
    ∃ cmd after, exec (stageTokens items ++ rest) state = .ok ⟨cmd, rest, after⟩ ∧
      Built state (stageTree copies) cmd after := by
  rcases created : commandCreateExec state with ⟨cmd, begun⟩
  obtain ⟨last, next, ran, building⟩ := stage_built (building_begun created) ends copied
    (by simpa using room)
  simp only [List.length_nil, List.nil_append] at ran building
  have room : (wordsOf copies).length < maxargs := by
    rw [words_of_copies copied]
    exact room
  obtain ⟨after, stored, finished⟩ := building_store building
    (by rw [length_argv_of (by omega)]; exact room) (argv_of_set_null room)
  refine ⟨last, after, ?_, ?_⟩
  · rw [exec_eq_stage ends notFirst created, ran, ok_bind]
    simp only
    rw [stored, ok_bind]
  · obtain ⟨count, stores⟩ := finished.stores
    constructor
    · exact finished.kept
    · exact represents_of_wrapped finished.wrapped (.exec finished.argv room)
    · refine ⟨_, stores, ?_⟩
      intro address member
      rw [(List.mem_replicate.mp member).2]
      exact ⟨_, finished.argv⟩
    · exact finished.printed

theorem one_stage_parsed {items copies : List Item} {line : Text}
    (written : WrittenAs (stageTokens items) line)
    (proper : ∀ token ∈ stageTokens items, Proper (strchr whitespaces) (strchr symbols) token)
    (notFirst : ¬ RedirectionFirst items) (copied : copyItems items = .ok copies)
    (room : (wordsOf items).length < maxargs) :
    ∃ cmd after, parseCommand line = .ok (cmd, after) ∧
      Built emptyState (stageTree copies) cmd after := by
  obtain ⟨cmd, after, ran, built⟩ := exec_built emptyState ends_of_line notFirst copied room
  rw [List.append_nil] at ran
  refine ⟨cmd, after, ?_, built⟩
  rw [parse_command_eq, cString_of_written written proper, tokens_of_written written proper,
    TokenParser.whole, pipeline_done ran, ok_bind]
  · exact if_neg (not_not.mpr rfl)
  · intro token member
    cases member

theorem stores_in_exec_trans {before middle after : ParseState}
    (first : StoresInExec before middle) (kept : middle.nodes <+: after.nodes)
    (second : StoresInExec middle after) : StoresInExec before after := by
  obtain ⟨stores, grown, inExec⟩ := first
  obtain ⟨more, grownMore, moreInExec⟩ := second
  refine ⟨stores ++ more, by rw [grownMore, grown, List.append_assoc], ?_⟩
  intro address member
  rcases List.mem_append.mp member with member | member
  · obtain ⟨argv, present⟩ := inExec address member
    exact ⟨argv, node_of_grown kept present⟩
  · exact moreInExec address member

theorem built_pipe {before middle after final : ParseState} {left right cmd : Nat}
    {leftTree rightTree : Command} (first : Built before leftTree left middle)
    (second : Built middle rightTree right after)
    (created : commandCreatePipe left right after = (cmd, final)) :
    Built before (.pipe leftTree rightTree) cmd final := by
  rw [commandCreatePipe, allocNode] at created
  cases created
  have grown : after.nodes <+: after.nodes ++ [.pipe (.node left) (.node right)] :=
    List.prefix_append _ _
  constructor
  · exact (first.kept.trans second.kept).trans grown
  · apply Represents.pipe
    · exact List.getElem?_concat_length
    · exact represents_of_grown (second.kept.trans grown) first.tree
    · exact represents_of_grown grown second.tree
  · obtain ⟨stores, together, inExec⟩ := stores_in_exec_trans first.stores second.kept second.stores
    refine ⟨stores, together, ?_⟩
    intro address member
    obtain ⟨argv, present⟩ := inExec address member
    exact ⟨argv, node_of_grown grown present⟩
  · exact second.printed.trans first.printed

end Sysprog.Shell.ParsedStages
