import Sysprog.Shell.ParsedStages

/-!
# The place of a redirection

`parse_exec` stores the words of a stage through `cmde`, which it sets after
its first `parse_redirects`. A stage that begins with a redirection has its
words stored over the fields of that redirection.
-/

namespace Sysprog.Shell.RedirectionPlaces

open CheckedRuns Scanner Commands LineParser Tokens TokenParser Pipelines ParsedStages

set_option autoImplicit false

structure StandsAt (items : List Item) (rest : List Tok) (ptr : Text) : Prop where
  written : WrittenAs (stageTokens items ++ rest) ptr
  names : ∀ item ∈ items, Name item.text
  proper : ∀ token ∈ rest, Proper (strchr whitespaces) (strchr symbols) token
  ends : Ends rest

/-- `parse_exec` returns this tree, and none of its stores to `argv` went into
another kind of struct. -/
def BuildsTree (ptr : Text) (state : ParseState) (tree : Command) : Prop :=
  ∃ parsed, parseExec ptr state = .ok parsed ∧
    Represents parsed.state.nodes parsed.cmd tree ∧ StoresInExec state parsed.state

theorem tokens_of_stands {items : List Item} {rest : List Tok} {ptr : Text}
    (stands : StandsAt items rest ptr) : lineTokens ptr = stageTokens items ++ rest := by
  apply tokens_of_written stands.written
  intro token member
  rcases List.mem_append.mp member with member | member
  · exact proper_stage stands.names token member
  · exact stands.proper token member

/-! ## Structs keep their kind -/

def IsRedirectNode (state : ParseState) (address : Nat) : Prop :=
  ∃ cmd file mode fd, state.nodes[address]? = some (.redirect cmd file mode fd)

/-- Redirections stay redirections, and what was stored stays recorded. -/
def Keeps (before after : ParseState) : Prop :=
  (∀ address, IsRedirectNode before address → IsRedirectNode after address) ∧
    before.stores <+: after.stores

theorem keeps_refl (state : ParseState) : Keeps state state :=
  ⟨fun _ kind => kind, List.prefix_refl _⟩

theorem keeps_trans {before middle after : ParseState} (first : Keeps before middle)
    (second : Keeps middle after) : Keeps before after :=
  ⟨fun address kind => second.1 address (first.1 address kind), first.2.trans second.2⟩

theorem store_into_redirect {cmd file : Pointer} {mode fd : IntField} {index : Nat}
    {pointer : Pointer} {changed : Node}
    (stored : storeInto (.redirect cmd file mode fd) index pointer = .ok changed) :
    ∃ cmd file mode fd, changed = .redirect cmd file mode fd := by
  match index, stored with
  | 0, stored =>
      cases stored
      exact ⟨_, _, _, _, rfl⟩
  | 1, stored =>
      cases stored
      exact ⟨_, _, _, _, rfl⟩
  | 2, stored =>
      cases stored
      exact ⟨_, _, _, _, rfl⟩

theorem keeps_store {cmde index : Nat} {pointer : Pointer} {state next : ParseState}
    (stored : storeArg cmde index pointer state = .ok next) :
    Keeps state next ∧ next.stores = state.stores ++ [cmde] := by
  unfold storeArg at stored
  cases present : state.nodes[cmde]? with
  | none =>
      rw [present] at stored
      cases stored
  | some node =>
      rw [present] at stored
      simp only [bind_eq_ok] at stored
      obtain ⟨changed, into, done⟩ := stored
      cases done
      refine ⟨⟨?_, List.prefix_append _ _⟩, rfl⟩
      intro address isRedirect
      obtain ⟨cmd, file, mode, fd, redirect⟩ := isRedirect
      by_cases same : address = cmde
      · subst same
        rw [present] at redirect
        cases redirect
        obtain ⟨cmd, file, mode, fd, rfl⟩ := store_into_redirect into
        have bound := (List.getElem?_eq_some_iff.mp present).1
        exact ⟨cmd, file, mode, fd, List.getElem?_set_self bound⟩
      · refine ⟨cmd, file, mode, fd, ?_⟩
        rw [List.getElem?_set_ne (Ne.symm same), redirect]

theorem keeps_redirect {subcmd cmd : Nat} {file : Text} {mode : TokenType}
    {state next : ParseState} (created : commandCreateRedirect subcmd file mode state = (cmd, next)) :
    Keeps state next ∧ IsRedirectNode next cmd := by
  rw [commandCreateRedirect, allocNode] at created
  cases created
  refine ⟨⟨?_, List.prefix_refl _⟩, ⟨_, _, _, _, List.getElem?_concat_length⟩⟩
  intro address isRedirect
  obtain ⟨cmd, file, mode, fd, redirect⟩ := isRedirect
  exact ⟨cmd, file, mode, fd, node_of_grown (List.prefix_append _ _) redirect⟩

theorem keeps_redirects {cmd : Nat} {toks : List Tok} {state : ParseState}
    {parsed : Parsed (List Tok)} (done : redirects cmd toks state = .ok parsed)
    (kind : IsRedirectNode state cmd) :
    Keeps state parsed.state ∧ IsRedirectNode parsed.state parsed.cmd := by
  induction cmd, toks, state using redirects.induct with
  | case1 cmd state =>
      cases done
      exact ⟨keeps_refl state, kind⟩
  | case2 cmd token state isRedir =>
      rw [redirects, if_pos isRedir] at done
      cases done
  | case3 cmd token state other =>
      rw [redirects, if_neg other] at done
      cases done
      exact ⟨keeps_refl state, kind⟩
  | case4 cmd token file rest state isRedir ih =>
      rw [redirects, if_pos isRedir, bind_eq_ok] at done
      obtain ⟨text, _, done⟩ := done
      obtain ⟨kept, made⟩ := @keeps_redirect cmd _ text (typeOf token) state _ rfl
      obtain ⟨keptMore, kindMore⟩ := ih _ _ done made
      exact ⟨keeps_trans kept keptMore, kindMore⟩
  | case5 cmd token file rest state other =>
      rw [redirects, if_neg other] at done
      cases done
      exact ⟨keeps_refl state, kind⟩

theorem keeps_stage {cmde argc cmd : Nat} {toks : List Tok} {state : ParseState}
    {ended : Nat × Parsed (List Tok)} (done : stage cmde argc cmd toks state = .ok ended) :
    Keeps state ended.2.state := by
  induction argc, cmd, toks, state using stage.induct with
  | case1 argc cmd state =>
      cases done
      exact keeps_refl state
  | case2 argc cmd text rest state ih =>
      rw [stage, bind_eq_ok] at done
      obtain ⟨word, _, done⟩ := done
      rw [bind_eq_ok] at done
      obtain ⟨next, stored, done⟩ := done
      split_ifs at done
      exact keeps_trans (keeps_store stored).1 (ih next done)
  | case3 argc cmd symbol state isRedir =>
      rw [stage, if_pos isRedir] at done
      cases done
  | case4 argc cmd symbol state other =>
      rw [stage, if_neg other] at done
      cases done
      exact keeps_refl state
  | case5 argc cmd symbol file rest state isRedir ih =>
      rw [stage, if_pos isRedir, bind_eq_ok] at done
      obtain ⟨text, _, done⟩ := done
      have kept := @keeps_redirect cmd _ text (typeOf (.sign symbol)) state _ rfl
      exact keeps_trans kept.1 (ih _ _ done)
  | case6 argc cmd symbol file rest state other =>
      rw [stage, if_neg other] at done
      cases done
      exact keeps_refl state

theorem keeps_after_redirects {cmde argc : Nat} {parsed : Parsed (List Tok)}
    {ended : Nat × Parsed (List Tok)} (done : afterRedirects cmde argc parsed = .ok ended) :
    Keeps parsed.state ended.2.state := by
  rcases parsed with ⟨cmd, cursor, state⟩
  cases cursor with
  | nil =>
      cases done
      exact keeps_refl state
  | cons token rest =>
      cases token with
      | word text =>
          have notRedirect : isRedirect (.word text) = false := rfl
          rw [← stage_none notRedirect] at done
          exact keeps_stage done
      | sign symbol =>
          simp only [afterRedirects] at done
          split_ifs at done
          cases done
          exact keeps_refl state

/-- With a redirection first, the NULL that ends `argv` goes into it. -/
theorem stores_of_redirection_first {items : List Item} {rest : List Tok} {state : ParseState}
    {parsed : Parsed (List Tok)} (first : RedirectionFirst items)
    (done : exec (stageTokens items ++ rest) state = .ok parsed) :
    ¬ StoresInExec state parsed.state := by
  obtain ⟨redirection, items, rfl⟩ := first
  obtain ⟨isRedir, _, _⟩ := redirect_of_type redirection
  rcases created : commandCreateExec state with ⟨cmd, begun⟩
  have beganStores : begun.stores = state.stores := by
    rw [commandCreateExec, allocNode] at created
    cases created
    rfl
  rw [stage_tokens_redirect, List.cons_append, List.cons_append, exec, created] at done
  simp only [bind_eq_ok] at done
  obtain ⟨opened, wrapped, ended, looped, after, stored, done⟩ := done
  cases done
  rw [redirects, if_pos isRedir, bind_eq_ok] at wrapped
  obtain ⟨file, _, wrapped⟩ := wrapped
  have made := @keeps_redirect cmd _ file (typeOf (.sign redirection.sign)) begun _ rfl
  have around := keeps_redirects wrapped made.2
  have looped := keeps_after_redirects looped
  have last := keeps_store stored
  have kept := keeps_trans (keeps_trans made.1 around.1) looped
  intro storesInExec
  obtain ⟨stores, grown, inExec⟩ := storesInExec
  obtain ⟨middle, between⟩ := kept.2
  have tail : stores = middle ++ [opened.cmd] := by
    rw [last.2, ← between, beganStores, List.append_assoc] at grown
    exact (List.append_cancel_left grown).symm
  obtain ⟨argv, present⟩ := inExec opened.cmd (by simp [tail])
  obtain ⟨sub, name, mode, fd, redirect⟩ := last.1.1 _ (looped.1 _ around.2)
  rw [present] at redirect
  cases redirect

/-! ## What a stage that was parsed must have been -/

theorem stage_copied {items : List Item} {rest : List Tok} {cmde argc cmd : Nat}
    {state : ParseState} {ended : Nat × Parsed (List Tok)} (room : argc < maxargs)
    (done : stage cmde argc cmd (stageTokens items ++ rest) state = .ok ended) :
    ∃ copies, copyItems items = .ok copies ∧ argc + (wordsOf items).length < maxargs := by
  induction items generalizing argc cmd state with
  | nil => exact ⟨[], rfl, room⟩
  | cons item items ih =>
      cases item with
      | word text =>
          rw [stage_tokens_word, List.cons_append, stage, bind_eq_ok] at done
          obtain ⟨word, copied, done⟩ := done
          rw [bind_eq_ok] at done
          obtain ⟨next, stored, done⟩ := done
          split_ifs at done with many
          obtain ⟨copies, others, more⟩ := ih (by omega) done
          have first := copy_item_word.mpr ⟨word, copied, rfl⟩
          refine ⟨_, copy_items_cons.mpr ⟨_, copies, first, others, rfl⟩, ?_⟩
          rw [words_of_word, List.length_cons]
          omega
      | redirect redirection =>
          obtain ⟨isRedir, _, _⟩ := redirect_of_type redirection
          rw [stage_tokens_redirect, List.cons_append, List.cons_append, stage, if_pos isRedir,
            bind_eq_ok] at done
          obtain ⟨file, copied, done⟩ := done
          obtain ⟨copies, others, more⟩ := ih room done
          have first := copy_item_redirect.mpr ⟨file, copied, rfl⟩
          exact ⟨_, copy_items_cons.mpr ⟨_, copies, first, others, rfl⟩, more⟩

theorem exec_copied {items : List Item} {rest : List Tok} {state : ParseState}
    {parsed : Parsed (List Tok)} (ends : Ends rest) (notFirst : ¬ RedirectionFirst items)
    (done : exec (stageTokens items ++ rest) state = .ok parsed) :
    ∃ copies, copyItems items = .ok copies ∧ (wordsOf items).length < maxargs := by
  rcases created : commandCreateExec state with ⟨cmd, begun⟩
  rw [exec_eq_stage ends notFirst created, bind_eq_ok] at done
  obtain ⟨ended, ran, _⟩ := done
  obtain ⟨copies, copied, room⟩ := stage_copied (by decide) ran
  exact ⟨copies, copied, by omega⟩

theorem copy_text_length {text copy : Text} (copied : copyText text = .ok copy) :
    copy.length < 2 ^ 31 - 1 := by
  simp only [copyText, mkcopy] at copied
  split_ifs at copied with inside
  have taken := Except.ok.inj copied
  rw [← taken, List.length_take]
  have bound := inside.2
  generalize toInt (↑text.length - ↑([] : Text).length) = count at *
  omega

def textsOf : Command → List Text
  | .exec argv => argv
  | .pipe left right => textsOf left ++ textsOf right
  | .redirect cmd file _ _ => textsOf cmd ++ [file]

theorem texts_of_stage (items : List Item) (text : Text) :
    text ∈ textsOf (stageTree items) ↔ ∃ item ∈ items, item.text = text := by
  have wrapped : ∀ (command : Command) (redirections : List Redirection),
      textsOf (wrap command redirections) = textsOf command ++ redirections.map Redirection.file := by
    intro command redirections
    induction redirections generalizing command with
    | nil => exact (List.append_nil _).symm
    | cons redirection redirections ih =>
        have step := ih (.redirect command redirection.file redirection.mode redirection.fd)
        simp only [textsOf, List.append_assoc] at step
        exact step
  rw [stageTree, wrapped, textsOf, List.mem_append, wordsOf, redirectionsOf]
  constructor
  · rintro (word | file)
    · obtain ⟨item, member, same⟩ := List.mem_filterMap.mp word
      cases item with
      | word other => exact ⟨_, member, Option.some.inj same⟩
      | redirect redirection => cases same
    · obtain ⟨redirection, inside, same⟩ := List.mem_map.mp file
      obtain ⟨item, member, found⟩ := List.mem_filterMap.mp inside
      cases item with
      | word other => cases found
      | redirect other =>
          cases found
          exact ⟨_, member, same⟩
  · rintro ⟨item, member, rfl⟩
    cases item with
    | word other => exact .inl (List.mem_filterMap.mpr ⟨_, member, rfl⟩)
    | redirect redirection =>
        exact .inr (List.mem_map.mpr ⟨redirection, List.mem_filterMap.mpr ⟨_, member, rfl⟩, rfl⟩)

theorem short_copies {items copies : List Item} (copied : copyItems items = .ok copies) :
    ∀ item ∈ copies, item.text.length < 2 ^ 31 - 1 := by
  induction items generalizing copies with
  | nil =>
      cases copied
      rintro item ⟨⟩
  | cons item items ih =>
      obtain ⟨copy, others, first, remaining, rfl⟩ := copy_items_cons.mp copied
      intro one member
      rcases List.mem_cons.mp member with rfl | member
      · exact copy_text_length (copy_item_text first)
      · exact ih remaining one member

/-! ## Two interleavings of one stage -/

theorem parse_exec_of_stands {items : List Item} {rest : List Tok} {ptr : Text}
    {state : ParseState} (stands : StandsAt items rest ptr) :
    (parseExec ptr state).map onTokens = exec (stageTokens items ++ rest) state := by
  rw [parse_exec_eq, tokens_of_stands stands]

theorem exec_of_parse_exec {items : List Item} {rest : List Tok} {ptr : Text}
    {state : ParseState} {parsed : Parsed Text} (stands : StandsAt items rest ptr)
    (done : parseExec ptr state = .ok parsed) :
    exec (stageTokens items ++ rest) state = .ok (onTokens parsed) := by
  rw [← parse_exec_of_stands stands, done, Except.map]

theorem not_built_of_redirection_first {items : List Item} {rest : List Tok} {ptr : Text}
    {state : ParseState} (tree : Command) (stands : StandsAt items rest ptr)
    (first : RedirectionFirst items) : ¬ BuildsTree ptr state tree := by
  rintro ⟨parsed, done, _, stores⟩
  exact stores_of_redirection_first first (exec_of_parse_exec stands done) stores

theorem built_of_not_first {items copies : List Item} {rest : List Tok} {ptr : Text}
    {state : ParseState} (stands : StandsAt items rest ptr) (notFirst : ¬ RedirectionFirst items)
    (copied : copyItems items = .ok copies) (room : (wordsOf items).length < maxargs) :
    BuildsTree ptr state (stageTree copies) := by
  obtain ⟨cmd, after, ran, built⟩ := exec_built state stands.ends notFirst copied room
  have same : (parseExec ptr state).map onTokens = _ := parse_exec_of_stands stands
  rw [ran] at same
  cases done : parseExec ptr state with
  | error halt =>
      rw [done] at same
      cases same
  | ok parsed =>
      rw [done, Except.map] at same
      cases same
      exact ⟨parsed, done, built.tree, built.stores⟩

theorem texts_of_same {items others : List Item} (words : wordsOf others = wordsOf items)
    (redirections : redirectionsOf others = redirectionsOf items) (text : Text) :
    (∃ item ∈ others, item.text = text) ↔ ∃ item ∈ items, item.text = text := by
  rw [← texts_of_stage, ← texts_of_stage, stageTree, stageTree, words, redirections]

/-- Two accepted ways to write the same words and redirections give one tree
exactly when neither begins with a redirection and `mkcopy` copies every text. -/
theorem same_tree_iff_no_redirection_first {items others : List Item} {rest otherRest : List Tok}
    {ptr otherPtr : Text} {state otherState : ParseState} (stands : StandsAt items rest ptr)
    (otherStands : StandsAt others otherRest otherPtr)
    (words : wordsOf others = wordsOf items)
    (redirections : redirectionsOf others = redirectionsOf items)
    (accepted : ∃ parsed, parseExec ptr state = .ok parsed) :
    (BuildsTree ptr state (stageTree items) ∧ BuildsTree otherPtr otherState (stageTree items)) ↔
      ¬ RedirectionFirst items ∧ ¬ RedirectionFirst others ∧
        ∀ item ∈ items, item.text.length < 2 ^ 31 - 1 := by
  constructor
  · intro both
    have notFirst : ¬ RedirectionFirst items :=
      fun first => not_built_of_redirection_first _ stands first both.1
    have otherNotFirst : ¬ RedirectionFirst others :=
      fun first => not_built_of_redirection_first _ otherStands first both.2
    refine ⟨notFirst, otherNotFirst, ?_⟩
    obtain ⟨parsed, done, tree, _⟩ := both.1
    obtain ⟨copies, copied, room⟩ := exec_copied stands.ends notFirst
      (exec_of_parse_exec stands done)
    have built : BuildsTree ptr state (stageTree copies) :=
      built_of_not_first stands notFirst copied room
    obtain ⟨again, redone, copyTree, _⟩ := built
    rw [done] at redone
    cases redone
    have same := represents_unique tree copyTree
    intro item member
    have inTree := (texts_of_stage items item.text).mpr ⟨item, member, rfl⟩
    rw [same] at inTree
    obtain ⟨copy, present, text⟩ := (texts_of_stage copies item.text).mp inTree
    rw [← text]
    exact short_copies copied copy present
  · intro condition
    obtain ⟨notFirst, otherNotFirst, short⟩ := condition
    obtain ⟨parsed, done⟩ := accepted
    obtain ⟨copies, copied, room⟩ := exec_copied stands.ends notFirst
      (exec_of_parse_exec stands done)
    have otherShort : ∀ item ∈ others, item.text.length < 2 ^ 31 - 1 := by
      intro item member
      obtain ⟨same, present, text⟩ := (texts_of_same words redirections item.text).mp
        ⟨item, member, rfl⟩
      rw [← text]
      exact short same present
    have otherTree : stageTree others = stageTree items := by
      rw [stageTree, stageTree, words, redirections]
    constructor
    · exact built_of_not_first stands notFirst (copy_items_of_short short) room
    · rw [← otherTree]
      exact built_of_not_first otherStands otherNotFirst (copy_items_of_short otherShort)
        (by rw [words]; exact room)

/-! ## The lines `a<f b`, `a b<f` and `<f a` -/

def fromF : Item := .redirect ⟨false, [102]⟩

theorem inner_redirection_stands :
    StandsAt [.word [97], fromF, .word [98]] [] [97, 60, 102, 32, 98] := by
  constructor
  · exact @Renders.token _ _ (.word [97]) _ [] [60, 102, 32, 98] no_whitespace trivial
      (@Renders.token _ _ (.sign 60) _ [] [102, 32, 98] no_whitespace trivial
        (@Renders.token _ _ (.word [102]) _ [] [32, 98] no_whitespace ⟨32, [98], rfl, rfl⟩
          (@Renders.token _ _ (.word [98]) _ [32] [] one_space trivial (.done no_whitespace))))
  · simp [fromF, Item.text, Name, whitespaces, symbols, inputSign, outputSign, pipeSign]
  · intro token member
    cases member
  · exact ends_of_line

theorem last_redirection_stands :
    StandsAt [.word [97], .word [98], fromF] [] [97, 32, 98, 60, 102] := by
  constructor
  · exact @Renders.token _ _ (.word [97]) _ [] [32, 98, 60, 102] no_whitespace
      ⟨32, [98, 60, 102], rfl, rfl⟩
      (@Renders.token _ _ (.word [98]) _ [32] [60, 102] one_space trivial
        (@Renders.token _ _ (.sign 60) _ [] [102] no_whitespace trivial
          (@Renders.token _ _ (.word [102]) _ [] [] no_whitespace trivial (.done no_whitespace))))
  · simp [fromF, Item.text, Name, whitespaces, symbols, inputSign, outputSign, pipeSign]
  · intro token member
    cases member
  · exact ends_of_line

theorem inner_and_last_redirection_same :
    BuildsTree [97, 60, 102, 32, 98] emptyState (.redirect (.exec [[97], [98]]) [102] oRdonly 0) ∧
      BuildsTree [97, 32, 98, 60, 102] emptyState
        (.redirect (.exec [[97], [98]]) [102] oRdonly 0) := by
  have notFirst : ¬ RedirectionFirst [.word [97], fromF, .word [98]] := by
    intro first
    obtain ⟨_, _, same⟩ := first
    cases same
  have otherNotFirst : ¬ RedirectionFirst [.word [97], .word [98], fromF] := by
    intro first
    obtain ⟨_, _, same⟩ := first
    cases same
  have short : ∀ item ∈ [.word [97], fromF, .word [98]], item.text.length < 2 ^ 31 - 1 := by
    simp [fromF, Item.text]
  have built : BuildsTree [97, 60, 102, 32, 98] emptyState _ :=
    built_of_not_first inner_redirection_stands notFirst (copy_items_of_short short) (by decide)
  obtain ⟨parsed, accepted, _⟩ := built
  exact (same_tree_iff_no_redirection_first inner_redirection_stands last_redirection_stands rfl rfl
    ⟨parsed, accepted⟩).mpr ⟨notFirst, otherNotFirst, short⟩

theorem redirection_last_stands : StandsAt [.word [97], fromF] [] [97, 60, 102] := by
  constructor
  · exact @Renders.token _ _ (.word [97]) _ [] [60, 102] no_whitespace trivial
      (@Renders.token _ _ (.sign 60) _ [] [102] no_whitespace trivial
        (@Renders.token _ _ (.word [102]) _ [] [] no_whitespace trivial (.done no_whitespace)))
  · simp [fromF, Item.text, Name, whitespaces, symbols, inputSign, outputSign, pipeSign]
  · intro token member
    cases member
  · exact ends_of_line

theorem redirection_first_stands : StandsAt [fromF, .word [97]] [] [60, 102, 32, 97] := by
  constructor
  · exact @Renders.token _ _ (.sign 60) _ [] [102, 32, 97] no_whitespace trivial
      (@Renders.token _ _ (.word [102]) _ [] [32, 97] no_whitespace ⟨32, [97], rfl, rfl⟩
        (@Renders.token _ _ (.word [97]) _ [32] [] one_space trivial (.done no_whitespace)))
  · simp [fromF, Item.text, Name, whitespaces, symbols, inputSign, outputSign, pipeSign]
  · intro token member
    cases member
  · exact ends_of_line

theorem redirection_first_overwritten :
    (∃ cmd after, parseCommand [97, 60, 102] = .ok (cmd, after)) ∧
      StandsAt [.word [97], fromF] [] [97, 60, 102] ∧
      StandsAt [fromF, .word [97]] [] [60, 102, 32, 97] ∧
      ¬ BuildsTree [60, 102, 32, 97] emptyState (stageTree [.word [97], fromF]) := by
  refine ⟨?_, redirection_last_stands, redirection_first_stands, ?_⟩
  · have notFirst : ¬ RedirectionFirst [.word [97], fromF] := by
      intro first
      obtain ⟨_, _, same⟩ := first
      cases same
    have written := redirection_last_stands.written
    rw [List.append_nil] at written
    obtain ⟨cmd, after, parsed, _⟩ := one_stage_parsed written
      (proper_stage redirection_last_stands.names) notFirst
      (copy_items_of_short (by simp [fromF, Item.text])) (by decide)
    exact ⟨cmd, after, parsed⟩
  · exact not_built_of_redirection_first _ redirection_first_stands ⟨_, _, rfl⟩

/-- The struct that `parse_exec` returns for `<f a`: its sub-command is the
word and its file name is NULL. -/
example : (parseExec [60, 102, 32, 97] emptyState).map (fun parsed =>
    parsed.state.nodes[parsed.cmd]?) =
      .ok (some (.redirect (.text [97]) .null (.value oRdonly) (.value 0))) := by
  decide +kernel

end Sysprog.Shell.RedirectionPlaces
