import Sysprog.Shell.TokenParser

/-!
# The spans of a line

Repeated calls of `gettoken` from the start of a line, up to the call that
gives TOKEN_INVALID. The spans they report partition what is not whitespace.
-/

namespace Sysprog.Shell.TokenSpans

open Scanner Commands LineParser Tokens TokenParser

set_option autoImplicit false

/-- Repeated calls of `gettoken`: those that give a token, and the one that
gives TOKEN_INVALID. -/
inductive Called : Text → List Gotten → Gotten → Prop where
  | ended {ptr : Text} (invalid : (gettoken ptr).tokType = .invalid) : Called ptr [] (gettoken ptr)
  | more {ptr : Text} {gotten : List Gotten} {last : Gotten}
      (isToken : (gettoken ptr).tokType ≠ .invalid)
      (rest : Called (gettoken ptr).cursor gotten last) : Called ptr (gettoken ptr :: gotten) last

def spanText (gotten : Gotten) : Text :=
  gotten.outStr.take (gotten.outStr.length - gotten.endOutStr.length)

/-! A span as places in the line: a pointer is what is left of the line. -/

def startOf (chars : Text) (gotten : Gotten) : Nat := chars.length - gotten.outStr.length

def stopOf (chars : Text) (gotten : Gotten) : Nat := chars.length - gotten.endOutStr.length

def signOf : TokenType → Option Byte
  | .pipe => some pipeSign
  | .input => some inputSign
  | .output => some outputSign
  | _ => none

def Ends (byte : Byte) : Prop := byte ∈ whitespaces ∨ byte ∈ symbols

/-- A span without whitespace or symbols between two that are one or the other,
or the ends of the line. -/
structure MaximalWord (chars : Text) (gotten : Gotten) : Prop where
  letters : ∀ byte ∈ spanText gotten, ¬ Ends byte
  before : ∀ index byte, index + 1 = startOf chars gotten → chars[index]? = some byte → Ends byte
  after : ∀ byte, chars[stopOf chars gotten]? = some byte → Ends byte

structure Partitioned (chars : Text) (gotten : List Gotten) (last : Gotten) : Prop where
  atEnd : last.tokType = .invalid ∧ last.outStr = [] ∧ last.cursor = []
  inside : ∀ token ∈ gotten, startOf chars token < stopOf chars token ∧
    stopOf chars token ≤ chars.length ∧
    spanText token = (chars.drop (startOf chars token)).take
      (stopOf chars token - startOf chars token)
  ordered : gotten.Pairwise fun earlier later => stopOf chars earlier ≤ startOf chars later
  covered : ∀ index byte, chars[index]? = some byte →
    ((∃ token ∈ gotten, startOf chars token ≤ index ∧ index < stopOf chars token) ↔
      byte ∉ whitespaces)
  kinds : ∀ token ∈ gotten, (token.tokType = .letter ∧ MaximalWord chars token) ∨
    ∃ sign, signOf token.tokType = some sign ∧ spanText token = [sign]

/-! ## One call -/

theorem strchr_iff {set : List Byte} {byte : Byte} (notNul : byte ≠ 0) :
    strchr set byte = true ↔ byte ∈ set := by
  simp [strchr, notNul]

theorem plain_iff {byte : Byte} (notNul : byte ≠ 0) :
    plain (strchr whitespaces) (strchr symbols) byte = true ↔ ¬ Ends byte := by
  simp [plain, Ends, strchr, notNul]

theorem sign_of_symbol {tokType : TokenType} {sign : Byte} (kind : signOf tokType = some sign) :
    sign ∈ symbols ∧ sign ∉ whitespaces := by
  cases tokType <;> cases kind <;> decide

theorem blank_of_skipped {ptr : Text} {byte : Byte}
    (noNul : ∀ byte ∈ ptr, byte ≠ 0) (member : byte ∈ ptr.takeWhile (strchr whitespaces)) :
    byte ∈ whitespaces := by
  have inside := (List.takeWhile_prefix (strchr whitespaces)).subset member
  exact (strchr_iff (noNul byte inside)).mp (List.mem_takeWhile_imp member)

/-- A call that gives a token: whitespace, the token's text, and whitespace
again up to the cursor. -/
structure TokenAt (ptr : Text) (gotten : Gotten) (gap text skipped : Text) : Prop where
  chars : ptr = gap ++ (text ++ (skipped ++ gotten.cursor))
  blanks : ∀ byte ∈ gap, byte ∈ whitespaces
  skippedBlanks : ∀ byte ∈ skipped, byte ∈ whitespaces
  outStr : gotten.outStr = text ++ (skipped ++ gotten.cursor)
  endOutStr : gotten.endOutStr = skipped ++ gotten.cursor
  nonempty : text ≠ []
  kind : (gotten.tokType = .letter ∧ (∀ byte ∈ text, ¬ Ends byte) ∧
      ∀ byte ∈ (skipped ++ gotten.cursor).head?, Ends byte) ∨
    ∃ sign, signOf gotten.tokType = some sign ∧ text = [sign]

theorem gettoken_ended {ptr : Text} (noNul : ∀ byte ∈ ptr, byte ≠ 0)
    (invalid : (gettoken ptr).tokType = .invalid) :
    (∀ byte ∈ ptr, byte ∈ whitespaces) ∧ (gettoken ptr).outStr = [] ∧
      (gettoken ptr).cursor = [] := by
  rcases next_cases ptr with ⟨_, left⟩ | ⟨symbol, rest, _, _, _, found⟩ | ⟨symbol, rest, _, _, _, found⟩
  · refine ⟨?_, ?_, ?_⟩
    · intro byte member
      have blank := List.dropWhile_eq_nil_iff.mp left byte member
      exact (strchr_iff (noNul byte member)).mp blank
    · simp only [gettoken, left]
    · simp only [gettoken, left]
      rfl
  · rw [(gettoken_some found).1] at invalid
    exact absurd invalid (typeOf_ne_invalid (.sign symbol))
  · rw [(gettoken_some found).1] at invalid
    cases invalid

theorem skipped_blanks {ptr : Text} (noNul : ∀ byte ∈ ptr, byte ≠ 0) :
    ∃ skipped, ptr = skipped ++ skipWhitespaces ptr ∧ ∀ byte ∈ skipped, byte ∈ whitespaces :=
  ⟨ptr.takeWhile (strchr whitespaces), List.takeWhile_append_dropWhile.symm,
    fun _ member => blank_of_skipped noNul member⟩

theorem gettoken_sign {ptr rest : Text} {symbol : Byte} (left : skipWhitespaces ptr = symbol :: rest)
    (notNul : symbol ≠ 0) (isSign : strchr symbols symbol = true) :
    ∃ tokType, signOf tokType = some symbol ∧
      gettoken ptr = ⟨tokType, symbol :: rest, rest, skipWhitespaces rest⟩ := by
  rcases sign_cases isSign notNul with rfl | rfl | rfl
  · exact ⟨.input, rfl, by simp only [gettoken, left, deref_cons]; rfl⟩
  · exact ⟨.pipe, rfl, by simp only [gettoken, left, deref_cons]; rfl⟩
  · exact ⟨.output, rfl, by simp only [gettoken, left, deref_cons]; rfl⟩

theorem gettoken_word {ptr rest : Text} {symbol : Byte} (left : skipWhitespaces ptr = symbol :: rest)
    (notNul : symbol ≠ 0) (notSign : strchr symbols symbol = false) :
    gettoken ptr = ⟨.letter, symbol :: rest,
      (symbol :: rest).dropWhile (plain (strchr whitespaces) (strchr symbols)),
      skipWhitespaces
        ((symbol :: rest).dropWhile (plain (strchr whitespaces) (strchr symbols)))⟩ := by
  have others : symbol ≠ inputSign ∧ symbol ≠ pipeSign ∧ symbol ≠ outputSign := by
    refine ⟨?_, ?_, ?_⟩
    all_goals
      intro same
      rw [same] at notSign
      cases notSign
  simp only [gettoken, left, deref_cons, if_neg notNul, if_neg others.1, if_neg others.2.1,
    if_neg others.2.2]
  rfl

/-- A word goes up to the first character that ends one. -/
theorem word_split {symbol : Byte} {rest : Text} (noNul : ∀ byte ∈ symbol :: rest, byte ≠ 0)
    (isPlain : plain (strchr whitespaces) (strchr symbols) symbol = true) :
    ∃ text after, symbol :: rest = text ++ after ∧
      (symbol :: rest).dropWhile (plain (strchr whitespaces) (strchr symbols)) = after ∧
      text ≠ [] ∧ (∀ byte ∈ text, ¬ Ends byte) ∧ ∀ byte ∈ after.head?, Ends byte := by
  have whole := @List.takeWhile_append_dropWhile _
    (plain (strchr whitespaces) (strchr symbols)) (symbol :: rest)
  refine ⟨_, _, whole.symm, rfl, ?_, ?_, ?_⟩
  · rw [List.takeWhile_cons_of_pos isPlain]
    exact List.cons_ne_nil _ _
  · intro byte member
    have notNul := noNul byte ((List.takeWhile_prefix _).subset member)
    exact (plain_iff notNul).mp (List.mem_takeWhile_imp member)
  · intro byte first
    have notNul := noNul byte ((List.dropWhile_suffix _).subset (List.mem_of_head? first))
    have stopped := List.head?_dropWhile_not
      (plain (strchr whitespaces) (strchr symbols)) (symbol :: rest)
    rw [Option.mem_def.mp first] at stopped
    have notPlain : plain (strchr whitespaces) (strchr symbols) byte = false := stopped
    by_contra plainByte
    rw [(plain_iff notNul).mpr plainByte] at notPlain
    cases notPlain

section PassedOver

variable {ptr gap rest : Text} {symbol : Byte}

theorem token_of_sign (left : skipWhitespaces ptr = symbol :: rest)
    (noNul : ∀ byte ∈ symbol :: rest, byte ≠ 0) (split : ptr = gap ++ symbol :: rest)
    (blanks : ∀ byte ∈ gap, byte ∈ whitespaces) (isSign : strchr symbols symbol = true) :
    ∃ text skipped, TokenAt ptr (gettoken ptr) gap text skipped := by
  have inRest : ∀ byte ∈ rest, byte ≠ 0 :=
    fun byte member => noNul byte (List.mem_cons_of_mem _ member)
  obtain ⟨skipped, restSplit, skippedBlanks⟩ := skipped_blanks inRest
  obtain ⟨tokType, kind, gotten⟩ := gettoken_sign left (noNul symbol List.mem_cons_self) isSign
  refine ⟨[symbol], skipped, ?_⟩
  rw [gotten]
  constructor
  · rw [← restSplit]
    exact split
  · exact blanks
  · exact skippedBlanks
  · rw [← restSplit]
    rfl
  · exact restSplit
  · exact List.cons_ne_nil _ _
  · exact .inr ⟨symbol, kind, rfl⟩

theorem token_of_word (left : skipWhitespaces ptr = symbol :: rest)
    (noNul : ∀ byte ∈ symbol :: rest, byte ≠ 0) (split : ptr = gap ++ symbol :: rest)
    (blanks : ∀ byte ∈ gap, byte ∈ whitespaces) (notSign : strchr symbols symbol = false) :
    ∃ text skipped, TokenAt ptr (gettoken ptr) gap text skipped := by
  have isPlain : plain (strchr whitespaces) (strchr symbols) symbol = true := by
    simp [plain, head_not_of_dropWhile left, notSign]
  have gotten := gettoken_word left (noNul symbol List.mem_cons_self) notSign
  obtain ⟨text, after, whole, dropped, nonempty, letters, stops⟩ := word_split noNul isPlain
  rw [dropped] at gotten
  have inAfter : ∀ byte ∈ after, byte ≠ 0 := by
    intro byte member
    apply noNul byte
    rw [whole]
    exact List.mem_append_right _ member
  obtain ⟨skipped, afterSplit, skippedBlanks⟩ := skipped_blanks inAfter
  refine ⟨text, skipped, ?_⟩
  rw [gotten]
  constructor
  · rw [← afterSplit, ← whole]
    exact split
  · exact blanks
  · exact skippedBlanks
  · rw [← afterSplit]
    exact whole
  · exact afterSplit
  · exact nonempty
  · rw [← afterSplit]
    exact .inl ⟨rfl, letters, stops⟩

end PassedOver

/-- A call that gives a token splits what it passes over. -/
theorem gettoken_token {ptr : Text} (noNul : ∀ byte ∈ ptr, byte ≠ 0)
    (isToken : (gettoken ptr).tokType ≠ .invalid) :
    ∃ gap text skipped, TokenAt ptr (gettoken ptr) gap text skipped := by
  obtain ⟨gap, split, blanks⟩ := skipped_blanks noNul
  cases left : skipWhitespaces ptr with
  | nil =>
      have invalid : (gettoken ptr).tokType = .invalid := by
        simp only [gettoken, left]
        rfl
      exact absurd invalid isToken
  | cons symbol rest =>
      rw [left] at split
      have inside : ∀ byte ∈ symbol :: rest, byte ≠ 0 := by
        intro byte member
        apply noNul byte
        rw [split]
        exact List.mem_append_right _ member
      cases isSign : strchr symbols symbol with
      | true => exact ⟨gap, token_of_sign left inside split blanks isSign⟩
      | false => exact ⟨gap, token_of_word left inside split blanks isSign⟩

/-! ## All calls -/

theorem part_of_place {done gap text skipped rest : Text} {index : Nat} {byte : Byte}
    (behind : done.length ≤ index)
    (entry : (done ++ (gap ++ (text ++ (skipped ++ rest))))[index]? = some byte) :
    (index < done.length + gap.length ∧ byte ∈ gap) ∨
      (done.length + gap.length ≤ index ∧ index < done.length + gap.length + text.length ∧
        byte ∈ text) ∨
      (done.length + gap.length + text.length ≤ index ∧
        index < done.length + gap.length + text.length + skipped.length ∧ byte ∈ skipped) ∨
      done.length + gap.length + text.length + skipped.length ≤ index := by
  rw [List.getElem?_append_right behind] at entry
  by_cases inGap : index - done.length < gap.length
  · rw [List.getElem?_append_left inGap] at entry
    exact .inl ⟨by omega, List.mem_of_getElem? entry⟩
  rw [List.getElem?_append_right (by omega)] at entry
  by_cases inText : index - done.length - gap.length < text.length
  · rw [List.getElem?_append_left inText] at entry
    exact .inr (.inl ⟨by omega, by omega, List.mem_of_getElem? entry⟩)
  rw [List.getElem?_append_right (by omega)] at entry
  by_cases inSkipped : index - done.length - gap.length - text.length < skipped.length
  · rw [List.getElem?_append_left inSkipped] at entry
    exact .inr (.inr (.inl ⟨by omega, by omega, List.mem_of_getElem? entry⟩))
  · exact .inr (.inr (.inr (by omega)))

def Bounded (done ptr : Text) : Prop :=
  (∀ byte ∈ done.getLast?, Ends byte) ∨ ∀ byte ∈ ptr.head?, Ends byte

/-- The calls from a place on partition the rest of the line. -/
structure PartitionedFrom (chars : Text) (place : Nat) (gotten : List Gotten) (last : Gotten) :
    Prop where
  atEnd : last.tokType = .invalid ∧ last.outStr = [] ∧ last.cursor = []
  inside : ∀ token ∈ gotten, place ≤ startOf chars token ∧ startOf chars token < stopOf chars token ∧
    stopOf chars token ≤ chars.length ∧
    spanText token = (chars.drop (startOf chars token)).take
      (stopOf chars token - startOf chars token)
  ordered : gotten.Pairwise fun earlier later => stopOf chars earlier ≤ startOf chars later
  covered : ∀ index byte, place ≤ index → chars[index]? = some byte →
    ((∃ token ∈ gotten, startOf chars token ≤ index ∧ index < stopOf chars token) ↔
      byte ∉ whitespaces)
  kinds : ∀ token ∈ gotten, (token.tokType = .letter ∧ MaximalWord chars token) ∨
    ∃ sign, signOf token.tokType = some sign ∧ spanText token = [sign]

section FirstToken

variable {done ptr gap text skipped : Text} {gotten : Gotten}

theorem start_of_token (token : TokenAt ptr gotten gap text skipped) :
    startOf (done ++ ptr) gotten = done.length + gap.length := by
  rw [startOf, token.outStr, token.chars]
  simp only [List.length_append]
  omega

theorem stop_of_token (token : TokenAt ptr gotten gap text skipped) :
    stopOf (done ++ ptr) gotten = done.length + gap.length + text.length := by
  rw [stopOf, token.endOutStr, token.chars]
  simp only [List.length_append]
  omega

theorem span_of_token (token : TokenAt ptr gotten gap text skipped) : spanText gotten = text := by
  rw [spanText, token.outStr, token.endOutStr, List.length_append, Nat.add_sub_cancel,
    List.take_left]

theorem bounded_after (token : TokenAt ptr gotten gap text skipped) :
    Bounded (done ++ (gap ++ (text ++ skipped))) gotten.cursor := by
  rcases List.eq_nil_or_concat skipped with none | ⟨blanks, blank, some⟩
  · subst none
    rw [List.append_nil]
    rcases token.kind with ⟨_, _, stops⟩ | ⟨sign, kind, isSign⟩
    · exact .inr stops
    · left
      intro byte isLast
      rw [isSign, ← List.append_assoc, List.getLast?_append_of_ne_nil _ (List.cons_ne_nil _ _)] at isLast
      cases isLast
      exact .inr (sign_of_symbol kind).1
  · left
    intro byte isLast
    rw [some, List.concat_eq_append, ← List.append_assoc, ← List.append_assoc, ← List.append_assoc,
      List.getLast?_concat] at isLast
    cases isLast
    left
    apply token.skippedBlanks
    rw [some, List.concat_eq_append]
    exact List.mem_append_right _ List.mem_cons_self

theorem maximal_of_token (token : TokenAt ptr gotten gap text skipped) (bounded : Bounded done ptr)
    (letters : ∀ byte ∈ text, ¬ Ends byte)
    (stops : ∀ byte ∈ (skipped ++ gotten.cursor).head?, Ends byte) :
    MaximalWord (done ++ ptr) gotten := by
  constructor
  · rw [span_of_token token]
    exact letters
  · intro index byte isBefore entry
    rw [start_of_token token] at isBefore
    by_cases inGap : done.length ≤ index
    · rw [token.chars] at entry
      rcases part_of_place inGap entry with ⟨_, member⟩ | ⟨_, _, _⟩ | ⟨_, _, _⟩ | _
      · exact .inl (token.blanks byte member)
      all_goals omega
    · have noGap : gap = [] := List.length_eq_zero_iff.mp (by omega)
      rw [List.getElem?_append_left (by omega)] at entry
      rcases bounded with isEnd | isEnd
      · apply isEnd
        rw [List.getLast?_eq_getElem?]
        have last : done.length - 1 = index := by omega
        rw [last]
        exact entry
      · obtain ⟨first, others, isText⟩ := List.exists_cons_of_ne_nil token.nonempty
        have isFirst : first ∈ ptr.head? := by
          rw [token.chars, noGap, isText]
          exact rfl
        exact absurd (isEnd first isFirst) (letters first (by rw [isText]; exact List.mem_cons_self))
  · intro byte entry
    apply stops
    rw [stop_of_token token, token.chars] at entry
    rw [List.head?_eq_getElem?]
    rw [List.getElem?_append_right (by omega), List.getElem?_append_right (by omega),
      List.getElem?_append_right (by omega)] at entry
    have zero : done.length + gap.length + text.length - done.length - gap.length - text.length = 0 := by
      omega
    rw [zero] at entry
    exact entry

theorem text_not_blank (token : TokenAt ptr gotten gap text skipped) :
    ∀ byte ∈ text, byte ∉ whitespaces := by
  intro byte member
  rcases token.kind with ⟨_, letters, _⟩ | ⟨sign, kind, isSign⟩
  · exact fun blank => letters byte member (.inl blank)
  · rw [isSign] at member
    rw [List.mem_singleton.mp member]
    exact (sign_of_symbol kind).2

theorem inside_of_token (token : TokenAt ptr gotten gap text skipped) :
    done.length ≤ startOf (done ++ ptr) gotten ∧
      startOf (done ++ ptr) gotten < stopOf (done ++ ptr) gotten ∧
      stopOf (done ++ ptr) gotten ≤ (done ++ ptr).length ∧
      spanText gotten = ((done ++ ptr).drop (startOf (done ++ ptr) gotten)).take
        (stopOf (done ++ ptr) gotten - startOf (done ++ ptr) gotten) := by
  have long : 0 < text.length := List.length_pos_iff.mpr token.nonempty
  rw [start_of_token token, stop_of_token token, span_of_token token]
  refine ⟨by omega, by omega, ?_, ?_⟩
  · rw [token.chars]
    simp only [List.length_append]
    omega
  · have count : done.length + gap.length + text.length - (done.length + gap.length) =
        text.length := by omega
    rw [token.chars, count, ← List.append_assoc, ← List.length_append, List.drop_left,
      List.take_left]

section Following

variable {others : List Gotten} {last : Gotten} {index : Nat}

/-- The first call covers its text, and the calls after it cover places behind
what it passed over. -/
theorem covers_cons (token : TokenAt ptr gotten gap text skipped)
    (rest : PartitionedFrom (done ++ ptr)
      (done.length + gap.length + text.length + skipped.length) others last) :
    (∃ other ∈ gotten :: others,
      startOf (done ++ ptr) other ≤ index ∧ index < stopOf (done ++ ptr) other) ↔
      (done.length + gap.length ≤ index ∧ index < done.length + gap.length + text.length) ∨
        (done.length + gap.length + text.length + skipped.length ≤ index ∧ ∃ other ∈ others,
          startOf (done ++ ptr) other ≤ index ∧ index < stopOf (done ++ ptr) other) := by
  simp only [List.mem_cons, or_and_right, exists_or, exists_eq_left, start_of_token token,
    stop_of_token token]
  constructor
  · intro covers
    rcases covers with first | ⟨other, later, before, after⟩
    · exact .inl first
    · have behind := (rest.inside other later).1
      exact .inr ⟨by omega, other, later, before, after⟩
  · intro covers
    exact covers.imp_right And.right

theorem covered_more {byte : Byte} (token : TokenAt ptr gotten gap text skipped)
    (rest : PartitionedFrom (done ++ ptr)
      (done.length + gap.length + text.length + skipped.length) others last)
    (behind : done.length ≤ index) (entry : (done ++ ptr)[index]? = some byte) :
    (∃ other ∈ gotten :: others,
      startOf (done ++ ptr) other ≤ index ∧ index < stopOf (done ++ ptr) other) ↔
      byte ∉ whitespaces := by
  have parted := entry
  rw [token.chars] at parted
  rw [covers_cons token rest]
  rcases part_of_place behind parted with ⟨inGap, member⟩ | ⟨behindGap, inText, member⟩ |
    ⟨behindText, inSkipped, member⟩ | beyond
  · refine iff_of_false ?_ (not_not.mpr (token.blanks byte member))
    intro covers
    rcases covers with first | ⟨later, _⟩ <;> omega
  · exact iff_of_true (.inl ⟨behindGap, inText⟩) (text_not_blank token byte member)
  · refine iff_of_false ?_ (not_not.mpr (token.skippedBlanks byte member))
    intro covers
    rcases covers with first | ⟨later, _⟩ <;> omega
  · rw [← rest.covered index byte beyond entry]
    constructor
    · intro covers
      rcases covers with first | later
      · omega
      · exact later.2
    · intro later
      exact .inr ⟨beyond, later⟩

theorem partitioned_more (token : TokenAt ptr gotten gap text skipped) (bounded : Bounded done ptr)
    (rest : PartitionedFrom (done ++ ptr)
      (done.length + gap.length + text.length + skipped.length) others last) :
    PartitionedFrom (done ++ ptr) done.length (gotten :: others) last := by
  have stop := @stop_of_token done ptr gap text skipped gotten token
  constructor
  · exact rest.atEnd
  · intro other member
    rcases List.mem_cons.mp member with same | later
    · rw [same]
      exact inside_of_token token
    · obtain ⟨behind, others⟩ := rest.inside other later
      exact ⟨by omega, others⟩
  · refine List.pairwise_cons.mpr ⟨?_, rest.ordered⟩
    intro other later
    have behind := (rest.inside other later).1
    omega
  · intro index byte behind entry
    exact covered_more token rest behind entry
  · intro other member
    rcases List.mem_cons.mp member with same | later
    · subst same
      rcases token.kind with ⟨letter, letters, stops⟩ | ⟨sign, kind, isSign⟩
      · exact .inl ⟨letter, maximal_of_token token bounded letters stops⟩
      · exact .inr ⟨sign, kind, by rw [span_of_token token, isSign]⟩
    · exact rest.kinds other later

end Following

end FirstToken

theorem partitioned_from {ptr : Text} {gotten : List Gotten} {last : Gotten}
    (called : Called ptr gotten last) {done : Text} (noNul : ∀ byte ∈ ptr, byte ≠ 0)
    (bounded : Bounded done ptr) : PartitionedFrom (done ++ ptr) done.length gotten last := by
  induction called generalizing done with
  | @ended ptr invalid =>
      obtain ⟨blanks, outStr, cursor⟩ := gettoken_ended noNul invalid
      constructor
      · exact ⟨invalid, outStr, cursor⟩
      · intro token member
        cases member
      · exact List.Pairwise.nil
      · intro index byte behind entry
        rw [List.getElem?_append_right behind] at entry
        refine iff_of_false ?_ (not_not.mpr (blanks byte (List.mem_of_getElem? entry)))
        intro covers
        obtain ⟨token, member, _⟩ := covers
        cases member
      · intro token member
        cases member
  | @more ptr gotten last isToken rest ih =>
      obtain ⟨gap, text, skipped, token⟩ := gettoken_token noNul isToken
      have later : ∀ byte ∈ (gettoken ptr).cursor, byte ≠ 0 := by
        intro byte member
        apply noNul byte
        rw [token.chars]
        simp [member]
      have others := ih later (@bounded_after done _ _ _ _ _ token)
      have place : (done ++ (gap ++ (text ++ skipped))).length =
          done.length + gap.length + text.length + skipped.length := by
        simp only [List.length_append]
        omega
      have chars : done ++ (gap ++ (text ++ skipped)) ++ (gettoken ptr).cursor = done ++ ptr := by
        conv_rhs => rw [token.chars]
        simp only [List.append_assoc]
      rw [place, chars] at others
      exact partitioned_more token bounded others

theorem called_exists (ptr : Text) : ∃ gotten last, Called ptr gotten last := by
  induction length : ptr.length using Nat.strong_induction_on generalizing ptr with
  | _ size ih =>
      by_cases invalid : (gettoken ptr).tokType = .invalid
      · exact ⟨[], _, .ended invalid⟩
      · cases found : nextToken ptr with
        | none => exact absurd (gettoken_none found).1 invalid
        | some pair =>
            rcases pair with ⟨token, rest⟩
            have moved := (gettoken_some found).2.2
            have shorter := next_shorter found
            obtain ⟨gotten, last, called⟩ := ih rest.length (by omega) rest rfl
            rw [← moved] at called
            exact ⟨_, last, .more invalid called⟩

/-- On every line the calls end, at its end, and their spans partition what is
not whitespace into signs and longest words. -/
theorem spans_partition_line (chars : Text) :
    ∃ gotten last, Called (cString chars) gotten last ∧
      Partitioned (cString chars) gotten last := by
  obtain ⟨gotten, last, called⟩ := called_exists (cString chars)
  have noNul : ∀ byte ∈ cString chars, byte ≠ 0 := by
    intro byte member
    simpa using List.mem_takeWhile_imp member
  have bounded : Bounded [] (cString chars) := .inl nofun
  have parts := partitioned_from called noNul bounded
  rw [List.nil_append] at parts
  refine ⟨gotten, last, called, ?_⟩
  constructor
  · exact parts.atEnd
  · intro token member
    exact (parts.inside token member).2
  · exact parts.ordered
  · intro index byte entry
    exact parts.covered index byte (Nat.zero_le _) entry
  · exact parts.kinds

end Sysprog.Shell.TokenSpans
