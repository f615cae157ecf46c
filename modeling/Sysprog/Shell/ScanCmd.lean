import Sysprog.Shell.LineParser

/-!
# Reading lines

`scan_cmd` of `shell.c` on an array of `len` bytes, and what a caller gets that
calls it until it returns -1. Input is cut after each newline and after every
`len - 1` bytes without one.
-/

namespace Sysprog.Shell.ScanCmd

open Commands LineParser

set_option autoImplicit false

def newline : Byte := 10

def prompt : String := "shell $: "

/-- Whether `stdin` is a terminal, its bytes up to the end of the file, and
what was printed to `stdout`. -/
structure Console where
  terminal : Bool
  input : Text
  stdout : List String
  deriving DecidableEq

def takeLine : Nat → Text → Text × Text
  | 0, input => ([], input)
  | _ + 1, [] => ([], [])
  | room + 1, byte :: input =>
      if byte = newline then ([byte], input)
      else (byte :: (takeLine room input).1, (takeLine room input).2)

/-- At the end of the file the array stays as it is. -/
def fgets (str : Text) (len : Nat) (input : Text) : Text × Text :=
  if len = 0 ∨ input = [] then (str, input)
  else
    let line := takeLine (len - 1) input
    (line.1 ++ 0 :: str.drop (line.1.length + 1), line.2)

def memset (str : Text) (byte : Byte) (len : Nat) : Text := List.replicate len byte ++ str.drop len

structure Scanned where
  result : Int
  str : Text
  console : Console
  deriving DecidableEq

def scanCmd (str : Text) (len : Nat) (console : Console) : Scanned :=
  let stdout := if console.terminal then console.stdout ++ [prompt] else console.stdout
  let read := fgets (memset str 0 len) len console.input
  ⟨if deref read.1 = 0 then -1 else 0, read.1, { console with input := read.2, stdout := stdout }⟩

/-- A caller that calls `scan_cmd` until it returns -1 and may do with the
array what it likes in between. -/
inductive Reads (len : Nat) : Text → Console → List Text → Console → Prop where
  | ended {str : Text} {console : Console} (stops : (scanCmd str len console).result = -1) :
      Reads len str console [] (scanCmd str len console).console
  | line {str other : Text} {console last : Console} {strs : List Text}
      (goesOn : (scanCmd str len console).result = 0) (size : other.length = len)
      (later : Reads len other (scanCmd str len console).console strs last) :
      Reads len str console ((scanCmd str len console).str :: strs) last

def OneLine (piece : Text) : Prop := newline ∉ piece.dropLast

def Complete (room : Nat) (piece rest : Text) : Prop :=
  piece.getLast? = some newline ∨ piece.length = room ∨ rest = []

inductive Cut (room : Nat) : List Text → Text → Prop where
  | done : Cut room [] []
  | piece {first rest : Text} {pieces : List Text} (nonempty : first ≠ [])
      (fits : first.length ≤ room) (oneLine : OneLine first)
      (complete : Complete room first rest) (later : Cut room pieces rest) :
      Cut room (first :: pieces) (first ++ rest)

def padded (len : Nat) (piece : Text) : Text := piece ++ List.replicate (len - piece.length) 0

/-- The caller cannot tell such a piece from the end of the file. -/
def startsWithNul (piece : Text) : Bool := deref piece = 0

/-! ## Pieces -/

theorem take_line_of_piece {room : Nat} {first rest : Text} (nonempty : first ≠ [])
    (fits : first.length ≤ room) (oneLine : OneLine first) (complete : Complete room first rest) :
    takeLine room (first ++ rest) = (first, rest) := by
  induction first generalizing room with
  | nil => exact absurd rfl nonempty
  | cons byte tail ih =>
      cases room with
      | zero => exact absurd fits (Nat.not_succ_le_zero _)
      | succ room =>
          rw [List.cons_append, takeLine]
          cases tail with
          | nil =>
              by_cases isNewline : byte = newline
              · rw [if_pos isNewline, List.nil_append]
              rw [if_neg isNewline, List.nil_append]
              have ended : takeLine room rest = ([], rest) := by
                rcases complete with last | full | nothing
                · exact absurd (Option.some.inj last) isNewline
                · have none : room = 0 := (Nat.succ.inj full).symm
                  rw [none, takeLine]
                · rw [nothing]
                  cases room <;> rfl
              rw [ended]
          | cons next tail =>
              have notNewline : byte ≠ newline := by
                intro same
                apply oneLine
                rw [List.dropLast_cons_cons, same]
                exact List.mem_cons_self
              have tailOneLine : OneLine (next :: tail) := by
                intro member
                apply oneLine
                rw [List.dropLast_cons_cons]
                exact List.mem_cons_of_mem _ member
              have tailComplete : Complete room (next :: tail) rest := by
                rcases complete with last | full | nothing
                · exact .inl (List.getLast?_cons_cons ▸ last)
                · exact .inr (.inl (Nat.succ.inj full))
                · exact .inr (.inr nothing)
              rw [if_neg notNewline, ih (List.cons_ne_nil _ _) (Nat.le_of_succ_le_succ fits)
                tailOneLine tailComplete]

theorem piece_of_take_line (room : Nat) (input : Text) (nonempty : input ≠ []) (some : 0 < room) :
    ∃ first rest, input = first ++ rest ∧ first ≠ [] ∧ first.length ≤ room ∧ OneLine first ∧
      Complete room first rest := by
  induction input generalizing room with
  | nil => exact absurd rfl nonempty
  | cons byte input ih =>
      by_cases isNewline : byte = newline
      · exact ⟨[byte], input, rfl, List.cons_ne_nil _ _, some, List.not_mem_nil,
          .inl (congrArg Option.some isNewline)⟩
      by_cases one : room = 1
      · exact ⟨[byte], input, rfl, List.cons_ne_nil _ _, some, List.not_mem_nil, .inr (.inl one.symm)⟩
      by_cases nothing : input = []
      · exact ⟨[byte], input, rfl, List.cons_ne_nil _ _, some, List.not_mem_nil,
          .inr (.inr nothing)⟩
      obtain ⟨first, rest, whole, firstNonempty, fits, oneLine, complete⟩ :=
        ih (room - 1) nothing (by omega)
      refine ⟨byte :: first, rest, by rw [whole, List.cons_append], List.cons_ne_nil _ _, ?_, ?_, ?_⟩
      · rw [List.length_cons]
        omega
      · rw [OneLine, List.dropLast_cons_of_ne_nil firstNonempty]
        intro member
        rcases List.mem_cons.mp member with same | later
        · exact isNewline same.symm
        · exact oneLine later
      · rcases complete with last | full | nothing
        · left
          rw [List.getLast?_cons, last]
          rfl
        · right
          left
          rw [List.length_cons]
          omega
        · exact .inr (.inr nothing)

theorem exists_cut {room : Nat} (some : 0 < room) (input : Text) :
    ∃ pieces, Cut room pieces input := by
  induction length : input.length using Nat.strongRecOn generalizing input with
  | _ size ih =>
      by_cases nothing : input = []
      · exact ⟨[], nothing ▸ .done⟩
      obtain ⟨first, rest, whole, nonempty, fits, oneLine, complete⟩ :=
        piece_of_take_line room input nothing some
      have shorter : rest.length < size := by
        have positive := List.length_pos_iff.mpr nonempty
        rw [← length, whole, List.length_append]
        omega
      obtain ⟨pieces, later⟩ := ih rest.length shorter rest rfl
      exact ⟨first :: pieces, whole ▸ .piece nonempty fits oneLine complete later⟩

theorem flatten_of_cut {room : Nat} {pieces : List Text} {input : Text}
    (cut : Cut room pieces input) : pieces.flatten = input := by
  induction cut with
  | done => rfl
  | piece nonempty fits oneLine complete later ih => rw [List.flatten_cons, ih]

/-! ## One call -/

theorem scan_at_end {len : Nat} (room : 2 ≤ len) (str : Text) {console : Console}
    (ended : console.input = []) :
    (scanCmd str len console).result = -1 ∧
      (scanCmd str len console).console.input = [] := by
  have zero : deref (memset str 0 len) = 0 := by
    cases len with
    | zero => omega
    | succ len => rfl
  simp only [scanCmd, fgets, ended, or_true, if_true, zero, and_self]

theorem scan_of_piece {len : Nat} (room : 2 ≤ len) {str : Text} (size : str.length = len)
    {console : Console} {first rest : Text} (whole : console.input = first ++ rest)
    (nonempty : first ≠ []) (fits : first.length ≤ len - 1) (oneLine : OneLine first)
    (complete : Complete (len - 1) first rest) :
    (scanCmd str len console).result = (if startsWithNul first then -1 else 0) ∧
      (scanCmd str len console).str = padded len first ∧
      (scanCmd str len console).console.input = rest := by
  have taken := take_line_of_piece nonempty fits oneLine complete
  have going : ¬ (len = 0 ∨ console.input = []) := by
    rw [whole, List.append_eq_nil_iff]
    intro either
    rcases either with none | empty
    · omega
    · exact nonempty empty.1
  have zeros : memset str 0 len = List.replicate len 0 := by
    rw [memset, List.drop_eq_nil_of_le (Nat.le_of_eq size), List.append_nil]
  have stored : fgets (memset str 0 len) len console.input = (padded len first, rest) := by
    have left : len - first.length = len - (first.length + 1) + 1 := by omega
    rw [fgets, if_neg going, whole, taken, zeros]
    dsimp only
    rw [List.drop_replicate, padded, left, List.replicate_succ]
  have start : deref (padded len first) = deref first := by
    obtain ⟨byte, tail, rfl⟩ := List.exists_cons_of_ne_nil nonempty
    rfl
  simp only [scanCmd, stored, start, startsWithNul, decide_eq_true_eq, and_self]

/-! ## Calls until -1 -/

def prompted (console : Console) (calls : Nat) : List String :=
  console.stdout ++ if console.terminal then List.replicate calls prompt else []

/-- The pieces handed out, up to the first that starts with a NUL, and what is
left of the input after the last call. -/
structure HandsOut (len : Nat) (pieces : List Text) (console : Console) (strs : List Text)
    (last : Console) : Prop where
  handed : strs = (pieces.takeWhile fun piece => !startsWithNul piece).map (padded len)
  left : last.input = ((pieces.dropWhile fun piece => !startsWithNul piece).drop 1).flatten
  prompts : last.stdout = prompted console (strs.length + 1)

theorem scan_console (str : Text) (len : Nat) (console : Console) :
    (scanCmd str len console).console.terminal = console.terminal ∧
      (scanCmd str len console).console.stdout = prompted console 1 := by
  rcases console with ⟨terminal, input, stdout⟩
  cases terminal with
  | true => exact ⟨rfl, rfl⟩
  | false => exact ⟨rfl, (List.append_nil _).symm⟩

theorem prompted_after (str : Text) (len : Nat) (console : Console) (calls : Nat) :
    prompted (scanCmd str len console).console calls = prompted console (calls + 1) := by
  obtain ⟨terminal, printed⟩ := scan_console str len console
  rw [prompted, terminal, printed, prompted, prompted, List.append_assoc]
  cases console.terminal with
  | true => rfl
  | false => rfl

/-- The induction is on the calls; each takes the first of the pieces left. -/
theorem hands_out_of_cut {len : Nat} (room : 2 ≤ len) {str : Text} (size : str.length = len)
    {console last : Console} {pieces strs : List Text} (cut : Cut (len - 1) pieces console.input)
    (reads : Reads len str console strs last) : HandsOut len pieces console strs last := by
  induction reads generalizing pieces with
  | @ended str console stops =>
      have prompts := (scan_console str len console).2
      generalize whole : console.input = input at cut
      cases cut with
      | done => exact ⟨rfl, (scan_at_end room str whole).2, prompts⟩
      | @piece first rest pieces nonempty fits oneLine complete later =>
          obtain ⟨result, _, left⟩ := scan_of_piece room size whole nonempty fits oneLine complete
          have nul : startsWithNul first = true := by
            rw [stops] at result
            by_contra notNul
            rw [if_neg notNul] at result
            cases result
          refine ⟨?_, ?_, prompts⟩
          · rw [List.takeWhile_cons_of_neg (by simp [nul]), List.map_nil]
          · rw [List.dropWhile_cons_of_neg (by simp [nul]), List.drop_one, List.tail_cons,
              flatten_of_cut later, left]
  | @line str other console last strs goesOn otherSize later ih =>
      generalize whole : console.input = input at cut
      cases cut with
      | done =>
          have stops := (scan_at_end room str whole).1
          rw [goesOn] at stops
          cases stops
      | @piece first rest pieces nonempty fits oneLine complete others =>
          obtain ⟨result, stored, left⟩ :=
            scan_of_piece room size whole nonempty fits oneLine complete
          have notNul : startsWithNul first = false := by
            rw [goesOn] at result
            by_contra nul
            rw [if_pos (by simpa using nul)] at result
            cases result
          obtain ⟨handed, remaining, prompts⟩ := ih otherSize (left ▸ others)
          refine ⟨?_, ?_, ?_⟩
          · rw [List.takeWhile_cons_of_pos (by simp [notNul]), List.map_cons, handed, stored]
          · rw [List.dropWhile_cons_of_pos (by simp [notNul]), remaining]
          · rw [prompts, prompted_after, List.length_cons]

theorem exists_reads {len : Nat} (room : 2 ≤ len) {str : Text} (size : str.length = len)
    {console : Console} {pieces : List Text} (cut : Cut (len - 1) pieces console.input) :
    ∃ strs last, Reads len str console strs last := by
  generalize whole : console.input = input at cut
  induction cut generalizing console str with
  | done => exact ⟨[], _, .ended (scan_at_end room str whole).1⟩
  | @piece first rest pieces nonempty fits oneLine complete later ih =>
      obtain ⟨result, stored, left⟩ := scan_of_piece room size whole nonempty fits oneLine complete
      by_cases nul : startsWithNul first = true
      · rw [if_pos nul] at result
        exact ⟨[], _, .ended result⟩
      · rw [if_neg nul] at result
        obtain ⟨strs, last, reads⟩ := ih size left
        exact ⟨_, last, .line result size reads⟩

/-- Every input is read to its end in such pieces, or to the first of them that
starts with a NUL. -/
theorem input_read_in_pieces {len : Nat} (room : 2 ≤ len) {str : Text} (size : str.length = len)
    (console : Console) :
    ∃ pieces, Cut (len - 1) pieces console.input ∧
      (∃ strs last, Reads len str console strs last) ∧
      ∀ strs last, Reads len str console strs last → HandsOut len pieces console strs last := by
  obtain ⟨pieces, cut⟩ := exists_cut (Nat.sub_pos_of_lt room) console.input
  exact ⟨pieces, cut, exists_reads room size cut, fun _ _ => hands_out_of_cut room size cut⟩

theorem long_line_read_in_pieces :
    ∃ pieces, Cut 3 pieces [97, 98, 99, 100, 10, 101] ∧
      (∃ strs last, Reads 4 [0, 0, 0, 0] ⟨true, [97, 98, 99, 100, 10, 101], []⟩ strs last) ∧
      ∀ strs last, Reads 4 [0, 0, 0, 0] ⟨true, [97, 98, 99, 100, 10, 101], []⟩ strs last →
        HandsOut 4 pieces ⟨true, [97, 98, 99, 100, 10, 101], []⟩ strs last :=
  @input_read_in_pieces 4 (by decide) [0, 0, 0, 0] rfl ⟨true, [97, 98, 99, 100, 10, 101], []⟩

end Sysprog.Shell.ScanCmd
