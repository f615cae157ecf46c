import Sysprog.Shell.Commands
import Mathlib.Algebra.Group.Nat.Defs
import Mathlib.Algebra.Group.Int.Defs

/-!
# The parser

`gettoken`, `peek`, `mkcopy` and the parse functions of `shell.c`. A pointer
into the line is what is left of the line from there on, so `ptr < end_str`
says that something is left and reading at the end gives the NUL. The loops
get the length of what is left as fuel.
-/

namespace Sysprog.Shell.LineParser

open Commands

set_option autoImplicit false

/-! The characters as bytes: space, `\t`, `\r`, `\n`, `\v`; `<`, `|`, `>`. -/

def whitespaces : List Byte := [32, 9, 13, 10, 11]
def inputSign : Byte := 60
def pipeSign : Byte := 124
def outputSign : Byte := 62
def symbols : List Byte := [inputSign, pipeSign, outputSign]

def strchr (set : List Byte) (byte : Byte) : Bool := set.contains byte || byte == 0

def deref (ptr : Text) : Byte := ptr.headD 0

def skipWhitespaces (ptr : Text) : Text := ptr.dropWhile (strchr whitespaces)

structure Gotten where
  tokType : TokenType
  outStr : Text
  endOutStr : Text
  cursor : Text

def gettoken (ptr : Text) : Gotten :=
  let ptr := skipWhitespaces ptr
  let (tokType, stop) :=
    if deref ptr = 0 then (TokenType.invalid, ptr)
    else if deref ptr = pipeSign then (.pipe, ptr.tail)
    else if deref ptr = inputSign then (.input, ptr.tail)
    else if deref ptr = outputSign then (.output, ptr.tail)
    else (.letter, ptr.dropWhile fun byte => !strchr whitespaces byte && !strchr symbols byte)
  ⟨tokType, ptr, stop, skipWhitespaces stop⟩

/-- Whether one of `toks` comes next, and the cursor past the whitespace. -/
def peek (ptr : Text) (toks : List Byte) : Bool × Text :=
  let s := skipWhitespaces ptr
  (deref s != 0 && strchr toks (deref s), s)

/-- The conversion of a pointer difference to `int`. -/
def toInt (difference : Int) : Int := Int.bmod difference (2 ^ 32)

/-- With a negative `n` `malloc` is asked for more than there is, and `n + 1`
must not overflow. -/
def mkcopy (s es : Text) : Except ParseExit Text :=
  let n := toInt (s.length - es.length)
  if 0 ≤ n ∧ n < 2 ^ 31 - 1 then .ok (s.take n.toNat) else .error .badCopy

structure Parsed (Cursor : Type) where
  cmd : Nat
  cursor : Cursor
  state : ParseState

def redirectsLoop : Nat → Nat → Text → ParseState → Except ParseExit (Parsed Text)
  | fuel, cmd, ptr, state =>
      let (found, ptr) := peek ptr [inputSign, outputSign]
      if found then
        match fuel with
        | 0 => .error .outOfFuel
        | fuel + 1 => do
            let first := gettoken ptr
            let second := gettoken first.cursor
            if second.tokType = .invalid then .error .noRedirectionArg
            else
              match first.tokType with
              | .input =>
                  let file ← mkcopy second.outStr second.endOutStr
                  let (cmd, state) := commandCreateRedirect cmd file .input state
                  redirectsLoop fuel cmd second.cursor state
              | .output =>
                  let file ← mkcopy second.outStr second.endOutStr
                  let (cmd, state) := commandCreateRedirect cmd file .output state
                  redirectsLoop fuel cmd second.cursor state
              | _ =>
                  redirectsLoop fuel cmd second.cursor
                    { state with stderr := state.stderr ++ ["Unknown tok type\n"] }
      else .ok ⟨cmd, ptr, state⟩

def parseRedirects (cmd : Nat) (ptr : Text) (state : ParseState) :
    Except ParseExit (Parsed Text) :=
  redirectsLoop ptr.length cmd ptr state

/-- The loop of `parse_exec`; `argc` is returned with the rest. -/
def execLoop : Nat → Nat → Nat → Nat → Text → ParseState →
    Except ParseExit (Nat × Parsed Text)
  | fuel, cmde, argc, cmd, ptr, state =>
      let (found, ptr) := peek ptr [pipeSign]
      if found then .ok (argc, ⟨cmd, ptr, state⟩)
      else
        let gotten := gettoken ptr
        if gotten.tokType = .invalid then .ok (argc, ⟨cmd, gotten.cursor, state⟩)
        else if gotten.tokType ≠ .letter then .error .syntaxError
        else
          match fuel with
          | 0 => .error .outOfFuel
          | fuel + 1 => do
              let word ← mkcopy gotten.outStr gotten.endOutStr
              let state ← storeArg cmde argc (.text word) state
              if argc + 1 ≥ maxargs then .error .tooManyArgs
              else
                let parsed ← parseRedirects cmd gotten.cursor state
                execLoop fuel cmde (argc + 1) parsed.cmd parsed.cursor parsed.state

/-- `cmde` is whatever the first `parse_redirects` returned. -/
def parseExec (ptr : Text) (state : ParseState) : Except ParseExit (Parsed Text) := do
  let (cmd, state) := commandCreateExec state
  let first ← parseRedirects cmd ptr state
  let cmde := first.cmd
  let (argc, last) ← execLoop first.cursor.length cmde 0 first.cmd first.cursor first.state
  let state ← storeArg cmde argc .null last.state
  .ok ⟨last.cmd, last.cursor, state⟩

def parsePipe : Nat → Text → ParseState → Except ParseExit (Parsed Text)
  | fuel, ptr, state => do
      let left ← parseExec ptr state
      let (found, ptr) := peek left.cursor [pipeSign]
      if found then
        match fuel with
        | 0 => .error .outOfFuel
        | fuel + 1 => do
            let right ← parsePipe fuel (gettoken ptr).cursor left.state
            let (cmd, state) := commandCreatePipe left.cmd right.cmd right.state
            .ok ⟨cmd, right.cursor, state⟩
      else .ok ⟨left.cmd, ptr, left.state⟩

def parseLine (ptr : Text) (state : ParseState) : Except ParseExit (Parsed Text) :=
  parsePipe ptr.length ptr state

/-- The line up to its NUL. -/
def cString (str : Text) : Text := str.takeWhile fun byte => byte != 0

def parseCommand (str : Text) : Except ParseExit (Nat × ParseState) := do
  let parsed ← parseLine (cString str) emptyState
  let (_, rest) := peek parsed.cursor []
  if rest ≠ [] then .error .symbolsRemained else .ok (parsed.cmd, parsed.state)

end Sysprog.Shell.LineParser
