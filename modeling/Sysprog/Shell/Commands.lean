import Mathlib.Data.List.Basic

/-!
# Command trees in memory

The structs of `shell.h` as `malloc` hands them out, in the layout of a
machine with 8-byte pointers and 4-byte ints. `parse_exec` may store an
argument through a pointer of the wrong type, so what such a store does to
each struct is part of the model. A `char *` made by `mkcopy` is its text.
-/

namespace Sysprog.Shell.Commands

set_option autoImplicit false

abbrev Byte := UInt8

abbrev Text := List Byte

def maxargs : Nat := 6

inductive TokenType where
  | invalid
  | letter
  | pipe
  | input
  | output
  deriving DecidableEq

/-! The flags of `open`. -/

def oRdonly : Nat := 0
def oWronly : Nat := 1
def oCreat : Nat := 64
def oTrunc : Nat := 512

inductive Pointer where
  | null
  | text (bytes : Text)
  | node (address : Nat)
  deriving DecidableEq

/-- An `int` field: a value, or the lower or upper half of a pointer that was
stored over it. -/
inductive IntField where
  | value (value : Nat)
  | half (pointer : Pointer) (upper : Bool)
  deriving DecidableEq

def halfOf (pointer : Pointer) (upper : Bool) : IntField :=
  match pointer with
  | .null => .value 0
  | _ => .half pointer upper

inductive Node where
  | exec (argv : List Pointer)
  | pipe (left right : Pointer)
  | redirect (cmd file : Pointer) (mode fd : IntField)
  deriving DecidableEq

/-- How a line can end the shell. The last three are no calls of `exit`:
`mkcopy` is asked for a length that is no positive `int`, a store is outside
its struct, or a loop does not end. -/
inductive ParseExit where
  | noRedirectionArg
  | tooManyArgs
  | syntaxError
  | symbolsRemained
  | badCopy
  | outOfRange
  | outOfFuel
  deriving DecidableEq

/-- What is printed before `exit(-1)`. The last one prints from the end of the
line and so never shows what remained. -/
def ParseExit.message : ParseExit → Option String
  | .noRedirectionArg => some "no redirection arg\n"
  | .tooManyArgs => some "too many args\n"
  | .syntaxError => some "syntax error\n"
  | .symbolsRemained => some "Symbols remained: \n"
  | _ => none

/-- The structs allocated so far, what was printed, and the structs the
stores to `argv` went into. -/
structure ParseState where
  nodes : List Node
  stderr : List String
  stores : List Nat
  deriving DecidableEq

def emptyState : ParseState := ⟨[], [], []⟩

def allocNode (node : Node) (state : ParseState) : Nat × ParseState :=
  (state.nodes.length, { state with nodes := state.nodes ++ [node] })

def commandCreateExec (state : ParseState) : Nat × ParseState :=
  allocNode (.exec (List.replicate maxargs .null)) state

def commandCreatePipe (left right : Nat) (state : ParseState) : Nat × ParseState :=
  allocNode (.pipe (.node left) (.node right)) state

def redirectMode (mode : TokenType) : Nat :=
  if mode = .input then oRdonly else oWronly ||| oCreat ||| oTrunc

def redirectFd (mode : TokenType) : Nat := if mode = .input then 0 else 1

def commandCreateRedirect (subcmd : Nat) (file : Text) (mode : TokenType) (state : ParseState) :
    Nat × ParseState :=
  allocNode (.redirect (.node subcmd) (.text file) (.value (redirectMode mode))
    (.value (redirectFd mode))) state

/-- `((command_exec *)cmd)->argv[index] = pointer` for whatever struct is
there: `argv` starts at the second word, where a `command_redirect` has its
sub-command, file, and mode with descriptor. -/
def storeInto (node : Node) (index : Nat) (pointer : Pointer) : Except ParseExit Node :=
  match node, index with
  | .exec argv, index =>
      if index < argv.length then .ok (.exec (argv.set index pointer)) else .error .outOfRange
  | .redirect _ file mode fd, 0 => .ok (.redirect pointer file mode fd)
  | .redirect cmd _ mode fd, 1 => .ok (.redirect cmd pointer mode fd)
  | .redirect cmd file _ _, 2 => .ok (.redirect cmd file (halfOf pointer false) (halfOf pointer true))
  | .redirect _ _ _ _, _ => .error .outOfRange
  | .pipe _ right, 0 => .ok (.pipe pointer right)
  | .pipe left _, 1 => .ok (.pipe left pointer)
  | .pipe _ _, _ => .error .outOfRange

def storeArg (cmde index : Nat) (pointer : Pointer) (state : ParseState) :
    Except ParseExit ParseState :=
  match state.nodes[cmde]? with
  | none => .error .outOfRange
  | some node => do
      let changed ← storeInto node index pointer
      .ok { state with
        nodes := state.nodes.set cmde changed
        stores := state.stores ++ [cmde] }

/-- A command tree as it should be read. -/
inductive Command where
  | exec (argv : List Text)
  | pipe (left right : Command)
  | redirect (cmd : Command) (file : Text) (mode fd : Nat)
  deriving DecidableEq

def argvOf (words : List Text) : List Pointer :=
  words.map .text ++ List.replicate (maxargs - words.length) .null

/-- The structs at an address are a command tree. -/
inductive Represents (nodes : List Node) : Nat → Command → Prop where
  | exec {address : Nat} {argv : List Text} (present : nodes[address]? = some (.exec (argvOf argv)))
      (terminated : argv.length < maxargs) : Represents nodes address (.exec argv)
  | pipe {address left right : Nat} {leftCommand rightCommand : Command}
      (present : nodes[address]? = some (.pipe (.node left) (.node right)))
      (leftTree : Represents nodes left leftCommand)
      (rightTree : Represents nodes right rightCommand) :
      Represents nodes address (.pipe leftCommand rightCommand)
  | redirect {address cmd mode fd : Nat} {file : Text} {command : Command}
      (present : nodes[address]? =
        some (.redirect (.node cmd) (.text file) (.value mode) (.value fd)))
      (tree : Represents nodes cmd command) :
      Represents nodes address (.redirect command file mode fd)

theorem argv_of_injective {words others : List Text} (same : argvOf words = argvOf others) :
    words = others := by
  have texts : ∀ list : List Text, (argvOf list).filterMap
      (fun pointer => match pointer with | .text bytes => some bytes | _ => none) = list := by
    intro list
    simp [argvOf, List.filterMap_append, List.filterMap_map]
  rw [← texts words, same, texts others]

theorem represents_unique {nodes : List Node} {address : Nat} {command other : Command}
    (first : Represents nodes address command) (second : Represents nodes address other) :
    command = other := by
  induction first generalizing other with
  | exec present terminated =>
      cases second with
      | exec present' terminated' =>
          rw [present] at present'
          have same := argv_of_injective (Node.exec.inj (Option.some.inj present'))
          rw [same]
      | pipe present' _ _ => rw [present] at present'; cases present'
      | redirect present' _ => rw [present] at present'; cases present'
  | pipe present leftTree rightTree leftSame rightSame =>
      cases second with
      | exec present' _ => rw [present] at present'; cases present'
      | pipe present' leftTree' rightTree' =>
          rw [present] at present'
          cases present'
          rw [leftSame leftTree', rightSame rightTree']
      | redirect present' _ => rw [present] at present'; cases present'
  | redirect present tree same =>
      cases second with
      | exec present' _ => rw [present] at present'; cases present'
      | pipe present' _ _ => rw [present] at present'; cases present'
      | redirect present' tree' =>
          rw [present] at present'
          cases present'
          rw [same tree']

end Sysprog.Shell.Commands
