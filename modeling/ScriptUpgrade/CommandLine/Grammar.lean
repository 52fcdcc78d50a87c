/-
# Command lines

The words after the name of a command are options and operands. An option is written `--name`; a
flag takes no value, any other option takes one, as `--name=value` or as the next word. After a word
`--` all words are operands.

A word with a leading dash is never the value of an option, except for `-` itself. An option that
waits for its value, or has just got it, is recorded when the next word needs it to be: only then is
it noticed that the value is missing, that the option was given before, or that the value is no
number. A word that no command line could hold is noticed before that.
-/

import ScriptUpgrade.Text.Basic

namespace ScriptUpgrade
namespace CommandLine

/-- What an option takes: nothing, a number or a text. -/
inductive Kind where
  | flag
  | number
  | text
deriving DecidableEq, Repr

/-- The options that a command takes, and how many operands at most. -/
structure Grammar where
  options : List (Text × Kind)
  maxOperands : Option Nat
deriving DecidableEq, Repr

/-- Why a command line asks for nothing that can be carried out. -/
inductive Rejection where
  /-- There is no command. -/
  | nothingAsked
  /-- Help is asked for. -/
  | helpAsked
  /-- The version is asked for. -/
  | versionAsked
  /-- There is no such command. -/
  | unknownCommand
  /-- There is no such option, or one operand too many. -/
  | unknownArgument
  /-- Two options exclude each other, or an option is given twice. -/
  | conflict
  /-- An operand is missing. -/
  | missingOperand
  /-- An option lacks its value. -/
  | missingValue
  /-- The value of an option is no number. -/
  | invalidValue
  /-- A flag has a value. -/
  | unexpectedValue
deriving DecidableEq, Repr

/-- A word of a command line by its leading dashes. -/
inductive Word where
  /-- The word `--`. -/
  | separator
  /-- An option `--name` or `--name=value`. -/
  | long (name : Text) (value : Option Text)
  /-- Options `-abc`, of which the first matters. -/
  | short (first : Char)
  /-- Any other word. -/
  | plain
deriving DecidableEq, Repr

/-- The kind of word a text is. -/
def Word.ofText : Text → Word
  | ['-', '-'] => .separator
  | '-' :: '-' :: text =>
    match Text.cutAt? '=' text with
    | some (name, value) => .long name (some value)
    | none => .long text none
  | '-' :: first :: _ => .short first
  | _ => .plain

/-- The value that an option was given. -/
inductive Value where
  | present
  | number (value : Nat)
  | text (value : Text)
deriving DecidableEq, Repr

/-- The options that were given, and the operands. -/
structure Arguments where
  values : List (Text × Value)
  operands : List Text
deriving DecidableEq, Repr

namespace Arguments

/-- No options and no operands. -/
def empty : Arguments :=
  ⟨[], []⟩

/-- The value of an option. -/
def value? (arguments : Arguments) (name : Text) : Option Value :=
  (arguments.values.find? fun pair => pair.1 == name).map Prod.snd

/-- Whether an option was given. -/
def has (arguments : Arguments) (name : Text) : Bool :=
  (arguments.value? name).isSome

/-- The number that an option was given. -/
def number? (arguments : Arguments) (name : Text) : Option Nat :=
  match arguments.value? name with
  | some (.number value) => some value
  | _ => none

/-- The text that an option was given. -/
def text? (arguments : Arguments) (name : Text) : Option Text :=
  match arguments.value? name with
  | some (.text value) => some value
  | _ => none

end Arguments

/-- The number that decimal digits stand for. -/
def ofDigits (digits : Text) : Nat :=
  digits.foldl (fun value c => 10 * value + (c.toNat - '0'.toNat)) 0

/-- The bound of numbers: two to the power of 64. -/
def numberBound : Nat := 18446744073709551616

/-- Reads a number below `numberBound`: decimal digits, with or without a plus sign. -/
def number? (text : Text) : Option Nat :=
  let digits :=
    match text with
    | '+' :: digits => digits
    | _ => text
  if digits.isEmpty || !digits.all Char.isDigit then none
  else if ofDigits digits < numberBound then some (ofDigits digits)
  else none

/-- Reads the value of an option. -/
def Kind.read (text : Text) : Kind → Except Rejection Value
  | .flag => .ok .present
  | .text => .ok (.text text)
  | .number =>
    match number? text with
    | some value => .ok (.number value)
    | none => .error .invalidValue

/-- The arguments with one more option, which must not have been given before. -/
def Arguments.record (arguments : Arguments) (name : Text) (kind : Kind) (text : Text) :
    Except Rejection Arguments :=
  if arguments.has name then .error .conflict
  else do return { arguments with values := arguments.values ++ [(name, ← kind.read text)] }

/-- An option that is not recorded yet, with its value if it has one already. -/
structure Pending where
  name : Text
  kind : Kind
  value : Option Text
deriving DecidableEq, Repr

/-- What was read so far, and whether all further words are operands. -/
structure State where
  arguments : Arguments
  pending : Option Pending
  operandsOnly : Bool
deriving DecidableEq, Repr

/-- The flag that every command takes. -/
def help : Text :=
  "help".toList

/-- What an option takes, if there is such an option. -/
def Grammar.kind? (grammar : Grammar) (name : Text) : Option Kind :=
  if name == help then some .flag
  else (grammar.options.find? fun pair => pair.1 == name).map Prod.snd

/-- Whether there is no room for one more operand. -/
def Grammar.isFull (grammar : Grammar) (arguments : Arguments) : Bool :=
  match grammar.maxOperands with
  | some max => max ≤ arguments.operands.length
  | none => false

namespace State

/-- Nothing was read yet. -/
def start : State :=
  ⟨.empty, none, false⟩

/-- Records the pending option. -/
def settle (state : State) : Except Rejection State :=
  match state.pending with
  | none => .ok state
  | some ⟨_, _, none⟩ => .error .missingValue
  | some ⟨name, kind, some value⟩ => do
    return { state with
      arguments := ← state.arguments.record name kind value
      pending := none }

/-- Reads an operand. -/
def operand (grammar : Grammar) (state : State) (word : Text) : Except Rejection State :=
  if grammar.isFull state.arguments then .error .unknownArgument
  else do
    let state ← state.settle
    return { state with
      arguments := { state.arguments with operands := state.arguments.operands ++ [word] } }

/-- Reads an option. -/
def option (grammar : Grammar) (state : State) (name : Text) (value : Option Text) :
    Except Rejection State :=
  match grammar.kind? name, value with
  | none, _ => .error .unknownArgument
  | some .flag, some _ => .error .unexpectedValue
  | some .flag, none => do
    let state ← state.settle
    if name == help then .error .helpAsked
    else return { state with arguments := ← state.arguments.record name .flag [] }
  | some kind, some value => do
    let state ← state.settle
    return { state with arguments := ← state.arguments.record name kind value }
  | some kind, none => do
    let state ← state.settle
    return { state with pending := some ⟨name, kind, none⟩ }

/-- Reads a word without leading dashes: the value of the option that waits for one, or an
operand. -/
def plain (grammar : Grammar) (state : State) (word : Text) : Except Rejection State :=
  match state.pending with
  | some ⟨name, kind, none⟩ => .ok { state with pending := some ⟨name, kind, some word⟩ }
  | _ => state.operand grammar word

/-- Reads one word. -/
def read (grammar : Grammar) (state : State) (word : Text) : Except Rejection State :=
  if state.operandsOnly then state.operand grammar word
  else
    match Word.ofText word with
    | .separator => .ok { state with operandsOnly := true }
    | .long name value => state.option grammar name value
    | .short first =>
      if first == 'h' then do
        let _ ← state.settle
        .error .helpAsked
      else .error .unknownArgument
    | .plain => state.plain grammar word

end State

/-- Reads the words after a command. -/
def Grammar.read (grammar : Grammar) (words : List Text) : Except Rejection Arguments := do
  let state ← (← words.foldlM (State.read grammar) .start).settle
  return state.arguments

end CommandLine
end ScriptUpgrade
