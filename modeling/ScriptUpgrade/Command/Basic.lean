/-
# Commands

A call of the tool, read as a command: a main command, a subcommand unless an option stands in its
place, and then options, flags and plain arguments in any order.

The tokens after the main command are first read as `Item`s, and the command is made of the items
alone. So two token lists with the same items are the same command, and an option key that is given
several times keeps its last value.

| tokens | item |
| --- | --- |
| `--key=value` | option `key` with `value` |
| `--key value`, `value` without a leading `-` | option `key` with `value` |
| `--name`, otherwise | flag `name` |
| anything else | argument |

Before the main command every token with a leading `-` is an option if it holds a `=` and a flag
otherwise; all its leading dashes are dropped. Only `parseCall` reads such leading options, `parse`
takes whatever follows the keyword for the main command.
-/

import ScriptUpgrade.Shell.Token
import ScriptUpgrade.Text.Sorted

namespace ScriptUpgrade

/-- A call of the tool, read as a command. -/
structure Command where
  raw : Text
  main : Text
  sub : Option Text
  arguments : List Text
  options : List (Text × Text)
  flags : List Text
deriving DecidableEq, Repr

namespace Command

/-- The reason why a line is not a command of the tool. -/
inductive Refusal where
  | empty
  | otherProgram (token keyword : Text)
  | noCommand (keyword : Text)
deriving DecidableEq, Repr

/-- The wording of a refusal. -/
def Refusal.message : Refusal → Text
  | .empty => "command line is empty".toList
  | .otherProgram token keyword =>
    "'".toList ++ token ++ "' is not a ".toList ++ keyword ++ " invocation".toList
  | .noCommand keyword => keyword ++ " invocation has no command".toList

/-- What a token or a pair of tokens of a command stands for. -/
inductive Item where
  | argument (text : Text)
  | option (key value : Text)
  | flag (name : Text)
deriving DecidableEq, Repr

/-- Whether a token starts with a dash. -/
def isDashed (token : Text) : Bool :=
  token.head? == some '-'

/-- A token with a leading dash that stands before the main command. -/
def leadingItem (token : Text) : Item :=
  let name := token.dropWhile (· == '-')
  match Text.cutAt? '=' name with
  | some (key, value) => .option key value
  | none => .flag name

/-- The items of the tokens after the main command and the subcommand. -/
def items : List Text → List Item
  | [] => []
  | token :: tokens =>
    match Text.after? "--".toList token with
    | none => .argument token :: items tokens
    | some name =>
      match Text.cutAt? '=' name with
      | some (key, value) => .option key value :: items tokens
      | none =>
        match tokens with
        | [] => [.flag name]
        | next :: rest =>
          if isDashed next then .flag name :: items (next :: rest)
          else .option name next :: items rest

/-- The arguments among items, in order. -/
def argumentsOf (all : List Item) : List Text :=
  all.filterMap fun
    | .argument text => some text
    | _ => none

/-- The options among items; the last value of a key counts. -/
def optionsOf (all : List Item) : List (Text × Text) :=
  Sorted.ofPairs (all.filterMap fun
    | .option key value => some (key, value)
    | _ => none)

/-- The flags among items. -/
def flagsOf (all : List Item) : List Text :=
  Sorted.ofList (all.filterMap fun
    | .flag name => some name
    | _ => none)

/-- The command with the given main command, subcommand and items. -/
def ofItems (raw main : Text) (sub : Option Text) (all : List Item) : Command :=
  { raw, main, sub, arguments := argumentsOf all, options := optionsOf all, flags := flagsOf all }

/-- The command that starts with a main command token, after the items `leading`. -/
def ofTokens (raw keyword : Text) (leading : List Item) : List Text → Except Refusal Command
  | [] => .error (.noCommand keyword)
  | main :: [] => .ok (ofItems raw main none leading)
  | main :: next :: rest =>
    if isDashed next then .ok (ofItems raw main none (leading ++ items (next :: rest)))
    else .ok (ofItems raw main (some next) (leading ++ items rest))

/-- Reads a line whose main command follows the keyword at once. -/
def parse (keyword line : Text) : Except Refusal Command :=
  match Token.split line with
  | [] => .error .empty
  | first :: tokens =>
    if first = keyword then ofTokens line keyword [] tokens
    else .error (.otherProgram first keyword)

/-- Reads a line that may have options between the keyword and the main command. -/
def parseCall (keyword line : Text) : Except Refusal Command :=
  match Token.split line with
  | [] => .error .empty
  | first :: tokens =>
    if first = keyword then
      ofTokens line keyword ((tokens.takeWhile isDashed).map leadingItem) (tokens.dropWhile isDashed)
    else .error (.otherProgram first keyword)

/-- The subcommand, or no text if there is none. -/
def subOrEmpty (command : Command) : Text :=
  command.sub.getD []

end Command
end ScriptUpgrade
