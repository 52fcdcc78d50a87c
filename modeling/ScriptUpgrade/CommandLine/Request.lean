/-
# Requests

What the program can be asked to do, and how a command line asks for it: the first word names the
command, the other words are its options and operands.

| command | options | operands |
| --- | --- | --- |
| `convert` | `--json`, `--write` (not both) | scripts or patterns |
| `check` | `--raw`, `--strict`, `--max-suggestions N` | scripts or patterns |
| `suggest` | `--command COMMAND`, `--max N` | the name to look up |
| `analyze` | | scripts or patterns |
| `commands` | `--category CATEGORY` | |

Without scripts, standard input is read.
-/

import ScriptUpgrade.CommandLine.Grammar
import ScriptUpgrade.Suggestion

namespace ScriptUpgrade

/-- What becomes of migrated scripts: they are printed, reported on, or written back. -/
inductive Form where
  | script
  | report
  | write
deriving DecidableEq, Repr

/-- What the program is asked to do. -/
inductive Request where
  /-- Migrate scripts. -/
  | convert (form : Form) (files : List Text)
  /-- Check the calls of scripts, as they are written if `raw`. -/
  | check (raw strict : Bool) (maxSuggestions : Nat) (files : List Text)
  /-- Look up the name of a command, or of a subcommand of a command. -/
  | suggest (token : Text) (command : Option Text) (max : Nat)
  /-- Estimate the impact of the lines of scripts. -/
  | analyze (files : List Text)
  /-- List the commands, or those of a category. -/
  | list (category : Option Text)
deriving DecidableEq, Repr

/-- The scripts that a request names, if it is about scripts at all. -/
def Request.scripts? : Request → Option (List Text)
  | .convert _ files => some files
  | .check _ _ _ files => some files
  | .analyze files => some files
  | .suggest _ _ _ => none
  | .list _ => none

/-- Whether a request reads standard input. -/
def Request.readsInput : Request → Bool
  | .convert .write _ => false
  | request => request.scripts? == some []

/-- A command of the program. -/
inductive Verb where
  | convert
  | check
  | suggest
  | analyze
  | commands
deriving DecidableEq, Repr

namespace Verb

/-- All commands. -/
def all : List Verb :=
  [.convert, .check, .suggest, .analyze, .commands]

/-- The name of a command. -/
def name : Verb → Text
  | .convert => "convert".toList
  | .check => "check".toList
  | .suggest => "suggest".toList
  | .analyze => "analyze".toList
  | .commands => "commands".toList

/-- The command with a name. -/
def ofName? (name : Text) : Option Verb :=
  all.find? fun verb => verb.name == name

/-- The options and operands of a command. -/
def grammar : Verb → CommandLine.Grammar
  | .convert => ⟨[("json".toList, .flag), ("write".toList, .flag)], none⟩
  | .check =>
    ⟨[("raw".toList, .flag), ("strict".toList, .flag), ("max-suggestions".toList, .number)], none⟩
  | .suggest => ⟨[("command".toList, .text), ("max".toList, .number)], some 1⟩
  | .analyze => ⟨[], none⟩
  | .commands => ⟨[("category".toList, .text)], some 0⟩

/-- The request that a command makes with its arguments. -/
def request (arguments : CommandLine.Arguments) : Verb → Except CommandLine.Rejection Request
  | .convert =>
    match arguments.has "json".toList, arguments.has "write".toList with
    | true, true => .error .conflict
    | true, false => .ok (.convert .report arguments.operands)
    | false, true => .ok (.convert .write arguments.operands)
    | false, false => .ok (.convert .script arguments.operands)
  | .check =>
    .ok (.check (arguments.has "raw".toList) (arguments.has "strict".toList)
      ((arguments.number? "max-suggestions".toList).getD Suggestion.defaultMax) arguments.operands)
  | .suggest =>
    match arguments.operands with
    | token :: _ =>
      .ok (.suggest token (arguments.text? "command".toList)
        ((arguments.number? "max".toList).getD Suggestion.defaultMax))
    | [] => .error .missingOperand
  | .analyze => .ok (.analyze arguments.operands)
  | .commands => .ok (.list (arguments.text? "category".toList))

end Verb

namespace Request

open CommandLine (Rejection Word help)

/-- Whether a word names a command, help included. -/
def namesCommand (word : Text) : Bool :=
  word == help || (Verb.ofName? word).isSome

/-- What asking for help with some words gives: the words are at most one, the name of a command. -/
def helpWith : List Text → Rejection
  | [] => .helpAsked
  | [word] => if namesCommand word then .helpAsked else .unknownCommand
  | _ => .unknownCommand

/-- What words after a leading `--` give: no command can stand there, though the first word may be
the name of one. -/
def afterSeparator : List Text → Rejection
  | [] => .nothingAsked
  | word :: _ => if namesCommand word then .unknownArgument else .unknownCommand

/-- What an option in front of the command gives: only help and the version can be asked for. -/
def leadingOption (name : Text) (value : Option Text) : Rejection :=
  if name == help then if value.isSome then .unexpectedValue else .helpAsked
  else if name == "version".toList then if value.isSome then .unexpectedValue else .versionAsked
  else .unknownArgument

/-- Reads a command line. -/
def read : (words : List Text) → Except Rejection Request
  | [] => .error .nothingAsked
  | word :: words =>
    match Word.ofText word with
    | .separator => .error (afterSeparator words)
    | .long name value => .error (leadingOption name value)
    | .short first =>
      .error
        (if first == 'h' then .helpAsked
         else if first == 'V' then .versionAsked
         else .unknownArgument)
    | .plain =>
      match Verb.ofName? word with
      | some verb => do verb.request (← verb.grammar.read words)
      | none => .error (if word == help then helpWith words else .unknownCommand)

end Request
end ScriptUpgrade
