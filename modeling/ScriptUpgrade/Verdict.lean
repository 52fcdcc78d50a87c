/-
# Verdicts on commands

A command is checked against a catalogue: its main command must be known, and its subcommand must
be one that the main command takes. No subcommand is the empty text.
-/

import ScriptUpgrade.Catalogue.Basic
import ScriptUpgrade.Command.Basic
import ScriptUpgrade.Suggestion

namespace ScriptUpgrade

/-- What is wrong with a command, if anything is, with names that it might have meant and the
subcommands it might have used. -/
inductive Verdict where
  | valid
  | unknownCommand (suggestions : List Text)
  | invalidSubcommand (suggestions available : List Text)
  | unexpectedSubcommand
  | missingSubcommand (available : List Text)
deriving DecidableEq, Repr

namespace Verdict

/-- Whether nothing is wrong. -/
def isValid : Verdict → Bool
  | .valid => true
  | _ => false

/-- The name of what is wrong. -/
def fault? : Verdict → Option Text
  | .valid => none
  | .unknownCommand _ => some "unknown_command".toList
  | .invalidSubcommand _ _ => some "invalid_subcommand".toList
  | .unexpectedSubcommand => some "unexpected_subcommand".toList
  | .missingSubcommand _ => some "missing_subcommand".toList

/-- The names that might have been meant. -/
def suggestions : Verdict → List Text
  | .unknownCommand suggestions => suggestions
  | .invalidSubcommand suggestions _ => suggestions
  | _ => []

/-- The subcommands that might have been used. -/
def available : Verdict → List Text
  | .invalidSubcommand _ available => available
  | .missingSubcommand available => available
  | _ => []

/-- The verdict on a main command, with at most `max` suggestions. -/
def onMain (catalogue : Catalogue) (max : Nat) (command : Text) : Verdict :=
  if catalogue.has command then .valid
  else .unknownCommand (Suggestion.suggest command catalogue.commands max)

/-- The verdict on a subcommand of a command. -/
def onSub (catalogue : Catalogue) (max : Nat) (command sub : Text) : Verdict :=
  if catalogue.isStandalone command then
    if sub.isEmpty then .valid else .unexpectedSubcommand
  else
    match catalogue.subcommands? command with
    | none => onMain catalogue max command
    | some subcommands =>
      if sub.isEmpty then
        if catalogue.needsSubcommand command then .missingSubcommand subcommands else .valid
      else if catalogue.hasSubcommand command sub then .valid
      else .invalidSubcommand (Suggestion.suggest sub subcommands max) subcommands

/-- The verdict on a command: on its main command, and if that is known on its subcommand. -/
def on (catalogue : Catalogue) (max : Nat) (command : Command) : Verdict :=
  let main := onMain catalogue max command.main
  if main.isValid then onSub catalogue max command.main command.subOrEmpty else main

end Verdict
end ScriptUpgrade
