/-
# The canonical form of a command

A command written out again: every token in double quotes and joined by single spaces, the options
as `--key=value` in the order of their keys, then the arguments, then the flags.
-/

import ScriptUpgrade.Command.Basic

namespace ScriptUpgrade
namespace Command

/-- The tokens of the canonical form. -/
def canonicalTokens (keyword : Text) (command : Command) : List Text :=
  keyword :: command.main :: command.sub.toList
    ++ command.options.map (fun (key, value) => "--".toList ++ key ++ '=' :: value)
    ++ command.arguments
    ++ command.flags.map ("--".toList ++ ·)

/-- Tokens in double quotes, joined by single spaces. -/
def quoteTokens (tokens : List Text) : Text :=
  [' '].intercalate (tokens.map fun token => '"' :: token ++ ['"'])

/-- The canonical form of a command. -/
def render (keyword : Text) (command : Command) : Text :=
  quoteTokens (canonicalTokens keyword command)

end Command
end ScriptUpgrade
