/-
# Migrating a line

The in-place rules are applied to a line one after the other, each to the line that the ones before
it left. Then, if a call of that line has a command that v1 lacks, the line as it was at first is
turned into a comment that says what to do instead, with its indent kept. Every change says where
in the line as it was at first the changed text stood.
-/

import ScriptUpgrade.Migration.Origin
import ScriptUpgrade.Migration.Rule
import ScriptUpgrade.Shell.Call

namespace ScriptUpgrade
namespace Migration

/-- A change of a line: the text a rule replaced, as it read when the rule was applied, what it
became, and where it stood in the line as it was at first. -/
structure Change where
  rule : Rule
  before : Text
  after : Text
  span : Span
deriving DecidableEq, Repr

/-- A line as it was given, the line it became, and the changes that led there. -/
structure Outcome where
  given : Text
  migrated : Text
  changes : List Change
deriving DecidableEq, Repr

/-- Whether anything was changed. -/
def Outcome.changed (outcome : Outcome) : Bool :=
  !outcome.changes.isEmpty

/-- A line while it is migrated: as it reads now, where its text stood at first, and the changes. -/
structure Progress where
  line : Text
  origin : Origin
  changes : List Change
deriving DecidableEq, Repr

/-- The fragments of a line when a rule is applied to each call of `keyword`. -/
def fragments (keyword : Text) (rule : Rule) (line : Text) : List Fragment :=
  (Call.dissect keyword line).flatMap fun
    | .outside c => [.kept c]
    | .call body => Fragment.keep keyword ++ rule.fragments body

/-- One rule applied to a line. -/
def pass (keyword : Text) (progress : Progress) (rule : Rule) : Progress :=
  let cut := fragments keyword rule progress.line
  let edits := Fragment.edits cut
  { line := Fragment.newText cut
    origin := progress.origin.record (edits.map fun edit => (edit.span, Text.size edit.after))
    changes := progress.changes ++
      edits.map fun edit => ⟨rule, edit.before, edit.after, progress.origin.trace edit.span⟩ }

/-- A line after all in-place rules. -/
def inPlace (keyword line : Text) : Progress :=
  inPlaceRules.foldl (pass keyword) ⟨line, .untouched line, []⟩

/-- What to do instead of the first call of a line that v1 does not have. -/
def guidance? (keyword line : Text) : Option Text :=
  (Call.dissect keyword line).findSome? fun
    | .outside _ => none
    | .call body => retirement.guidance? body

/-- A line turned into a comment. -/
def comment (guidance line : Text) : Text :=
  Text.indent line ++ "# usacloud-update: ".toList ++ guidance ++ ": ".toList ++
    Text.trimEnd (Text.trimStart line)

/-- The change that retires a line. -/
def retire (guidance line : Text) : Change :=
  ⟨retirement, line, comment guidance line, ⟨0, Text.size line⟩⟩

/-- Migrates the calls of `keyword` in a line. -/
def apply (keyword line : Text) : Outcome :=
  if (Call.all keyword line).isEmpty then ⟨line, line, []⟩
  else
    let progress := inPlace keyword line
    match guidance? keyword progress.line with
    | some guidance =>
      ⟨line, comment guidance line, progress.changes ++ [retire guidance line]⟩
    | none => ⟨line, progress.line, progress.changes⟩

end Migration
end ScriptUpgrade
