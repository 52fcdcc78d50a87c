/-
# Reports on scripts

Every line of a script is migrated, the calls of the migrated line (or of the line as it is written)
are checked, and the impact of a migrated line that still has calls is estimated. The summary adds up
the lines.
-/

import ScriptUpgrade.Catalogue.Builtin
import ScriptUpgrade.Impact
import ScriptUpgrade.Migration.Line
import ScriptUpgrade.Script.Line
import ScriptUpgrade.Verdict

namespace ScriptUpgrade
namespace Script

/-- The keyword that calls the tool. -/
def defaultKeyword : Text :=
  "usacloud".toList

/-- How a script is processed. -/
structure Settings where
  /-- The keyword that calls the tool. -/
  keyword : Text := defaultKeyword
  /-- How many suggestions are made for a name. -/
  maxSuggestions : Nat := Suggestion.defaultMax
  /-- Whether the migrated line is checked, and not the line as it is written. -/
  checkMigrated : Bool := true
deriving DecidableEq, Repr

/-- A call of a line and what it was found to be. -/
structure Check where
  call : Text
  finding : Except Command.Refusal (Command × Verdict)

/-- Whether a call is a valid command. -/
def Check.isValid (check : Check) : Bool :=
  match check.finding with
  | .ok (_, verdict) => verdict.isValid
  | .error _ => false

/-- What processing one line gave. -/
structure LineReport where
  number : Nat
  outcome : Migration.Outcome
  checks : List Check
  impact : Option Impact
  ending : Ending

/-- The checks that failed. -/
def LineReport.invalid (report : LineReport) : List Check :=
  report.checks.filter (!·.isValid)

/-- Checks one call against the catalogue of the current release. -/
def check (settings : Settings) (call : Text) : Check where
  call := call
  finding :=
    match Command.parseCall settings.keyword call with
    | .ok command => .ok (command, Verdict.on .builtin settings.maxSuggestions command)
    | .error refusal => .error refusal

/-- Checks all calls of a line. -/
def checks (settings : Settings) (line : Text) : List Check :=
  (Call.all settings.keyword line).map fun call => check settings call.text

/-- Processes one line. -/
def processLine (settings : Settings) (number : Nat) (line : Text) (ending : Ending) :
    LineReport :=
  let outcome := Migration.apply settings.keyword line
  { number, outcome, ending
    checks := checks settings (if settings.checkMigrated then outcome.migrated else line)
    impact :=
      if (Call.all settings.keyword outcome.migrated).isEmpty then none
      else some (Impact.analyze settings.keyword outcome.migrated) }

/-- The sums over the lines of a script. -/
structure Summary where
  totalLines : Nat
  changedLines : Nat
  totalChanges : Nat
  changesByCategory : List (Migration.Category × Nat)
  invalidCommands : Nat
  highestRisk : Option Risk
deriving DecidableEq, Repr

/-- The lines of a script and their summary. -/
structure Report where
  lines : List LineReport
  summary : Summary

/-- The sum of some counts. -/
def total : List Nat → Nat
  | [] => 0
  | count :: counts => count + total counts

/-- How many changes of a category some lines have. -/
def countCategory (lines : List LineReport) (category : Migration.Category) : Nat :=
  total <| lines.map fun line =>
    (line.outcome.changes.filter fun change => change.rule.category == category).length

/-- The greater of two risks, where there may be none. -/
def maxRisk : Option Risk → Option Risk → Option Risk
  | none, right => right
  | left, none => left
  | some left, some right => some (left.max right)

/-- The summary of some lines. Only categories that occur are listed. -/
def summarize (lines : List LineReport) : Summary where
  totalLines := lines.length
  changedLines := (lines.filter fun line => line.outcome.changed).length
  totalChanges := total (lines.map fun line => line.outcome.changes.length)
  changesByCategory :=
    (Migration.Category.all.map fun category => (category, countCategory lines category)).filter
      fun pair => 0 < pair.2
  invalidCommands := total (lines.map fun line => line.invalid.length)
  highestRisk := lines.foldr (fun line risk => maxRisk (line.impact.map Impact.risk) risk) none

/-- The reports on lines numbered from `number` on. -/
def processFrom (settings : Settings) (number : Nat) : List (Text × Ending) → List LineReport
  | [] => []
  | (line, ending) :: lines =>
    processLine settings number line ending :: processFrom settings (number + 1) lines

/-- Processes a script. -/
def process (settings : Settings) (text : Text) : Report :=
  let lines := processFrom settings 1 (split text)
  ⟨lines, summarize lines⟩

/-- The migrated script, every line with its own ending. -/
def Report.text (report : Report) : Text :=
  join (report.lines.map fun line => (line.outcome.migrated, line.ending))

/-- Whether any line was changed. -/
def Report.changed (report : Report) : Bool :=
  0 < report.summary.changedLines

end Script
end ScriptUpgrade
