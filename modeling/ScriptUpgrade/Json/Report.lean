/-
# Reports as JSON documents

The JSON forms of commands, changes, verdicts, impacts and line reports. A field that has nothing to
say is left out.
-/

import ScriptUpgrade.Json.Basic
import ScriptUpgrade.Script.Report

namespace ScriptUpgrade

open Json (ofFields optional nonempty texts)

/-- The JSON form of a command. -/
def Command.toJson (command : Command) : Json :=
  ofFields <|
    [("raw", .string command.raw), ("main_command", .string command.main)]
      ++ optional "sub_command" .string command.sub
      ++ [("positional_args", texts command.arguments),
          ("options", .object (command.options.map fun (key, value) => (key, .string value))),
          ("flags", texts command.flags)]

/-- The JSON form of a change. -/
def Migration.Change.toJson (change : Migration.Change) : Json :=
  ofFields
    [("rule_name", .string change.rule.name),
     ("category", .string change.rule.category.name),
     ("before", .string change.before),
     ("after", .string change.after),
     ("span_start", .number change.span.start),
     ("span_end", .number change.span.stop),
     ("reason", .string change.rule.category.reason)]

/-- The JSON form of a migrated line. -/
def Migration.Outcome.toJson (outcome : Migration.Outcome) : Json :=
  ofFields
    [("original_line", .string outcome.given),
     ("transformed_line", .string outcome.migrated),
     ("changed", .bool outcome.changed),
     ("changes", .list (outcome.changes.map Migration.Change.toJson))]

/-- The JSON form of a verdict. -/
def Verdict.toJson (verdict : Verdict) : Json :=
  ofFields <|
    [("is_valid", .bool verdict.isValid)]
      ++ optional "error_type" .string verdict.fault?
      ++ nonempty "suggestions" verdict.suggestions
      ++ nonempty "available" verdict.available

/-- The fields of an impact. -/
def Impact.fields (impact : Impact) : List (String × Json) :=
  [("risk", .string impact.risk.name),
   ("complexity", .number impact.complexity),
   ("resources", texts impact.resources),
   ("dependencies", texts impact.dependencies)]

/-- The JSON form of an impact. -/
def Impact.toJson (impact : Impact) : Json :=
  ofFields impact.fields

/-- The JSON form of an entry of a catalogue. -/
def Catalogue.Entry.toJson (entry : Catalogue.Entry) : Json :=
  ofFields
    [("command", .string entry.command),
     ("subcommands", texts entry.subcommands),
     ("description", .string entry.description),
     ("category", .string entry.category.name)]

namespace Script

/-- The JSON form of a check. -/
def Check.toJson (check : Check) : Json :=
  ofFields <|
    ("command", .string check.call) ::
      match check.finding with
      | .ok (command, verdict) =>
        [("parsed", command.toJson), ("validation", verdict.toJson)]
      | .error refusal => [("parse_error", .string refusal.message)]

/-- The fields of a line report. -/
def LineReport.fields (report : LineReport) : List (String × Json) :=
  [("line_number", .number report.number), ("transform", report.outcome.toJson)]
    ++ (if report.checks.isEmpty then []
        else [("checks", .list (report.checks.map Check.toJson))])
    ++ optional "impact" Impact.toJson report.impact

/-- The JSON form of a line report. -/
def LineReport.toJson (report : LineReport) : Json :=
  ofFields report.fields

/-- The JSON form of a summary. -/
def Summary.toJson (summary : Summary) : Json :=
  ofFields <|
    [("total_lines", .number summary.totalLines),
     ("changed_lines", .number summary.changedLines),
     ("total_changes", .number summary.totalChanges),
     ("changes_by_category",
      .object (summary.changesByCategory.map fun (category, count) =>
        (category.name, .number count))),
     ("invalid_commands", .number summary.invalidCommands)]
      ++ optional "highest_risk" (fun risk => .string risk.name) summary.highestRisk

end Script
end ScriptUpgrade
