/-
# Replies

What the program has to say when a request was carried out, and the JSON form of it. The sums in a
reply are computed from its parts.
-/

import ScriptUpgrade.Files.Source
import ScriptUpgrade.Json.Report

namespace ScriptUpgrade

open Json (ofFields optional nonempty texts)

/-- A script and the report on it. -/
structure Converted where
  file : Text
  digest : Text
  report : Script.Report

/-- A script that was written back, or needed no change. -/
structure WrittenBack where
  file : Text
  outcome : Files.Outcome
  changedLines : Nat
  totalChanges : Nat
deriving DecidableEq, Repr

/-- A call that is not valid, and where it stands. -/
structure Issue where
  file : Text
  line : Nat
  check : Script.Check

/-- What checking scripts gave. -/
structure Checked where
  files : Nat
  commands : Nat
  issues : List Issue
  strict : Bool

/-- Whether nothing is wrong, or what is wrong does not count. -/
def Checked.passed (checked : Checked) : Bool :=
  !checked.strict || checked.issues.isEmpty

/-- Whether a name is known, and which names are like it. -/
structure Lookup where
  token : Text
  command : Option Text
  known : Bool
  suggestions : List Text
deriving DecidableEq, Repr

/-- A migrated line that calls the tool, and its impact. -/
structure Analyzed where
  file : Text
  line : Nat
  command : Text
  impact : Impact
deriving DecidableEq, Repr

/-- An entry of the catalogue, and whether it is standalone. -/
structure Listed where
  entry : Catalogue.Entry
  standalone : Bool
deriving DecidableEq, Repr

/-- What the program has to say. -/
inductive Reply where
  | script (text : Text)
  | converted (files : List Converted)
  | writtenBack (files : List WrittenBack)
  | checked (result : Checked)
  | lookup (result : Lookup)
  | analyzed (files : Nat) (lines : List Analyzed)
  | listed (entries : List Listed)

/-- The JSON form of a converted script. -/
def Converted.toJson (converted : Converted) : Json :=
  ofFields
    [("file", .string converted.file),
     ("source_hash", .string converted.digest),
     ("lines", .list (converted.report.lines.map Script.LineReport.toJson)),
     ("summary", converted.report.summary.toJson)]

/-- The JSON form of a script that was written back. -/
def WrittenBack.toJson (written : WrittenBack) : Json :=
  ofFields
    [("file", .string written.file),
     ("outcome", .string written.outcome.name),
     ("changed_lines", .number written.changedLines),
     ("total_changes", .number written.totalChanges)]

/-- The fields that say what is wrong with a call. -/
def Issue.findingFields (issue : Issue) : List (String × Json) :=
  match issue.check.finding with
  | .ok (_, verdict) =>
    optional "error_type" .string verdict.fault?
      ++ nonempty "suggestions" verdict.suggestions
      ++ nonempty "available" verdict.available
  | .error refusal =>
    [("error_type", .string "parse_error".toList), ("message", .string refusal.message)]

/-- The JSON form of an issue. -/
def Issue.toJson (issue : Issue) : Json :=
  ofFields <|
    [("file", .string issue.file),
     ("line_number", .number issue.line),
     ("command", .string issue.check.call)]
      ++ issue.findingFields

/-- The JSON form of what checking gave. -/
def Checked.toJson (checked : Checked) : Json :=
  ofFields
    [("issues", .list (checked.issues.map Issue.toJson)),
     ("summary", ofFields
      [("files_checked", .number checked.files),
       ("commands_checked", .number checked.commands),
       ("invalid_commands", .number checked.issues.length),
       ("strict", .bool checked.strict)])]

/-- The JSON form of a lookup. -/
def Lookup.toJson (lookup : Lookup) : Json :=
  ofFields <|
    ("token", .string lookup.token) :: optional "command" .string lookup.command
      ++ [("known", .bool lookup.known), ("suggestions", texts lookup.suggestions)]

/-- The JSON form of an analyzed line. -/
def Analyzed.toJson (analyzed : Analyzed) : Json :=
  ofFields <|
    [("file", .string analyzed.file),
     ("line_number", .number analyzed.line),
     ("command", .string analyzed.command)]
      ++ analyzed.impact.fields

/-- The JSON form of an entry of the catalogue. -/
def Listed.toJson (listed : Listed) : Json :=
  ofFields
    [("command", .string listed.entry.command),
     ("category", .string listed.entry.category.name),
     ("description", .string listed.entry.description),
     ("subcommands", texts listed.entry.subcommands),
     ("standalone", .bool listed.standalone)]

/-- How many of some lines have each risk. Only risks that occur are listed. -/
def countRisks (lines : List Analyzed) : List (Risk × Nat) :=
  (Risk.all.map fun risk => (risk, (lines.filter (·.impact.risk == risk)).length)).filter
    fun pair => 0 < pair.2

/-- The highest risk of some lines. -/
def highestRisk (lines : List Analyzed) : Option Risk :=
  lines.foldr (fun line risk => Script.maxRisk (some line.impact.risk) risk) none

/-- The sums over analyzed lines. -/
def analysisSummary (files : Nat) (lines : List Analyzed) : Json :=
  ofFields <|
    [("files", .number files),
     ("commands", .number lines.length),
     ("by_risk", .object ((countRisks lines).map fun (risk, count) => (risk.name, .number count)))]
      ++ optional "highest_risk" (fun risk => .string risk.name) (highestRisk lines)
      ++ [("max_complexity",
           .number (lines.foldr (fun line most => max line.impact.complexity most) 0))]

/-- The JSON form of a reply; a script is a text. -/
def Reply.toJson : Reply → Json
  | .script text => .string text
  | .converted files =>
    ofFields
      [("files", .list (files.map Converted.toJson)),
       ("summary", ofFields
        [("files", .number files.length),
         ("changed_files", .number (files.filter (·.report.changed)).length),
         ("total_changes", .number (Script.total (files.map (·.report.summary.totalChanges))))])]
  | .writtenBack files =>
    ofFields
      [("files", .list (files.map WrittenBack.toJson)),
       ("summary", ofFields
        [("files_written", .number (files.filter (·.outcome == .written)).length),
         ("files_unchanged", .number (files.filter (·.outcome == .unchanged)).length)])]
  | .checked result => result.toJson
  | .lookup result => result.toJson
  | .analyzed files lines =>
    ofFields
      [("lines", .list (lines.map Analyzed.toJson)), ("summary", analysisSummary files lines)]
  | .listed entries =>
    ofFields
      [("commands", .list (entries.map Listed.toJson)), ("total", .number entries.length)]

end ScriptUpgrade
