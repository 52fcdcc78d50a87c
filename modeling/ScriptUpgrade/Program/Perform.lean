/-
# Carrying out requests

A request is carried out on a file tree and standard input. Only writing scripts back changes the
tree: all scripts are read and migrated before the first of them is written, and the first failure
ends the writing.
-/

import ScriptUpgrade.CommandLine.Request
import ScriptUpgrade.Program.Reply

namespace ScriptUpgrade
namespace Request

open Digest (Bytes)
open Files (Source Tree)

/-- The report on the migration of a source. -/
def reportOn (source : Source) : Script.Report :=
  Script.process {} source.text

/-- The report on a source. -/
def converted (source : Source) : Converted where
  file := source.name
  digest := source.digest
  report := reportOn source

/-- What writing back a source did. -/
def writtenBack (source : Source) (report : Script.Report) (outcome : Files.Outcome) :
    WrittenBack where
  file := source.name
  outcome := outcome
  changedLines := report.summary.changedLines
  totalChanges := report.summary.totalChanges

/-- Writes migrated scripts back, one after the other. -/
def writeBackAll (tree : Tree) : List Source → Except Failure (List WrittenBack) × Tree
  | [] => (.ok [], tree)
  | source :: sources =>
    let report := reportOn source
    match Files.writeBack tree source report.text with
    | (.error failure, tree) => (.error failure, tree)
    | (.ok outcome, tree) =>
      let (result, tree) := writeBackAll tree sources
      (result.map (writtenBack source report outcome :: ·), tree)

/-- Reads scripts and writes them back migrated. -/
def write (tree : Tree) (input : Bytes) (files : List Text) :
    Except Failure (List WrittenBack) × Tree :=
  if files.isEmpty then (.error (.invalidRequest .writeNeedsFiles), tree)
  else
    match Files.readAll tree input files with
    | .error failure => (.error failure, tree)
    | .ok sources => writeBackAll tree sources

/-- The invalid calls of a line. -/
def lineIssues (file : Text) (line : Script.LineReport) : List Issue :=
  line.invalid.map fun check => ⟨file, line.number, check⟩

/-- Checks the calls of some scripts. -/
def checkAll (settings : Script.Settings) (strict : Bool) (sources : List Source) : Checked :=
  let lines := sources.map fun source => (source.name, (Script.process settings source.text).lines)
  { files := sources.length
    commands := Script.total (lines.map fun (_, lines) => Script.total (lines.map (·.checks.length)))
    issues := lines.flatMap fun (file, lines) => lines.flatMap (lineIssues file)
    strict }

/-- Looks up a name: of a command, or of a subcommand of a command. -/
def look (catalogue : Catalogue) (token : Text) (command : Option Text) (max : Nat) :
    Except Failure Lookup :=
  match command with
  | none =>
    .ok ⟨token, none, catalogue.has token, Suggestion.suggest token catalogue.commands max⟩
  | some command =>
    match catalogue.subcommands? command with
    | some subcommands =>
      .ok ⟨token, some command, catalogue.hasSubcommand command token,
        Suggestion.suggest token subcommands max⟩
    | none =>
      .error <| .invalidRequest <|
        .unknownCommand command (Verdict.onMain catalogue max command).suggestions

/-- The impact of a line, if it calls the tool. -/
def analyzedLine? (file : Text) (line : Script.LineReport) : Option Analyzed :=
  line.impact.map fun impact => ⟨file, line.number, line.outcome.migrated, impact⟩

/-- The impacts of the lines of a script. -/
def analyzedLines (source : Source) : List Analyzed :=
  (reportOn source).lines.filterMap (analyzedLine? source.name)

/-- The category with a name, if there is a name. -/
def categoryNamed : Option Text → Except Failure (Option Catalogue.Category)
  | none => .ok none
  | some name =>
    match Catalogue.Category.ofName? name with
    | some category => .ok (some category)
    | none =>
      .error (.invalidRequest (.unknownCategory name (Catalogue.Category.all.map (·.name))))

/-- The entries of a catalogue, or those of a category. -/
def entriesIn (catalogue : Catalogue) (category : Option Catalogue.Category) : List Listed :=
  ((catalogue.entries.map Prod.snd).filter fun entry => category.all (· == entry.category)).map
    fun entry => ⟨entry, catalogue.isStandalone entry.command⟩

/-- Carries out a request. -/
def perform (tree : Tree) (input : Bytes) : Request → Except Failure Reply × Tree
  | .convert .write files =>
    let (result, tree) := write tree input files
    (result.map .writtenBack, tree)
  | .convert .script files =>
    ((Files.readAll tree input files).map fun sources =>
      .script (sources.flatMap fun source => (reportOn source).text), tree)
  | .convert .report files =>
    ((Files.readAll tree input files).map fun sources => .converted (sources.map converted), tree)
  | .check raw strict maxSuggestions files =>
    ((Files.readAll tree input files).map fun sources =>
      .checked (checkAll { maxSuggestions, checkMigrated := !raw } strict sources), tree)
  | .suggest token command max => ((look .builtin token command max).map .lookup, tree)
  | .analyze files =>
    ((Files.readAll tree input files).map fun sources =>
      .analyzed sources.length (sources.flatMap analyzedLines), tree)
  | .list category =>
    ((categoryNamed category).map fun category => .listed (entriesIn .builtin category), tree)

end Request
end ScriptUpgrade
