/-
# Running the program

From a command line to what the program prints and the status with which it ends. Reports are JSON
documents; a migrated script is printed as it is.

| status | meaning |
| --- | --- |
| 0 | the request was carried out, or help or the version was asked for |
| 1 | something went wrong |
| 2 | a strict check found something, or the command line cannot be read |
-/

import ScriptUpgrade.Program.Perform

namespace ScriptUpgrade

open Digest (Bytes)
open Files (Tree)

/-- What the program prints and the status with which it ends. -/
structure Output where
  status : Nat
  text : Text
deriving DecidableEq, Repr

/-- The version of the program. -/
def version : Text :=
  "0.1.0".toList

/-- What the program prints when it is asked for help. -/
def helpText : Text :=
  "Rewrite usacloud v0 invocations in shell scripts to v1 syntax

Usage: usacloud-update <COMMAND>

Commands:
  convert   Rewrite scripts to current syntax
  check     Report invalid usacloud invocations with suggestions
  suggest   Suggest command or subcommand names close to a token
  analyze   Estimate risk and complexity of each invocation
  commands  List known commands and subcommands
".toList

/-- A document and the end of its line. -/
def documentText (document : Json) : Text :=
  document.pretty ++ ['\n']

/-- The text of a reply. -/
def Reply.text : Reply → Text
  | .script text => text
  | reply => documentText reply.toJson

/-- The status of a reply. -/
def Reply.status : Reply → Nat
  | .checked result => if result.passed then 0 else 2
  | _ => 0

/-- The output for a command line that asks for nothing that can be carried out. -/
def CommandLine.Rejection.output : CommandLine.Rejection → Output
  | .helpAsked => ⟨0, helpText⟩
  | .versionAsked => ⟨0, "usacloud-update ".toList ++ version ++ ['\n']⟩
  | _ => ⟨2, []⟩

/-- The output for the result of a request. -/
def outputOf : Except Failure Reply → Output
  | .ok reply => ⟨reply.status, reply.text⟩
  | .error failure => ⟨1, documentText failure.toJson⟩

/-- Runs the program. -/
def run (tree : Tree) (input : Bytes) (words : List Text) : Output × Tree :=
  match Request.read words with
  | .error rejection => (rejection.output, tree)
  | .ok request =>
    let (result, tree) := request.perform tree input
    (outputOf result, tree)

end ScriptUpgrade
