/-
# Checking a script before and after it is converted

A script can be checked as it will read when it is converted, or as it is written. Checking it the first
way is the same as converting it and checking the result the second way (`found_converted`): line by
line the same calls are found to be the same.

What makes this true is that converting a script keeps its lines apart (`Script.split_text`), so that the
lines of the converted script are the ones that were checked, under the same numbers. What is reported
about files and calls is computed from what is found in the lines (`checkAll_eq`).
-/

import ScriptUpgrade.Program.Perform
import ScriptUpgrade.Proofs.LineBreaks

namespace ScriptUpgrade

namespace Script

/-- The number of a line and what its calls were found to be. -/
def LineReport.found (line : LineReport) : Nat × List Check :=
  (line.number, line.checks)

/-- **The lines of a script, checked as they will read, are the lines of the converted script.** -/
theorem found_converted (settings : Settings) (text : Text) :
    (process { settings with checkMigrated := true } text).lines.map LineReport.found =
      (process { settings with checkMigrated := false } (process settings text).text).lines.map
        LineReport.found := by
  rw [process, process, processFrom_eq, processFrom_eq, split_text, List.zipIdx_map, List.map_map,
    List.map_map, List.map_map]
  rfl

/-- The converted script depends on no setting but the keyword. -/
theorem text_process_congr (settings settings' : Settings) (h : settings.keyword = settings'.keyword)
    (text : Text) : (process settings text).text = (process settings' text).text := by
  rw [text_process, text_process, h]

end Script

namespace Request

open Digest (Bytes)
open Files (Source Tree)
open Script (LineReport Settings)

/-- What is found in a script, under its name. -/
def foundIn (settings : Settings) (source : Source) : Text × List (Nat × List Script.Check) :=
  (source.name, (Script.process settings source.text).lines.map LineReport.found)

/-- What is reported about scripts, given what is found in them. -/
def tally (strict : Bool) (found : List (Text × List (Nat × List Script.Check))) : Checked where
  files := found.length
  commands := Script.total (found.map fun (_, lines) => Script.total (lines.map (·.2.length)))
  issues := found.flatMap fun (file, lines) => lines.flatMap fun (number, checks) =>
    (checks.filter (!·.isValid)).map fun check => ⟨file, number, check⟩
  strict

/-- **What is reported about scripts depends on what is found in them.** -/
theorem checkAll_eq (settings : Settings) (strict : Bool) (sources : List Source) :
    checkAll settings strict sources = tally strict (sources.map (foundIn settings)) := by
  simp only [checkAll, tally, List.length_map, List.map_map, List.flatMap_map, foundIn, Function.comp_def]
  rfl

/-- The text of a script after it is converted, under its name. -/
def convertedText (source : Source) : Text × Text :=
  (source.name, (reportOn source).text)

/-- **Checking scripts before they are converted is checking the converted scripts.** -/
theorem checkAll_converted {sources sources' : List Source}
    (h : sources'.map (fun source => (source.name, source.text)) = sources.map convertedText)
    (strict : Bool) (maxSuggestions : Nat) :
    checkAll { maxSuggestions, checkMigrated := true } strict sources =
      checkAll { maxSuggestions, checkMigrated := false } strict sources' := by
  have hfound : ∀ source : Source, foundIn { maxSuggestions, checkMigrated := true } source =
      (source.name, (Script.process { maxSuggestions, checkMigrated := false }
        (reportOn source).text).lines.map LineReport.found) := by
    intro source
    have htext : (reportOn source).text = (Script.process { maxSuggestions } source.text).text :=
      Script.text_process_congr {} { maxSuggestions } rfl source.text
    rw [htext]
    exact congrArg (Prod.mk source.name) (Script.found_converted { maxSuggestions } source.text)
  rw [checkAll_eq, checkAll_eq]
  refine congrArg (tally strict) ?_
  have hmap := congrArg (List.map fun pair : Text × Text =>
    (pair.1, (Script.process { maxSuggestions, checkMigrated := false } pair.2).lines.map
      LineReport.found)) h
  rw [List.map_map, List.map_map] at hmap
  rw [List.map_congr_left fun source _ => hfound source]
  exact hmap.symm

theorem readAll_nil (tree : Tree) (text : Text) :
    Files.readAll tree (Utf8.encode text) [] = .ok [.ofText text] := by
  simp only [Files.readAll, Files.readStandardInput, Utf8.decode_encode]
  rfl

/-- **Checking before converting is converting before checking**: in every line of a script, in any
scripts that are read, wherever they and the converted ones come from, and on standard input. -/
theorem check_converted :
    (∀ (settings : Settings) (text : Text),
      (Script.process { settings with checkMigrated := true } text).lines.map LineReport.found =
        (Script.process { settings with checkMigrated := false }
          (Script.process settings text).text).lines.map LineReport.found) ∧
    (∀ (tree tree' : Tree) (input input' : Bytes) (files files' : List Text)
        (sources sources' : List Source) (strict : Bool) (maxSuggestions : Nat),
      Files.readAll tree input files = .ok sources →
      Files.readAll tree' input' files' = .ok sources' →
      sources'.map (fun source => (source.name, source.text)) = sources.map convertedText →
        (perform tree input (.check false strict maxSuggestions files)).1 =
          (perform tree' input' (.check true strict maxSuggestions files')).1) ∧
    ∀ (tree : Tree) (text : Text) (strict : Bool) (maxSuggestions : Nat),
      ∃ checked,
        perform tree (Utf8.encode text) (.check false strict maxSuggestions []) =
          (.ok (.checked checked), tree) ∧
        perform tree (Utf8.encode (Script.process {} text).text)
          (.check true strict maxSuggestions []) = (.ok (.checked checked), tree) := by
  refine ⟨Script.found_converted, ?_, ?_⟩
  · intro tree tree' input input' files files' sources sources' strict maxSuggestions hread hread' h
    have hcheck := checkAll_converted h strict maxSuggestions
    simp only [perform, hread, hread', Except.map, Bool.not_false, Bool.not_true, hcheck]
  · intro tree text strict maxSuggestions
    have hcheck : checkAll { maxSuggestions, checkMigrated := true } strict [.ofText text] =
        checkAll { maxSuggestions, checkMigrated := false } strict
          [.ofText (Script.process {} text).text] :=
      checkAll_converted rfl strict maxSuggestions
    refine ⟨checkAll { maxSuggestions, checkMigrated := false } strict
      [.ofText (Script.process {} text).text], ?_, ?_⟩
    · simp only [perform, readAll_nil, Except.map, Bool.not_false, hcheck]
    · simp only [perform, readAll_nil, Except.map, Bool.not_true]

/-- A line that is renamed, one that is retired, and one that is not valid. -/
def mixedScript : Text :=
  "usacloud ipv4 list\r\nusacloud summary \nusacloud disk lst".toList

/-- A tree with one file. -/
def oneFile (text : Text) : Tree :=
  ⟨[(["a.sh".toList], ⟨1, 1, .file (Utf8.encode text) 0o644⟩)], [], 2, []⟩

/-- The file as it is read. -/
def oneSource (text : Text) : Source :=
  ⟨some ("a.sh".toList,
    ⟨⟨1, (Utf8.encode text).length, some 1⟩, Digest.ofBytes (Utf8.encode text)⟩), text⟩

theorem readAll_oneFile (text : Text) :
    Files.readAll (oneFile text) [] ["a.sh".toList] = .ok [oneSource text] := by
  have hexpand : Files.expand (oneFile text) ["a.sh".toList] = .ok ["a.sh".toList] := by rfl
  have hscript : Files.readScript (oneFile text) "a.sh".toList = .ok (oneSource text) := by
    have hentry : (oneFile text).entryAt false "a.sh".toList =
        .ok ⟨1, 1, .file (Utf8.encode text) 0o644⟩ := by rfl
    have hbytes : (oneFile text).read "a.sh".toList = .ok (Utf8.encode text) := by rfl
    simp only [Files.readScript, hentry, hbytes, Files.accessing, bind, Except.bind,
      Utf8.decode_encode]
    rfl
  simp only [Files.readAll, hexpand, List.isEmpty_cons, Bool.false_eq_true, if_false, bind,
    Except.bind, List.mapM_cons, List.mapM_nil, hscript]
  rfl

theorem check_converted_mixed_script :
    let convertedScript := (Script.process {} mixedScript).text
    Files.readAll (oneFile mixedScript) [] ["a.sh".toList] = .ok [oneSource mixedScript] ∧
    Files.readAll (oneFile convertedScript) [] ["a.sh".toList] = .ok [oneSource convertedScript] ∧
    [oneSource convertedScript].map (fun source => (source.name, source.text)) =
      [oneSource mixedScript].map convertedText ∧
    (perform (oneFile mixedScript) [] (.check false true 3 ["a.sh".toList])).1 =
      (perform (oneFile convertedScript) [] (.check true true 3 ["a.sh".toList])).1 :=
  ⟨readAll_oneFile _, readAll_oneFile _, rfl,
    check_converted.2.1 _ _ _ _ _ _ _ _ true 3 (readAll_oneFile _) (readAll_oneFile _) rfl⟩

end Request
end ScriptUpgrade
