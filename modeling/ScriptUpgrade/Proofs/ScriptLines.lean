/-
# The lines of a converted script

The report on a script has one entry for each of its lines. Read in one way the entries give the script
back, read in the other they give the converted script: `split_eq_given` says that the lines of the
script are the given lines of the report, and `split_text_eq_migrated` that the lines of the converted
script are the migrated ones, with the same endings. So a line keeps its place and its ending, and it
keeps its characters exactly if the report lists no change of it (`lines_of_converted_script`).
-/

import ScriptUpgrade.Proofs.VisibleChange

namespace ScriptUpgrade

namespace Migration

theorem given_apply (keyword line : Text) : (apply keyword line).given = line := by
  rcases apply_outcome keyword line with ⟨-, happly⟩ | ⟨-, ⟨guidance, -, happly⟩ | ⟨-, happly⟩⟩
  all_goals rw [happly]

theorem changes_apply_eq_nil_iff (keyword line : Text) :
    (apply keyword line).changes = [] ↔ (apply keyword line).migrated = line := by
  have hchanged : (apply keyword line).changed = false ↔ (apply keyword line).changes = [] := by
    simp [Outcome.changed]
  rw [← hchanged, ← Bool.not_eq_true, changed_apply_iff, not_not]

end Migration

namespace Script

/-- Every entry of a report is the report on a line. -/
theorem exists_of_mem_lines {settings : Settings} {text : Text} {line : LineReport}
    (h : line ∈ (process settings text).lines) :
    ∃ number, ∃ pair : Text × Ending, line = processLine settings number pair.1 pair.2 := by
  rw [process, processFrom_eq, List.mem_map] at h
  obtain ⟨⟨pair, number⟩, -, rfl⟩ := h
  exact ⟨number, pair, rfl⟩

/-- **The lines of a script are the given lines of the report on it.** -/
theorem split_eq_given (settings : Settings) (text : Text) :
    split text = (process settings text).lines.map fun line => (line.outcome.given, line.ending) := by
  have hview : (process settings text).lines.map (fun line => (line.outcome.given, line.ending)) =
      (split text).map id :=
    map_processFrom settings (fun _ pair => Prod.ext (Migration.given_apply _ pair.1) rfl) 1 _
  rw [hview, List.map_id]

/-- **The lines of the converted script are the migrated lines of the report.** -/
theorem split_text_eq_migrated (settings : Settings) (text : Text) :
    split (process settings text).text =
      (process settings text).lines.map fun line => (line.outcome.migrated, line.ending) := by
  rw [split_text]
  exact (map_processFrom settings (fun _ _ => rfl) 1 (split text)).symm

/-- **Converting a script keeps its lines**: the report lists them in order, the converted script has the
migrated ones in their places with the endings they had, and a line without changes, and only such a
line, is the same in both. -/
theorem lines_of_converted_script (settings : Settings) (text : Text) :
    let report := process settings text
    split text = report.lines.map (fun line => (line.outcome.given, line.ending)) ∧
    split report.text = report.lines.map (fun line => (line.outcome.migrated, line.ending)) ∧
    (split report.text).length = (split text).length ∧
    (split report.text).map Prod.snd = (split text).map Prod.snd ∧
    ∀ line ∈ report.lines, line.outcome.changes = [] ↔ line.outcome.migrated = line.outcome.given := by
  intro report
  have hgiven : split text = report.lines.map fun line => (line.outcome.given, line.ending) :=
    split_eq_given settings text
  have hmigrated : split report.text =
      report.lines.map fun line => (line.outcome.migrated, line.ending) :=
    split_text_eq_migrated settings text
  refine ⟨hgiven, hmigrated, ?_, ?_, fun line hline => ?_⟩
  · rw [hmigrated, hgiven, List.length_map, List.length_map]
  · rw [hmigrated, hgiven, List.map_map, List.map_map]
    rfl
  · obtain ⟨number, pair, rfl⟩ := exists_of_mem_lines hline
    change (Migration.apply settings.keyword pair.1).changes = [] ↔
      (Migration.apply settings.keyword pair.1).migrated =
        (Migration.apply settings.keyword pair.1).given
    rw [Migration.given_apply, Migration.changes_apply_eq_nil_iff]

/-- All endings, a carriage return inside a line and one at its end, an empty line, and a last line that
nothing ends. -/
def mixedEndings : Text :=
  "echo\rdone\r\nusacloud ipv4 list\r\r\n\nusacloud summary \nusacloud zone list".toList

theorem lines_of_converted_script_mixed_endings :
    let report := process {} mixedEndings
    split report.text =
      [("echo\rdone".toList, .crlf), ("usacloud ipaddress list\r".toList, .crlf), ([], .lf),
        ((Migration.apply defaultKeyword "usacloud summary ".toList).migrated, .lf),
        ("usacloud zone list".toList, .none)] ∧
    processLine {} 1 "echo\rdone".toList .crlf ∈ report.lines ∧
    (processLine {} 1 "echo\rdone".toList .crlf).outcome.changes = [] ∧
    (processLine {} 1 "echo\rdone".toList .crlf).outcome.migrated =
      (processLine {} 1 "echo\rdone".toList .crlf).outcome.given := by
  obtain ⟨-, hmigrated, -, -, hsame⟩ := lines_of_converted_script {} mixedEndings
  have hmem : processLine {} 1 "echo\rdone".toList .crlf ∈ (process {} mixedEndings).lines :=
    List.mem_cons_self
  have hchanges : (processLine {} 1 "echo\rdone".toList .crlf).outcome.changes = [] := by
    decide +kernel
  refine ⟨hmigrated.trans ?_, hmem, hchanges, (hsame _ hmem).1 hchanges⟩
  have hlines : (process {} mixedEndings).lines.map
      (fun line => (line.outcome.migrated, line.ending)) =
      (split mixedEndings).map fun pair => ((Migration.apply defaultKeyword pair.1).migrated, pair.2) :=
    map_processFrom {} (fun _ _ => rfl) 1 (split mixedEndings)
  rw [hlines]
  decide +kernel

end Script
end ScriptUpgrade
