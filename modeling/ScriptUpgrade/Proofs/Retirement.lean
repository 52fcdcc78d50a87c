/-
# Retired lines

A line is retired for what the in-place rules have left of it, and the comment that takes its place is made of
the line as it was at first. The first call that has lost its command in v1 decides what the comment says
(`exists_first_lacking`). No call is found in the comment, whatever blanks it is indented with (`all_comment`),
so nothing of the line is checked or estimated any more.
-/

import ScriptUpgrade.Proofs.CallPlaces
import ScriptUpgrade.Proofs.MainCommand
import ScriptUpgrade.Script.Report

namespace ScriptUpgrade
namespace Migration

open Fragment Call

variable {keyword line : Text}

/-- A table in which no command stands twice gives exactly its entries. -/
theorem lookup_eq_some_iff {table : List (Text × Text)} (hkeys : (table.map Prod.fst).Nodup)
    {command name : Text} : lookup table command = some name ↔ (command, name) ∈ table := by
  refine ⟨mem_of_lookup, fun hmem => ?_⟩
  induction table with
  | nil => cases hmem
  | cons row table ih =>
    rw [List.map_cons, List.nodup_cons] at hkeys
    unfold lookup at ih ⊢
    rcases List.mem_cons.1 hmem with rfl | hmem
    · rw [List.find?_cons_of_pos (by simp)]
      rfl
    · have hne : row.1 ≠ command := by
        rintro rfl
        exact hkeys.1 (List.mem_map.2 ⟨_, hmem, rfl⟩)
      rw [List.find?_cons_of_neg (by simpa using hne)]
      exact ih hkeys.2 hmem

/-- A call body with a command that v1 lacks, and what to do instead. -/
def Lacks (body guidance : Text) : Prop :=
  ∃ front command back, commandWord? body = some (front, command, back) ∧
    (command, guidance) ∈ unsupportedCommands

theorem guidance?_eq_some_iff {body guidance : Text} :
    retirement.guidance? body = some guidance ↔ Lacks body guidance := by
  have hbind : retirement.guidance? body =
      (commandWord? body).bind fun found => lookup unsupportedCommands found.2.1 := rfl
  rw [hbind, Option.bind_eq_some_iff]
  simp only [lookup_eq_some_iff (by decide : (unsupportedCommands.map Prod.fst).Nodup), Lacks, Prod.exists]

theorem guidance?_eq_findSome? (keyword line : Text) :
    guidance? keyword line = (bodies keyword line).findSome? retirement.guidance? := by
  unfold guidance? bodies
  induction dissect keyword line with
  | nil => rfl
  | cons part parts ih =>
    cases part with
    | outside c => exact ih
    | call body =>
      have hcons : (Part.call body :: parts).filterMap Part.body? = body :: parts.filterMap Part.body? := rfl
      rw [hcons, List.findSome?_cons, List.findSome?_cons, ih]

/-- **A line is retired for the first of its calls that v1 lacks.** -/
theorem exists_first_lacking {guidance : Text} (h : guidance? keyword line = some guidance) :
    ∃ left body right, bodies keyword line = left ++ body :: right ∧
      (∀ earlier ∈ left, ∀ other, ¬ Lacks earlier other) ∧ Lacks body guidance := by
  rw [guidance?_eq_findSome?] at h
  obtain ⟨left, body, right, hbodies, hbody, hleft⟩ := List.findSome?_eq_some_iff.1 h
  refine ⟨left, body, right, hbodies, fun earlier hearlier other hlacks => ?_,
    guidance?_eq_some_iff.1 hbody⟩
  rw [← guidance?_eq_some_iff, hleft earlier hearlier] at hlacks
  cases hlacks

theorem not_lacks_of_guidance? (h : guidance? keyword line = none) :
    ∀ body ∈ bodies keyword line, ∀ guidance, ¬ Lacks body guidance := by
  intro body hbody guidance hlacks
  rw [guidance?_eq_findSome?, List.findSome?_eq_none_iff] at h
  rw [← guidance?_eq_some_iff, h body hbody] at hlacks
  cases hlacks

/-- The in-place rules retire nothing. -/
theorem category_of_mem_inPlace {change : Change} (h : change ∈ (inPlace keyword line).changes) :
    change.rule.category ≠ .deprecatedCommand := by
  have hcategories : ∀ rule ∈ inPlaceRules, rule.category ≠ .deprecatedCommand := by decide
  rcases rule_of_mem_foldl_pass h with h | h
  · cases h
  · exact hcategories change.rule h

/-- **A retired line has no calls.** -/
theorem all_comment (keyword guidance line : Text) : Call.all keyword (comment guidance line) = [] :=
  all_of_isComment keyword (isComment_comment guidance line)

end Migration

namespace Script

open Migration Call

/-- Where the migrated line has no calls, nothing is checked or estimated. -/
theorem processLine_of_no_calls {settings : Settings} (hchecked : settings.checkMigrated = true) {line : Text}
    (h : Call.all settings.keyword (apply settings.keyword line).migrated = []) (number : Nat)
    (ending : Ending) :
    (processLine settings number line ending).checks = [] ∧
      (processLine settings number line ending).impact = none := by
  simp [processLine, checks, hchecked, h]

/-- **Retiring a line.** Let `progress` be the line after the in-place rules, none of whose changes retires it.
Either v1 lacks the command of one of its calls; then the line becomes a comment with its indent, the guidance
for the first such call and the line as it was without the blanks around it, one change is added that covers
the whole line, and nothing is left to check or to estimate. Or v1 has the commands of all its calls; then it is
what the line becomes, and no change is added. -/
theorem retires_or_migrates (settings : Settings) (line : Text) :
    let outcome := apply settings.keyword line
    let progress := inPlace settings.keyword line
    (∀ change ∈ progress.changes, change.rule.category ≠ .deprecatedCommand) ∧
    ((∃ left body right guidance, bodies settings.keyword progress.line = left ++ body :: right ∧
        (∀ earlier ∈ left, ∀ other, ¬ Lacks earlier other) ∧ Lacks body guidance ∧
        outcome.migrated = Text.indent line ++ "# usacloud-update: ".toList ++ guidance ++ ": ".toList ++
          Text.trimEnd (Text.trimStart line) ∧
        (∃ change, outcome.changes = progress.changes ++ [change] ∧
          change.rule.category = .deprecatedCommand ∧ change.span = ⟨0, Text.size line⟩) ∧
        Call.all settings.keyword outcome.migrated = [] ∧
        (settings.checkMigrated = true → ∀ text ∈ [line, outcome.migrated], ∀ number ending,
          (processLine settings number text ending).checks = [] ∧
            (processLine settings number text ending).impact = none)) ∨
      ((∀ body ∈ bodies settings.keyword progress.line, ∀ guidance, ¬ Lacks body guidance) ∧
        outcome.migrated = progress.line ∧ outcome.changes = progress.changes)) := by
  intro outcome progress
  refine ⟨fun change hchange => category_of_mem_inPlace hchange, ?_⟩
  rcases apply_outcome settings.keyword line with
    ⟨hnone, happly⟩ | ⟨-, ⟨guidance, hguidance, happly⟩ | ⟨hguidance, happly⟩⟩
  · obtain ⟨hline, hchanges⟩ := inPlace_of_no_call hnone
    refine Or.inr ⟨fun body hbody => ?_, (congrArg Outcome.migrated happly).trans hline.symm,
      (congrArg Outcome.changes happly).trans hchanges.symm⟩
    rw [hline] at hbody
    exact absurd (mem_filterMap_body?.1 hbody) (hnone body)
  · obtain ⟨left, body, right, hbodies, hleft, hlacks⟩ := exists_first_lacking hguidance
    have hmigrated : outcome.migrated = comment guidance line := congrArg Outcome.migrated happly
    have hcalls : Call.all settings.keyword outcome.migrated = [] := by
      rw [hmigrated, all_comment]
    have hagain : (apply settings.keyword outcome.migrated).migrated = outcome.migrated := by
      rw [apply_of_no_call ((locate_eq_nil_iff settings.keyword 0 _).1 hcalls)]
    refine Or.inl ⟨left, body, right, guidance, hbodies, hleft, hlacks, hmigrated,
      ⟨retire guidance line, congrArg Outcome.changes happly, rfl, rfl⟩, hcalls, ?_⟩
    intro hchecked text htext number ending
    refine processLine_of_no_calls hchecked ?_ number ending
    simp only [List.mem_cons, List.not_mem_nil, or_false] at htext
    rcases htext with rfl | rfl
    · exact hcalls
    · rw [hagain, hcalls]
  · exact Or.inr ⟨not_lacks_of_guidance? hguidance, congrArg Outcome.migrated happly,
      congrArg Outcome.changes happly⟩

/-- A line with wide blanks around it, a zone that is rewritten and two commands that v1 lacks. -/
theorem retires_or_migrates_wide_indent :
    let line := "\u3000 usacloud disk list --zone IS1A;usacloud ojs ls && usacloud summary\u00a0".toList
    let outcome := apply defaultKeyword line
    (inPlace defaultKeyword line).changes.length = 1 ∧
      (∃ guidance, outcome.migrated = "\u3000 ".toList ++ "# usacloud-update: ".toList ++ guidance ++
        ": ".toList ++ "usacloud disk list --zone IS1A;usacloud ojs ls && usacloud summary".toList) ∧
      outcome.changes.length = 2 ∧ Call.all defaultKeyword outcome.migrated = [] := by
  intro line outcome
  have hone : (inPlace defaultKeyword line).changes.length = 1 := by decide +kernel
  have hblanks : Text.indent line = "\u3000 ".toList ∧ Text.trimEnd (Text.trimStart line) =
      "usacloud disk list --zone IS1A;usacloud ojs ls && usacloud summary".toList := by
    decide +kernel
  have hlacks : ∃ guidance, guidance? defaultKeyword (inPlace defaultKeyword line).line = some guidance := by
    rw [← Option.isSome_iff_exists]
    decide +kernel
  obtain ⟨-, ⟨-, -, -, guidance, -, -, -, hmigrated, ⟨change, hchanges, -⟩, hcalls, -⟩ | ⟨hnone, -⟩⟩ :=
    retires_or_migrates ⟨defaultKeyword, 3, true⟩ line
  · refine ⟨hone, ⟨guidance, ?_⟩, ?_, hcalls⟩
    · rw [hblanks.1, hblanks.2] at hmigrated
      exact hmigrated
    · rw [hchanges, List.length_append, hone]
      rfl
  · obtain ⟨guidance, hguidance⟩ := hlacks
    obtain ⟨left, body, right, hbodies, -, hlacks⟩ := exists_first_lacking hguidance
    exact absurd hlacks (hnone body (hbodies ▸ List.mem_append_right left List.mem_cons_self) guidance)

end Script
end ScriptUpgrade
