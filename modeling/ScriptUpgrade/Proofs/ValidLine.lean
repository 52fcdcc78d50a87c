/-
# Valid lines stay valid

A line is valid if all calls in it are. The rules work on one call after the other, so a valid line
stays valid if no rule spoils a call; and a line that is retired has no calls any more.

A selector becomes an argument where it stands. Before the main command its value becomes the main
command, and right behind the main command it becomes the subcommand:

| line | after the selector rule |
| --- | --- |
| `usacloud --selector=web server list` | `usacloud web server list` |
| `usacloud version --selector=web` | `usacloud version web` |

Zones are joined to their option, which can take a main command away: `usacloud --zone server list`
becomes `usacloud --zone=server list`. So selectors have to stand behind the main command and one
more token, and zones that gaps cut off behind the main command.
-/

import ScriptUpgrade.Proofs.AcceptedRewrite
import ScriptUpgrade.Proofs.Idempotence
import ScriptUpgrade.Proofs.SelectorLine

namespace ScriptUpgrade

namespace Migration

open Fragment Call Command

/-- All calls of a line are commands of the release. -/
def IsAccepted (keyword line : Text) : Prop :=
  ∀ body ∈ bodies keyword line, accepts .builtin (Token.split body) = true

/-- A line is valid if its calls are accepted. -/
theorem isValid_checks_iff {settings : Script.Settings} (hkeyword : Token.IsWord settings.keyword)
    (line : Text) :
    (∀ check ∈ Script.checks settings line, check.isValid = true) ↔
      IsAccepted settings.keyword line := by
  have hchecks : Script.checks settings line =
      (bodies settings.keyword line).map fun body =>
        Script.check settings (settings.keyword ++ body) := by
    rw [Script.checks, Call.all, bodies]
    have := congrArg (List.map (Script.check settings)) (map_text_locate settings.keyword 0
      (dissect settings.keyword line))
    simpa [Function.comp_def] using this
  rw [hchecks, List.forall_mem_map]
  refine forall₂_congr fun body hbody => ?_
  rw [Script.isValid_check hkeyword]
  intro c hc
  exact Text.isBlank_of_isAsciiBlank
    ((isBody_of_mem_dissect (mem_filterMap_body?.1 hbody)).head c hc)

/-- A line without calls is accepted. -/
theorem isAccepted_of_no_call {keyword line : Text} (h : ∀ body, .call body ∉ dissect keyword line) :
    IsAccepted keyword line :=
  fun body hbody => absurd (mem_filterMap_body?.1 hbody) (h body)

theorem isAccepted_of_isComment {keyword line : Text} (h : isComment line = true) :
    IsAccepted keyword line := by
  refine isAccepted_of_no_call fun body hbody => ?_
  rw [dissect_of_isComment h] at hbody
  simp at hbody

theorem isAccepted_passText {rule : Rule} (hrule : rule ∈ exchangeRules) {keyword line : Text}
    (hbodies : ∀ body ∈ bodies keyword line, accepts .builtin (Token.split body) = true →
      accepts .builtin (Token.split (rule.rewrite body)) = true)
    (h : IsAccepted keyword line) : IsAccepted keyword (passText keyword line rule) := by
  rw [IsAccepted, bodies_passText hrule, List.forall_mem_map]
  exact fun body hbody => hbodies body hbody (h body hbody)

/-- The selectors of a body start where tokens may start. -/
theorem each_starts_selector (body : Text) :
    Each (fun front _ _ _ => tokenMayFollow front.getLast? = true) []
      (selectorRule.fragments body) :=
  (each_taken anchored_selector? body).mono fun _ _ _ _ htaken => htaken.starts

theorem accepts_selectorRule {body : Text} (hbehind : AllBehind (selectorRule.fragments body)) :
    accepts .builtin (Token.split body) = true →
      accepts .builtin (Token.split (selectorRule.rewrite body)) = true := by
  have := accepts_selection (each_starts_selector body) hbehind
  rwa [oldText_ruleFragments] at this

/-- A body that a comment cuts off at an exposed value is accepted if it was before. -/
theorem accepts_exposed {body : Text} {kept dropped : List Fragment} {old value blanks : Text}
    (hbehind : AllBehind (selectorRule.fragments body))
    (hbody : selectorRule.fragments body = kept ++ .replaced old ('#' :: value) :: dropped)
    (hblanks : ∀ c ∈ blanks, Text.isAsciiBlank c = true)
    (hkept : newText kept = Text.dropTail Text.isAsciiBlank (newText kept) ++ blanks)
    (h : accepts .builtin (Token.split body) = true) :
    accepts .builtin (Token.split (Text.dropTail Text.isAsciiBlank (newText kept))) = true := by
  have hstarts := each_starts_selector body
  have hold := oldText_ruleFragments selectorRule body
  rw [hbody] at hbehind hstarts hold
  rw [← hold, oldText_append] at h
  have hfront := accepts_of_isSettled (isAsciiBlank_of_tokenMayFollow hstarts.at_replaced)
    (Each.at_replaced hbehind) _ [] h
  rw [List.nil_append, List.append_nil] at hfront
  have hnew := accepts_selection (Each.left hstarts) (Each.left hbehind) hfront
  rw [hkept] at hnew
  exact accepts_of_append_blanks hblanks hnew

theorem isCompletable_eq_false_of_isWord {word : Text} (h : Token.IsWord word) :
    isCompletable word = false := by
  obtain ⟨c, rest, rfl⟩ := List.exists_cons_of_ne_nil h.ne_nil
  have hc : Text.isAsciiBlank c = false := by
    rw [Bool.eq_false_iff]
    intro hblank
    have := (h.plain c List.mem_cons_self).2
    rw [Text.isBlank_of_isAsciiBlank hblank] at this
    cases this
  simp [isCompletable, hc]

theorem firstVisible_ne_none_of_isWord {word : Text} (h : Token.IsWord word) :
    firstVisible word ≠ none := by
  obtain ⟨c, rest, rfl⟩ := List.exists_cons_of_ne_nil h.ne_nil
  simp [firstVisible, (h.plain c List.mem_cons_self).2]

variable {keyword line : Text}

/-- **The selector rule keeps an accepted line accepted**, if all selectors stand behind the main
command and one more token. -/
theorem isAccepted_selector (hkeyword : Token.IsWord keyword)
    (hbehind : ∀ body ∈ bodies keyword line, AllBehind (selectorRule.fragments body))
    (h : IsAccepted keyword line) : IsAccepted keyword (passText keyword line selectorRule) := by
  have hcomment := isComment_visible (firstVisible_ne_none_of_isWord hkeyword) line selectorRule
  have hcompletable := isCompletable_eq_false_of_isWord hkeyword
  obtain ⟨k, ks, rfl⟩ := List.exists_cons_of_ne_nil hkeyword.ne_nil
  cases hline : isComment line with
  | true => exact isAccepted_of_isComment (by rw [hcomment, hline])
  | false =>
    rcases exists_first_exposing (dissect (k :: ks) line) with
      hnone | ⟨left, called, right, hparts, hleft, hexposes⟩
    · rw [IsAccepted, bodies, dissect_selector_of_not_exposing hnone hcomment, filterMap_rewrite,
        List.forall_mem_map]
      exact fun body hbody => accepts_selectorRule (hbehind body hbody) (h body hbody)
    · obtain ⟨kept, old, value, dropped, hcalled, hkept⟩ := hexposes.exists_first
      obtain ⟨before, blanks, tail, hne, hblanks, hsplit, hdissect⟩ :=
        dissect_selector_of_exposing hparts hleft hcalled hkept (by rw [hcomment, hline])
      have hmem : ∀ body, .call body ∈ left ++ [.call called] → body ∈ bodies (k :: ks) line := by
        intro body hbody
        rw [bodies, mem_filterMap_body?, hparts]
        simp only [List.mem_append, List.mem_cons, List.not_mem_nil, or_false] at hbody ⊢
        exact hbody.imp_right Or.inl
      intro body hbody
      rw [bodies, hdissect, mem_filterMap_body?, List.mem_append, List.mem_cons] at hbody
      rcases hbody with hbody | hbody | hbody
      · rw [← mem_filterMap_body?, filterMap_rewrite, List.mem_map] at hbody
        obtain ⟨body, hbody, rfl⟩ := hbody
        have hbody := hmem body (List.mem_append_left _ (mem_filterMap_body?.1 hbody))
        exact accepts_selectorRule (hbehind body hbody) (h body hbody)
      · cases hbody
        have hbody := hmem called (List.mem_append_right _ List.mem_cons_self)
        exact accepts_exposed (hbehind called hbody) hcalled hblanks hsplit (h called hbody)
      · exact absurd hbody (call_notMem_scan_comment hcompletable hne hblanks tail body)

/-- The line that the zone rule works on. -/
def beforeZones (keyword line : Text) : Text :=
  passText keyword (passText keyword line selectorRule) outputRule

theorem isAccepted_inPlace (hkeyword : Token.IsWord keyword)
    (hselectors : ∀ body ∈ bodies keyword line, AllBehind (selectorRule.fragments body))
    (hzones : ∀ body ∈ bodies keyword (beforeZones keyword line),
      GapsBehind (zoneRule.fragments body))
    (h : IsAccepted keyword line) : IsAccepted keyword (inPlace keyword line).line := by
  have houtput : IsAccepted keyword (beforeZones keyword line) :=
    isAccepted_passText (by simp [exchangeRules]) (fun body _ => accepts_outputRule body)
      (isAccepted_selector hkeyword hselectors h)
  have hzone := isAccepted_passText (by simp [exchangeRules])
    (fun body hbody => accepts_zoneRule (hzones body hbody)) houtput
  have hresource := isAccepted_passText (by simp [exchangeRules])
    (fun body _ => accepts_resourceRule body) hzone
  have hproduct := isAccepted_passText (by simp [exchangeRules])
    (fun body _ => accepts_productRule body) hresource
  rw [line_inPlace]
  simp only [exchangeRules, List.foldl_cons, List.foldl_nil]
  exact hproduct

end Migration

namespace Script

open Call Migration

theorem isWord_defaultKeyword : Token.IsWord defaultKeyword :=
  ⟨by decide, by decide⟩

/-- **Migrating a line keeps all its commands valid**, for selectors that stand behind the main
command and one more token and zones that are joined to their option or stand behind the main
command. -/
theorem isValid_of_options_behind (max number : Nat) (line : Text) (ending : Ending)
    (hselectors : ∀ body ∈ bodies defaultKeyword line, AllBehind (selectorRule.fragments body))
    (hzones : ∀ body ∈ bodies defaultKeyword (beforeZones defaultKeyword line),
      GapsBehind (zoneRule.fragments body))
    (h : ∀ check ∈ (processLine { maxSuggestions := max, checkMigrated := false } number line
      ending).checks, check.isValid = true) :
    ∀ check ∈ (processLine { maxSuggestions := max, checkMigrated := true } number line
      ending).checks, check.isValid = true := by
  have hline : IsAccepted defaultKeyword line := (isValid_checks_iff isWord_defaultKeyword line).1 h
  refine (isValid_checks_iff isWord_defaultKeyword (apply defaultKeyword line).migrated).2 ?_
  rcases apply_cases defaultKeyword line with ⟨hmigrated, -⟩ | ⟨guidance, hmigrated⟩ | ⟨hmigrated, -⟩
  · rw [hmigrated]
    exact hline
  · rw [hmigrated]
    exact isAccepted_of_isComment (isComment_comment guidance line)
  · rw [hmigrated]
    exact isAccepted_inPlace isWord_defaultKeyword hselectors hzones hline

/-- Two calls with options of every kind: a joined zone before the main command, a selector and a
zone cut off behind the subcommand, and a selector whose value starts a comment. -/
theorem isValid_of_options_behind_two_calls :
    let line := "usacloud --zone=TK1A server read --selector name=web -o csv --zone IS1B; ".toList ++
      "usacloud disk list --selector=#1 x".toList
    (∀ body ∈ bodies defaultKeyword line, AllBehind (selectorRule.fragments body)) ∧
      (∀ body ∈ bodies defaultKeyword (beforeZones defaultKeyword line),
        GapsBehind (zoneRule.fragments body)) ∧
      (∀ check ∈ (processLine { maxSuggestions := 3, checkMigrated := false } 1 line .lf).checks,
        check.isValid = true) ∧
      ∀ check ∈ (processLine { maxSuggestions := 3, checkMigrated := true } 1 line .lf).checks,
        check.isValid = true := by
  intro line
  have hselectors : ∀ body ∈ bodies defaultKeyword line,
      AllBehind (selectorRule.fragments body) := by
    decide +kernel
  have hzones : ∀ body ∈ bodies defaultKeyword (beforeZones defaultKeyword line),
      GapsBehind (zoneRule.fragments body) := by
    decide +kernel
  have hvalid : ∀ check ∈ (processLine { maxSuggestions := 3, checkMigrated := false } 1 line
      .lf).checks, check.isValid = true := by
    decide +kernel
  exact ⟨hselectors, hzones, hvalid, isValid_of_options_behind 3 1 line .lf hselectors hzones hvalid⟩

/-- A selector before the main command takes its place. -/
theorem exists_valid_line_spoiled : ¬ ∀ (max number : Nat) (line : Text) (ending : Ending),
    (∀ check ∈ (processLine { maxSuggestions := max, checkMigrated := false } number line
      ending).checks, check.isValid = true) →
    ∀ check ∈ (processLine { maxSuggestions := max, checkMigrated := true } number line
      ending).checks, check.isValid = true := by
  intro h
  have hspoiled := h 3 1 "usacloud --selector=web server list".toList .lf (by decide +kernel)
  revert hspoiled
  decide +kernel

/-- The other two places: right behind the main command, and a zone cut off before it. -/
example : ∀ line ∈ ["usacloud version --selector=web".toList, "usacloud --zone server list".toList],
    (∀ check ∈ checks {} line, check.isValid = true) ∧
      ¬ ∀ check ∈ checks {} (apply defaultKeyword line).migrated, check.isValid = true := by
  decide +kernel

end Script
end ScriptUpgrade
