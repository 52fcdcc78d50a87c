/-
# Migrating a line twice

A migrated line is not always migrated for good. The pass about selectors goes from left to right, and a
hit that it refuses uses its text up; when a selector in front of that hit is replaced, the next
migration may start the hit one word later and find a selector that it did not see before:

| | line |
| --- | --- |
| given | `usacloud server read --selector x--selector y--selector --selector p` |
| migrated | `usacloud server read x--selector y--selector --selector p` |
| migrated again | `usacloud server read x--selector y--selector p` |

This is the only way. On a migrated line no rule but the one about selectors finds anything
(`fragments_inPlace`), so a second migration changes nothing exactly if that rule finds nothing
(`apply_migrated_iff`), and what it does change starts with a selector (`actsOn_migrated`).
-/

import ScriptUpgrade.Proofs.RewrittenLine

namespace ScriptUpgrade
namespace Migration

open Fragment Call

/-! ### Passes that find nothing -/

theorem editsFrom_eq_nil_iff (start : Nat) (fragments : List Fragment) :
    editsFrom start fragments = [] ↔ fragments = keep (oldText fragments) := by
  induction fragments generalizing start with
  | nil => simp [editsFrom]
  | cons fragment fragments ih =>
    cases fragment with
    | kept c => simp [editsFrom, ih]
    | replaced old new =>
      generalize oldText (.replaced old new :: fragments) = text
      cases text <;> simp [editsFrom]

/-- A pass makes no edit exactly if it keeps every character. -/
theorem edits_fragments_eq_nil_iff (keyword : Text) (rule : Rule) (line : Text) :
    edits (fragments keyword rule line) = [] ↔ fragments keyword rule line = keep line := by
  have h := editsFrom_eq_nil_iff 0 (fragments keyword rule line)
  rwa [oldText_fragments] at h

theorem fragments_eq_keep {keyword : Text} {rule : Rule} {line : Text}
    (h : ∀ body, .call body ∈ dissect keyword line → rule.fragments body = keep body) :
    fragments keyword rule line = keep line := by
  rw [fragments_eq_flatMap]
  conv_rhs => rw [← assemble_dissect keyword line]
  generalize dissect keyword line = parts at h ⊢
  induction parts with
  | nil => rfl
  | cons part parts ih =>
    rw [List.flatMap_cons, ih fun body hbody => h body (List.mem_cons_of_mem _ hbody)]
    cases part with
    | outside c => rfl
    | call body =>
      rw [partFragments, h body (List.mem_cons_self ..), assemble_cons_call, keep_append, keep_append]

/-- A rule that finds nothing in a line leaves it and its changes as they are. -/
theorem pass_of_edits_eq_nil {keyword : Text} {rule : Rule} {progress : Progress}
    (h : edits (fragments keyword rule progress.line) = []) :
    (pass keyword progress rule).line = progress.line ∧
      (pass keyword progress rule).changes = progress.changes := by
  constructor
  · change newText (fragments keyword rule progress.line) = progress.line
    rw [(edits_fragments_eq_nil_iff keyword rule progress.line).1 h, newText_keep]
  · simp [pass, h]

/-- The same for rules that are applied one after the other. -/
theorem foldl_pass_of_edits_eq_nil {keyword : Text} {rules : List Rule} {progress : Progress}
    (h : ∀ rule ∈ rules, edits (fragments keyword rule progress.line) = []) :
    (rules.foldl (pass keyword) progress).line = progress.line ∧
      (rules.foldl (pass keyword) progress).changes = progress.changes := by
  induction rules generalizing progress with
  | nil => exact ⟨rfl, rfl⟩
  | cons rule rules ih =>
    obtain ⟨hline, hchanges⟩ := pass_of_edits_eq_nil (h rule (List.mem_cons_self ..))
    have hrules : ∀ r ∈ rules, edits (fragments keyword r (pass keyword progress rule).line) = [] := by
      intro r hr
      rw [hline]
      exact h r (List.mem_cons_of_mem _ hr)
    obtain ⟨hrestLine, hrestChanges⟩ := ih hrules
    rw [List.foldl_cons, hrestLine, hrestChanges]
    exact ⟨hline, hchanges⟩

/-- Passes only add changes. -/
theorem changes_isPrefix_foldl_pass (keyword : Text) (rules : List Rule) (progress : Progress) :
    progress.changes <+: (rules.foldl (pass keyword) progress).changes := by
  induction rules generalizing progress with
  | nil => exact List.prefix_rfl
  | cons rule rules ih =>
    rw [List.foldl_cons]
    have hpass : progress.changes <+: (pass keyword progress rule).changes := List.prefix_append _ _
    exact hpass.trans (ih _)

theorem line_foldl_pass (keyword : Text) (rules : List Rule) (progress : Progress) :
    (rules.foldl (pass keyword) progress).line = rules.foldl (passText keyword) progress.line := by
  induction rules generalizing progress with
  | nil => rfl
  | cons rule rules ih => exact ih (pass keyword progress rule)

theorem inPlaceRules_eq : inPlaceRules = selectorRule :: exchangeRules := rfl

theorem line_inPlace (keyword line : Text) :
    (inPlace keyword line).line =
      exchangeRules.foldl (passText keyword) (passText keyword line selectorRule) := by
  rw [inPlace, line_foldl_pass, inPlaceRules_eq, List.foldl_cons]

/-- The calls that the in-place rules leave are settled for all of them but the one about selectors. -/
theorem ruleFragments_inPlace {keyword line body : Text} {rule : Rule} (hrule : rule ∈ exchangeRules)
    (hbody : .call body ∈ dissect keyword (inPlace keyword line).line) :
    rule.fragments body = keep body := by
  rw [line_inPlace, dissect_foldl_passText fun _ h => h] at hbody
  obtain ⟨part, -, hpart⟩ := List.mem_map.1 hbody
  cases part with
  | outside c => simp [Part.rewrite] at hpart
  | call body' =>
    obtain rfl : rewriteAll exchangeRules body' = body := by simpa [Part.rewrite] using hpart
    exact fragments_rewriteAll body' hrule

/-- **After the in-place rules all of them but the one about selectors have settled.** -/
theorem fragments_inPlace (keyword line : Text) {rule : Rule} (hrule : rule ∈ exchangeRules) :
    fragments keyword rule (inPlace keyword line).line = keep (inPlace keyword line).line :=
  fragments_eq_keep fun _ hbody => ruleFragments_inPlace hrule hbody

/-! ### The second migration -/

theorem locate_eq_nil_iff (keyword : Text) (start : Nat) (parts : List Part) :
    locate keyword start parts = [] ↔ ∀ body, .call body ∉ parts := by
  induction parts generalizing start with
  | nil => simp [locate]
  | cons part parts ih =>
    cases part with
    | outside c => simp [locate, ih]
    | call body =>
      simp only [locate, List.cons_ne_nil, false_iff, not_forall, not_not]
      exact ⟨body, by simp⟩

theorem apply_of_no_call {keyword line : Text} (h : ∀ body, .call body ∉ dissect keyword line) :
    apply keyword line = ⟨line, line, []⟩ := by
  unfold apply
  rw [if_pos (by rw [List.isEmpty_iff]; exact (locate_eq_nil_iff keyword 0 _).2 h)]

theorem isComment_comment (guidance line : Text) : isComment (comment guidance line) = true := by
  have hblank : ∀ c ∈ Text.indent line, Text.isBlank c = true := fun c hc => List.mem_takeWhile_imp hc
  have hsolid : Text.Stops Text.isBlank ("# usacloud-update: ".toList ++ (guidance ++
      (": ".toList ++ Text.trimEnd (Text.trimStart line)))) := Text.stops_cons.2 (by decide)
  unfold isComment Text.trimStart comment
  rw [List.append_assoc, List.append_assoc, List.append_assoc,
    Text.dropWhile_append_stops hblank hsolid]
  rfl

/-- **What migrating a line gives**: the line as it is if it has no calls, and otherwise a comment if the
in-place rules leave an unsupported call, and what they leave if not. -/
theorem apply_outcome (keyword line : Text) :
    (∀ body, .call body ∉ dissect keyword line) ∧ apply keyword line = ⟨line, line, []⟩ ∨
      (∃ body, .call body ∈ dissect keyword line) ∧
        ((∃ guidance, guidance? keyword (inPlace keyword line).line = some guidance ∧
            apply keyword line = ⟨line, comment guidance line,
              (inPlace keyword line).changes ++ [retire guidance line]⟩) ∨
          guidance? keyword (inPlace keyword line).line = none ∧
            apply keyword line =
              ⟨line, (inPlace keyword line).line, (inPlace keyword line).changes⟩) := by
  by_cases hcalls : all keyword line = []
  · have hnone := (locate_eq_nil_iff keyword 0 _).1 hcalls
    exact Or.inl ⟨hnone, apply_of_no_call hnone⟩
  · refine Or.inr ⟨not_forall_not.1 fun hnone => hcalls ((locate_eq_nil_iff keyword 0 _).2 hnone), ?_⟩
    unfold apply
    rw [if_neg (by rwa [List.isEmpty_iff])]
    dsimp only
    split
    · rename_i guidance hguidance
      exact Or.inl ⟨guidance, hguidance, rfl⟩
    · rename_i hguidance
      exact Or.inr ⟨hguidance, rfl⟩

/-- A line is left as it is, turned into a comment, or taken as the in-place rules leave it. -/
theorem apply_cases (keyword line : Text) :
    (apply keyword line).migrated = line ∧ (∀ body, .call body ∉ dissect keyword line) ∨
      (∃ guidance, (apply keyword line).migrated = comment guidance line) ∨
      (apply keyword line).migrated = (inPlace keyword line).line ∧
        guidance? keyword (inPlace keyword line).line = none := by
  rcases apply_outcome keyword line with
    ⟨hnone, happly⟩ | ⟨-, ⟨guidance, -, happly⟩ | ⟨hguidance, happly⟩⟩
  · exact Or.inl ⟨by rw [happly], hnone⟩
  · exact Or.inr (Or.inl ⟨guidance, by rw [happly]⟩)
  · exact Or.inr (Or.inr ⟨by rw [happly], hguidance⟩)

/-- If the rule about selectors finds something in a line, that is the first change. -/
theorem exists_selector_change {keyword line : Text}
    (h : edits (fragments keyword selectorRule line) ≠ []) :
    ∃ change ∈ (apply keyword line).changes.head?, change.rule = selectorRule := by
  have hchanges : ∃ change ∈ (inPlace keyword line).changes.head?, change.rule = selectorRule := by
    obtain ⟨edit, edits', hedits⟩ := List.exists_cons_of_ne_nil h
    obtain ⟨later, hlater⟩ := changes_isPrefix_foldl_pass keyword exchangeRules
      (pass keyword ⟨line, .untouched line, []⟩ selectorRule)
    rw [inPlace, inPlaceRules_eq, List.foldl_cons, ← hlater]
    simp [pass, hedits]
  rcases apply_outcome keyword line with
    ⟨hnone, -⟩ | ⟨-, ⟨guidance, -, happly⟩ | ⟨-, happly⟩⟩
  · refine absurd ((edits_fragments_eq_nil_iff keyword selectorRule line).2 (fragments_eq_keep ?_)) h
    exact fun body hbody => absurd hbody (hnone body)
  · obtain ⟨change, hchange, hrule⟩ := hchanges
    rw [happly]
    exact ⟨change, by rw [List.head?_append, Option.mem_def.1 hchange]; rfl, hrule⟩
  · rw [happly]
    exact hchanges

theorem changes_apply_ne_nil {keyword line : Text}
    (h : edits (fragments keyword selectorRule line) ≠ []) : (apply keyword line).changes ≠ [] := by
  obtain ⟨change, hchange, -⟩ := exists_selector_change h
  exact List.ne_nil_of_mem (List.mem_of_head? hchange)

/-- A second migration of what the in-place rules have left, if no call of it is unsupported. -/
theorem apply_inPlace {keyword line : Text} (hguidance : guidance? keyword (inPlace keyword line).line = none)
    (hselectors : edits (fragments keyword selectorRule (inPlace keyword line).line) = []) :
    apply keyword (inPlace keyword line).line =
      ⟨(inPlace keyword line).line, (inPlace keyword line).line, []⟩ := by
  generalize hline : (inPlace keyword line).line = once at *
  have hedits : ∀ rule ∈ inPlaceRules, edits (fragments keyword rule once) = [] := by
    intro rule hrule
    rw [inPlaceRules_eq] at hrule
    rcases List.mem_cons.1 hrule with rfl | hrule
    · exact hselectors
    · have := fragments_inPlace keyword line hrule
      rw [hline] at this
      exact (edits_fragments_eq_nil_iff keyword rule once).2 this
  have hpasses : (inPlace keyword once).line = once ∧ (inPlace keyword once).changes = [] :=
    foldl_pass_of_edits_eq_nil hedits
  unfold apply
  split
  · rfl
  · dsimp only
    rw [hpasses.1, hpasses.2, hguidance]

/-- **When a second migration changes nothing**: exactly if the rule about selectors finds nothing in
the migrated line. -/
theorem apply_migrated_iff (keyword line : Text) :
    let once := (apply keyword line).migrated
    let twice := apply keyword once
    (twice.changed = false ∧ twice.changes = [] ∧ twice.migrated = once) ↔
      edits (fragments keyword selectorRule once) = [] := by
  intro once twice
  constructor
  · rintro ⟨-, hchanges, -⟩
    by_contra hselectors
    exact changes_apply_ne_nil hselectors hchanges
  · intro hselectors
    have htwice : twice = ⟨once, once, []⟩ := by
      rcases apply_cases keyword line with ⟨hsame, hnone⟩ | ⟨guidance, hcomment⟩ | ⟨hline, hguidance⟩
      · refine apply_of_no_call ?_
        simp only [once, hsame]
        exact hnone
      · refine apply_of_no_call ?_
        simp only [once, hcomment, dissect_of_isComment (isComment_comment guidance line)]
        simp
      · simp only [twice, once, hline] at hselectors ⊢
        exact apply_inPlace hguidance hselectors
    rw [htwice]
    exact ⟨rfl, rfl, rfl⟩

/-- The migrated line of the table above is not left as it is. -/
example :
    let line := "usacloud server read --selector x--selector y--selector --selector p".toList
    let keyword := "usacloud".toList
    (apply keyword (apply keyword line).migrated).migrated =
      "usacloud server read x--selector y--selector p".toList := by
  decide +kernel

/-! ### What can change a migrated line -/

/-- Whether a rule finds something in a call body: a stretch to replace, or a reason to retire the
line. -/
def Rule.actsOn (rule : Rule) (body : Text) : Bool :=
  !(edits (rule.fragments body)).isEmpty || (rule.guidance? body).isSome

theorem actsOn_eq_false_iff {rule : Rule} {body : Text} :
    rule.actsOn body = false ↔ rule.fragments body = keep body ∧ rule.guidance? body = none := by
  have h := editsFrom_eq_nil_iff 0 (rule.fragments body)
  rw [oldText_ruleFragments] at h
  simp [Rule.actsOn, edits, h]

/-- The guidance for a line is that for one of its calls. -/
theorem exists_of_guidance? {keyword line guidance : Text} (h : guidance? keyword line = some guidance) :
    ∃ body, .call body ∈ dissect keyword line ∧ retirement.guidance? body = some guidance := by
  obtain ⟨part, hpart, hguidance⟩ := List.exists_of_findSome?_eq_some h
  cases part with
  | outside c => cases hguidance
  | call body => exact ⟨body, hpart, hguidance⟩

theorem guidance?_eq_none_iff {keyword line : Text} :
    guidance? keyword line = none ↔
      ∀ body, .call body ∈ dissect keyword line → retirement.guidance? body = none := by
  rw [guidance?, List.findSome?_eq_none_iff]
  constructor
  · intro h body hbody
    exact h _ hbody
  · intro h part hpart
    cases part with
    | outside c => rfl
    | call body => exact h body hpart

/-- On the calls that the in-place rules leave only the rule about selectors can act, if none of them
is unsupported. -/
theorem actsOn_inPlace {keyword line body : Text} {rule : Rule} (hrule : rule ∈ rules)
    (hselector : rule ≠ selectorRule) (hguidance : guidance? keyword (inPlace keyword line).line = none)
    (hbody : .call body ∈ dissect keyword (inPlace keyword line).line) : rule.actsOn body = false := by
  rw [actsOn_eq_false_iff]
  have hcases : rule ∈ exchangeRules ∨ rule = retirement := by
    rw [rules, inPlaceRules_eq] at hrule
    simp only [List.cons_append, List.mem_cons, List.mem_append, List.not_mem_nil, or_false] at hrule
    tauto
  rcases hcases with hexchange | rfl
  · refine ⟨ruleFragments_inPlace hexchange hbody, ?_⟩
    simp only [exchangeRules, List.mem_cons, List.not_mem_nil, or_false] at hexchange
    rcases hexchange with rfl | rfl | rfl | rfl <;> rfl
  · exact ⟨rfl, guidance?_eq_none_iff.1 hguidance body hbody⟩

/-- A migrated line that still has calls is what the in-place rules left, and none of its calls is
unsupported. -/
theorem migrated_of_call {keyword line body : Text}
    (h : .call body ∈ dissect keyword (apply keyword line).migrated) :
    (apply keyword line).migrated = (inPlace keyword line).line ∧
      guidance? keyword (inPlace keyword line).line = none := by
  rcases apply_cases keyword line with ⟨hsame, hnone⟩ | ⟨guidance, hcomment⟩ | hinPlace
  · rw [hsame] at h
    exact absurd h (hnone body)
  · rw [hcomment, dissect_of_isComment (isComment_comment guidance line)] at h
    simp at h
  · exact hinPlace

/-- **All rules but the one about selectors settle in one migration**: on a migrated line none of them
finds anything in any call, so a second migration can only start with a selector. -/
theorem actsOn_migrated (keyword line : Text) :
    let once := (apply keyword line).migrated
    (∀ rule ∈ rules, rule ≠ selectorRule → ∀ body ∈ bodies keyword once, rule.actsOn body = false) ∧
      ∀ change ∈ (apply keyword once).changes.head?, change.rule = selectorRule := by
  intro once
  constructor
  · intro rule hrule hselector body hbody
    have hcall : .call body ∈ dissect keyword once := mem_filterMap_body?.1 hbody
    obtain ⟨hline, hguidance⟩ := migrated_of_call hcall
    rw [show once = (inPlace keyword line).line from hline] at hcall
    exact actsOn_inPlace hrule hselector hguidance hcall
  · intro change hchange
    by_cases hselectors : edits (fragments keyword selectorRule once) = []
    · have hnothing : apply keyword once = ⟨once, once, []⟩ := by
        by_cases hnone : ∀ body, .call body ∉ dissect keyword once
        · exact apply_of_no_call hnone
        · obtain ⟨body, hcall⟩ := not_forall_not.1 hnone
          obtain ⟨hline, hguidance⟩ := migrated_of_call hcall
          rw [show once = (inPlace keyword line).line from hline] at hselectors ⊢
          exact apply_inPlace hguidance hselectors
      rw [hnothing] at hchange
      cases hchange
    · obtain ⟨first, hfirst, hrule⟩ := exists_selector_change hselectors
      rw [Option.mem_unique hchange hfirst, hrule]

/-- A call in which every rule but the last had something to do: only a hidden selector is left. -/
theorem actsOn_migrated_hidden_selector :
    let keyword := "usacloud".toList
    let line := "usacloud --zone IS1A iso-image read -o csv --selector x--selector y--selector --selector p".toList
    let once := (apply keyword line).migrated
    let body := " --zone=is1a cdrom read -o json x--selector y--selector --selector p".toList
    body ∈ bodies keyword once ∧
      (∀ rule ∈ rules, rule ≠ selectorRule → rule.actsOn body = false) ∧
      (apply keyword once).changes.head?.map Change.rule = some selectorRule := by
  intro keyword line once body
  have hbody : body ∈ bodies keyword once := by
    decide +kernel
  obtain ⟨hidle, hfirst⟩ := actsOn_migrated keyword line
  refine ⟨hbody, fun rule hrule hselector => hidle rule hrule hselector body hbody, ?_⟩
  cases hhead : (apply keyword once).changes.head? with
  | none =>
    have hsome : (apply keyword once).changes.head?.isSome = true := by
      decide +kernel
    rw [hhead] at hsome
    cases hsome
  | some change => rw [Option.map_some, hfirst change hhead]

end Migration
end ScriptUpgrade
