/-
# The changes of a line are a diff of it

Migrating a line makes a list of changes, each with the place where its text stood in the line as it was at
first. That list is a faithful diff: every change stands between characters of the line, every change but a
retirement stands inside the body of one call, the changes that no later change covers stand apart, and the
line with these put in their places is the migrated line (`apply_patch_outermost`).

The steps: the passes of the in-place rules keep a history that recounts the changes and follows the calls
(`Follows.pass`), so the history after the last one has all four properties; a retirement is one change that
covers all others.

This holds for lines without line breaks and for all keywords but those that are gaps followed by `#`. With
such a keyword a value that starts a comment completes a keyword that was not there, and the call that it
makes can begin in the middle of another value (`patch_ne_migrated_of_comment_keyword`).
-/

import ScriptUpgrade.Proofs.Idempotence
import ScriptUpgrade.Proofs.Tracking

namespace ScriptUpgrade
namespace Migration

open Fragment Call
open Text (isGap isAsciiBlank)

/-- The blocks of a pass over a line that nothing has changed yet. -/
def initial (fragments : List Fragment) : List Block :=
  fragments.map fun
    | .kept c => .kept c
    | .replaced old new => .absorbs (keep old) new

theorem initial_spec (fragments : List Fragment) :
    earlier (initial fragments) = keep (oldText fragments) ∧ cut (initial fragments) = fragments ∧
      later (initial fragments) = fragments ∧ fresh (initial fragments) = fragments := by
  induction fragments with
  | nil => exact ⟨rfl, rfl, rfl, rfl⟩
  | cons fragment fragments ih =>
    obtain ⟨hearlier, hcut, hlater, hfresh⟩ := ih
    cases fragment with
    | kept c =>
      exact ⟨congrArg (List.cons _) hearlier, congrArg (List.cons _) hcut,
        congrArg (List.cons _) hlater, congrArg (List.cons _) hfresh⟩
    | replaced old new =>
      refine ⟨?_, ?_, ?_, ?_⟩
      · rw [oldText_replaced, keep_append, ← hearlier]
        rfl
      · have hfirst : Block.cut (.absorbs (keep old) new) = [.replaced old new] := by
          rw [Block.cut, newText_keep]
        exact congrArg₂ (· ++ ·) hfirst hcut
      · have hfirst : Block.later (.absorbs (keep old) new) = [.replaced old new] := by
          rw [Block.later, oldText_keep]
        exact congrArg₂ (· ++ ·) hfirst hlater
      · have hfirst : Block.fresh (.absorbs (keep old) new) = [.replaced old new] := by
          rw [Block.fresh, oldText_keep]
        exact congrArg₂ (· ++ ·) hfirst hfresh

/-- A span of a line between characters of it. -/
structure Fits (line : Text) (span : Span) : Prop where
  ordered : span.start ≤ span.stop
  bounded : span.stop ≤ Text.size line
  start : Text.IsBoundary line span.start
  stop : Text.IsBoundary line span.stop

theorem fits_of_mem_laid {fragments : List Fragment} {patch : Patch} (h : patch ∈ laid 0 fragments) :
    Fits (oldText fragments) patch.1 := by
  obtain ⟨left, old, new, right, rfl, rfl⟩ := exists_of_mem_laid h
  simp only [Nat.zero_add, oldText_append, oldText_replaced]
  refine ⟨by dsimp only; omega, ?_, ⟨oldText left, _, rfl, rfl⟩, ⟨oldText left ++ old, oldText right, ?_, ?_⟩⟩
  · rw [Text.size_append, Text.size_append]
    dsimp only
    omega
  · rw [List.append_assoc]
  · rw [Text.size_append]

/-- The progress of a line that a history describes. -/
structure Follows (keyword line : Text) (history : List Fragment) (progress : Progress) : Prop where
  line_eq : progress.line = newText history
  origin_eq : progress.origin = originOf history
  recounts : Recounts line history progress.changes
  tracks : Tracks keyword line 0 history (dissect keyword (newText history))
  fits : ∀ change ∈ progress.changes, Fits line change.span
  inBody : ∀ change ∈ progress.changes, InBody keyword line change.span

/-- **A pass that the blocks of a history describe has a history again.** -/
theorem follows_pass (keyword line : Text) (rule : Rule) (blocks : List Block) (changes : List Change)
    (hcut : cut blocks = fragments keyword rule (newText (earlier blocks))) (hsolid : IsSolid (cut blocks))
    (hrecounts : Recounts line (earlier blocks) changes)
    (htracks : Tracks keyword line 0 (later blocks) (dissect keyword (newText (later blocks))))
    (hfits : ∀ change ∈ changes, Fits line change.span)
    (hinBody : ∀ change ∈ changes, InBody keyword line change.span)
    (hpatches : ∀ patch ∈ laid 0 (fresh blocks), InBody keyword line patch.1) :
    Follows keyword line (later blocks)
      (pass keyword ⟨newText (earlier blocks), originOf (earlier blocks), changes⟩ rule) := by
  obtain ⟨new, hnew, -, hpass⟩ := pass_eq changes hrecounts.solid hcut
  have hmem : ∀ change ∈ new, change.patch ∈ laid 0 (fresh blocks) := fun change hchange =>
    hnew ▸ List.mem_map_of_mem hchange
  rw [hpass]
  refine ⟨rfl, rfl, hrecounts.append hsolid hnew, htracks, ?_, ?_⟩
  · intro change hchange
    rcases List.mem_append.1 hchange with hchange | hchange
    · exact hfits change hchange
    · have h := fits_of_mem_laid (hmem change hchange)
      rwa [oldText_fresh, hrecounts.first] at h
  · intro change hchange
    rcases List.mem_append.1 hchange with hchange | hchange
    · exact hinBody change hchange
    · exact hpatches _ (hmem change hchange)

variable {keyword line : Text}

/-- **A rule that exchanges tokens continues the history.** -/
theorem Follows.pass {history : List Fragment} {progress : Progress}
    (h : Follows keyword line history progress) {rule : Rule} (hrule : rule ∈ exchangeRules) :
    ∃ history', Follows keyword line history' (Migration.pass keyword progress rule) := by
  obtain ⟨text, origin, changes⟩ := progress
  obtain ⟨hline, horigin, hrecounts, htracks, hfits, hinBody⟩ := h
  dsimp only at hline horigin hrecounts hfits hinBody
  subst hline horigin
  obtain ⟨blocks, rfl, hcut, htracks', hpatches⟩ := htracks.exists_blocks hrule
  rw [← fragments_eq_flatMap] at hcut
  have hlater : newText (later blocks) = passText keyword (newText (earlier blocks)) rule := by
    rw [newText_later, hcut]
    rfl
  rw [← dissect_passText hrule, ← hlater] at htracks'
  have hsolid : IsSolid (cut blocks) := by
    rw [hcut, fragments_eq_flatMap]
    exact isSolid_flatMap_partFragments keyword
      (fun body => isSolid_of_isPlain (isPlain_fragments hrule body)) _
  exact ⟨later blocks, follows_pass keyword line rule blocks changes hcut hsolid hrecounts htracks' hfits hinBody hpatches⟩

theorem recounts_keep (line : Text) : Recounts line (keep line) [] where
  first := oldText_keep line
  solid := isSolid_keep line
  shows := by
    rw [laid_keep]
    rfl

/-- **The selector rule starts the history.** -/
theorem follows_selector (hkeyword : beginsComment keyword = false) (hsmooth : IsSmooth line) :
    Follows keyword line (fragments keyword selectorRule line)
      (Migration.pass keyword ⟨line, .untouched line, []⟩ selectorRule) := by
  obtain ⟨hearlier, hcut, hlater, hfresh⟩ := initial_spec (fragments keyword selectorRule line)
  rw [oldText_fragments] at hearlier
  have hsolid := isSolid_flatMap_partFragments keyword isSolid_selector (dissect keyword line)
  have htracks := tracks_selector hkeyword hsmooth
  have hfollows := follows_pass keyword line selectorRule (initial (fragments keyword selectorRule line)) []
  rw [hearlier, hcut, hlater, hfresh, newText_keep, originOf_keep] at hfollows
  refine hfollows rfl hsolid (recounts_keep line) htracks (by simp) (by simp) fun patch hpatch => ?_
  exact inBody_of_mem_laid isSolid_selector hpatch

/-- **The in-place rules leave a line with a history.** -/
theorem follows_inPlace (hkeyword : beginsComment keyword = false) (hsmooth : IsSmooth line) :
    ∃ history, Follows keyword line history (inPlace keyword line) := by
  have hfold : ∀ rules : List Rule, (∀ rule ∈ rules, rule ∈ exchangeRules) →
      ∀ history progress, Follows keyword line history progress →
        ∃ history', Follows keyword line history' (rules.foldl (Migration.pass keyword) progress) := by
    intro rules hrules
    induction rules with
    | nil => exact fun history progress h => ⟨history, h⟩
    | cons rule rules ih =>
      intro history progress h
      obtain ⟨history', h'⟩ := h.pass (hrules rule (by simp))
      exact ih (fun rule hrule => hrules rule (List.mem_cons_of_mem _ hrule)) history' _ h'
  rw [inPlace, inPlaceRules_eq, List.foldl_cons]
  exact hfold exchangeRules (fun _ h => h) _ _ (follows_selector hkeyword hsmooth)

/-! ### The retirement -/

theorem ne_nil_of_call (h : ¬ (Call.all keyword line).isEmpty = true) : line ≠ [] := by
  rintro rfl
  apply h
  cases keyword with
  | nil => rfl
  | cons k ks =>
    have hdissect : dissect (k :: ks) [] = [] := by
      rw [dissect_cons (by decide), scan]
    rw [Call.all, hdissect]
    rfl

theorem comment_ne_nil (guidance line : Text) : comment guidance line ≠ [] := by
  simp [comment]

/-- A retirement covers all changes before it, and its history is the whole line. -/
theorem recounts_retire {changes : List Change} (guidance : Text) (hne : line ≠ [])
    (h : ∀ change ∈ changes, Fits line change.span) :
    Recounts line [.replaced line (comment guidance line)] (changes ++ [retire guidance line]) where
  first := by simp
  solid := by
    intro old new hmem
    obtain ⟨rfl, rfl⟩ : old = line ∧ new = comment guidance line := by simpa using hmem
    exact ⟨hne, comment_ne_nil guidance _⟩
  shows := by
    have hcovered : (outermost changes).filter (fun change =>
        !([retire guidance line].any fun other => decide (change.span.Within other.span))) = [] := by
      rw [List.filter_eq_nil_iff]
      intro change hchange
      have hfits := h change ((outermost_sublist changes).subset hchange)
      have hwithin : change.span.Within (retire guidance line).span := ⟨Nat.zero_le _, hfits.bounded⟩
      simp [hwithin]
    rw [outermost_append changes (List.pairwise_singleton _ _), hcovered, List.nil_append, laid_replaced,
      Nat.zero_add]
    rfl

/-! ### The diff -/

theorem isSmooth_of_no_break (h : ∀ c ∈ line, c ≠ '\n' ∧ c ≠ '\r' ∧ c ≠ '\x0c') : IsSmooth line := by
  intro c hc hblank
  obtain ⟨hfeed, hreturn, hform⟩ := h c hc
  simp only [isAsciiBlank, Bool.or_eq_true, beq_iff_eq] at hblank
  simp only [isGap, Bool.or_eq_true, beq_iff_eq]
  tauto

/-- **The changes of a line are a faithful diff of it.** For every line without line breaks and every
keyword that is not gaps followed by `#`: every change stands between characters of the line; every change
but a retirement stands inside the body of a call; the changes that lie within no later one stand apart;
and the line with these in the place of their spans is the migrated line. -/
theorem apply_patch_outermost (keyword line : Text) (hkeyword : beginsComment keyword = false)
    (hline : ∀ c ∈ line, c ≠ '\n' ∧ c ≠ '\r' ∧ c ≠ '\x0c') :
    let outcome := apply keyword line
    (∀ change ∈ outcome.changes, Fits line change.span) ∧
      (∀ change ∈ outcome.changes, change.rule.category ≠ .deprecatedCommand →
        InBody keyword line change.span) ∧
      (outermost outcome.changes).Pairwise (fun left right => left.span.Apart right.span) ∧
      patch ((outermost outcome.changes).map Change.patch) line = outcome.migrated := by
  intro outcome
  have hsmooth := isSmooth_of_no_break hline
  by_cases hcalls : (Call.all keyword line).isEmpty = true
  · have houtcome : outcome = ⟨line, line, []⟩ := if_pos hcalls
    have hrecounts := recounts_keep line
    rw [houtcome]
    refine ⟨by simp, by simp, hrecounts.pairwise, ?_⟩
    rw [hrecounts.patch_eq, newText_keep]
  · obtain ⟨history, hfollows⟩ := follows_inPlace hkeyword hsmooth
    have houtcome : outcome = _ := if_neg hcalls
    dsimp only at houtcome
    cases hguidance : guidance? keyword (inPlace keyword line).line with
    | none =>
      rw [hguidance] at houtcome
      rw [houtcome]
      refine ⟨hfollows.fits, fun change hchange _ => hfollows.inBody change hchange,
        hfollows.recounts.pairwise, ?_⟩
      rw [hfollows.recounts.patch_eq, hfollows.line_eq]
    | some guidance =>
      rw [hguidance] at houtcome
      have hrecounts := recounts_retire guidance (ne_nil_of_call hcalls) hfollows.fits
      rw [houtcome]
      refine ⟨?_, ?_, hrecounts.pairwise, ?_⟩
      · intro change hchange
        rcases List.mem_append.1 hchange with hchange | hchange
        · exact hfollows.fits change hchange
        · rw [List.mem_singleton.1 hchange]
          exact ⟨Nat.zero_le _, le_rfl, ⟨[], line, rfl, rfl⟩, ⟨line, [], by simp, rfl⟩⟩
      · intro change hchange hcategory
        rcases List.mem_append.1 hchange with hchange | hchange
        · exact hfollows.inBody change hchange
        · rw [List.mem_singleton.1 hchange] at hcategory
          exact absurd rfl hcategory
      · rw [hrecounts.patch_eq]
        simp

/-- The output option absorbs a selector that stood between its name and its format. -/
theorem apply_patch_outermost_absorbing :
    let keyword := "usacloud".toList
    let line := "ls; usacloud -o --selector csv server read --selector 'name=a b' --zone IS1A | jq .".toList
    let outcome := apply keyword line
    beginsComment keyword = false ∧ (∀ c ∈ line, c ≠ '\n' ∧ c ≠ '\r' ∧ c ≠ '\x0c') ∧
      outcome.changes.length = 4 ∧ (outermost outcome.changes).length = 3 ∧
      (∀ change ∈ outcome.changes, Fits line change.span) ∧
      (∀ change ∈ outcome.changes, change.rule.category ≠ .deprecatedCommand →
        InBody keyword line change.span) ∧
      (outermost outcome.changes).Pairwise (fun left right => left.span.Apart right.span) ∧
      patch ((outermost outcome.changes).map Change.patch) line = outcome.migrated :=
  ⟨by decide, by decide, by decide +kernel, by decide +kernel,
    apply_patch_outermost _ _ (by decide) (by decide)⟩

/-- **A keyword of gaps and `#` breaks the diff.** The value `#` completes the keyword `␣#␣'`, its call begins
inside the quotes of the second value, and the option there counts as all of that value. -/
theorem patch_ne_migrated_of_comment_keyword :
    let keyword := " # '".toList
    let line := "; # ' x( --selector=# --selector ' -o csv b'".toList
    let outcome := apply keyword line
    (∀ c ∈ line, c ≠ '\n' ∧ c ≠ '\r' ∧ c ≠ '\x0c') ∧
      patch ((outermost outcome.changes).map Change.patch) line ≠ outcome.migrated := by
  decide +kernel

end Migration
end ScriptUpgrade
