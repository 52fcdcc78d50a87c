/-
# Calls after a pass

A pass rewrites the bodies of the calls of a line and nothing else (`passText_eq`). If a rule
exchanges plain tokens, each body keeps its look and the line does not become a comment, so the calls
after the pass are the rewritten calls (`dissect_passText`), also after several such rules in a row
(`dissect_foldl_passText`).
-/

import ScriptUpgrade.Migration.Line
import ScriptUpgrade.Proofs.Rescan
import ScriptUpgrade.Proofs.SettledBody

namespace ScriptUpgrade
namespace Call

open Text (isAsciiBlank)

/-- The first character other than a blank. -/
def firstVisible (text : Text) : Option Char :=
  text.find? fun c => !Text.isBlank c

theorem isComment_eq (line : Text) : isComment line = (firstVisible line == some '#') := by
  unfold isComment Text.trimStart firstVisible
  rw [List.find?_eq_head?_dropWhile_not]
  simp

/-- Two texts have a first character other than a blank, or none of them has, and in none or both it
is `#`. -/
def SameFirst (old new : Text) : Prop :=
  (firstVisible new = none ↔ firstVisible old = none) ∧
    (firstVisible new = some '#' ↔ firstVisible old = some '#')

theorem SameFirst.refl (text : Text) : SameFirst text text :=
  ⟨Iff.rfl, Iff.rfl⟩

theorem SameFirst.append {old new old' new' : Text} (h : SameFirst old new) (h' : SameFirst old' new') :
    SameFirst (old ++ old') (new ++ new') := by
  unfold SameFirst firstVisible at *
  rw [List.find?_append, List.find?_append]
  cases hold : old.find? fun c => !Text.isBlank c with
  | none =>
    rw [h.1.2 hold]
    exact h'
  | some c =>
    cases hnew : new.find? fun c => !Text.isBlank c with
    | none => simp [h.1.1 hnew] at hold
    | some d =>
      rw [hold, hnew] at h
      simpa using h

variable {change : Text → Text}

/-- The parts of a line begin as before if its bodies do. -/
theorem sameFirst_assemble (keyword : Text) {parts : List Part}
    (h : ∀ body, .call body ∈ parts → SameFirst body (change body)) :
    SameFirst (assemble keyword parts) (assemble keyword (rewrite change parts)) := by
  induction parts with
  | nil => exact .refl []
  | cons part parts ih =>
    have htail := ih fun body hbody => h body (by simp [hbody])
    cases part with
    | outside c => exact (SameFirst.refl [c]).append htail
    | call body => exact ((SameFirst.refl keyword).append (h body (by simp))).append htail

/-- What is known of the body of a call. -/
structure IsBody (last : Option Char) (body : Text) : Prop where
  clear : Clear last none body
  head : ∀ c ∈ body.head?, isAsciiBlank c = true
  last : ∀ c ∈ body.getLast?, isAsciiBlank c = false

theorem isBody_of_mem_scan {k : Char} {ks : Text} {before : Option Char} {quote : Quote.State}
    {text called : Text} (h : .call called ∈ scan k ks before quote text) :
    IsBody (k :: ks).getLast? called := by
  fun_induction scan k ks before quote text with
  | case1 => simp at h
  | case2 before quote c text _ ih => exact ih (by simpa using h)
  | case3 before quote c text => simp at h
  | case4 before quote c text _ _ hk rest hrest called' ih =>
    rcases List.mem_cons.1 h with heq | hmem
    · obtain rfl := Part.call.inj heq
      obtain ⟨blanks, stop, hsplit, hclear, hlast, -, -⟩ := exists_body_append (k :: ks).getLast? rest
      refine ⟨hclear, ?_, hlast⟩
      intro c hc
      refine (afterKeyword?_eq_some_iff.1 hrest).2 c ?_
      rw [hsplit, List.head?_append, Option.mem_def.1 hc]
      rfl
    · exact ih hmem
  | case5 before quote c text _ _ _ _ ih => exact ih (by simpa using h)
  | case6 before quote c text _ _ _ ih => exact ih (by simpa using h)

/-- **What is called is a body.** -/
theorem isBody_of_mem_dissect {keyword line called : Text} (h : .call called ∈ dissect keyword line) :
    IsBody keyword.getLast? called := by
  cases keyword with
  | nil => simp [dissect] at h
  | cons k ks =>
    rw [dissect] at h
    split at h
    · simp at h
    · exact isBody_of_mem_scan h

theorem dissect_of_isComment {keyword line : Text} (h : isComment line = true) :
    dissect keyword line = line.map .outside := by
  cases keyword with
  | nil => rfl
  | cons k ks => rw [dissect, if_pos h]

theorem isComment_eq_false_of_call {keyword line body : Text} (h : .call body ∈ dissect keyword line) :
    isComment line = false := by
  rw [Bool.eq_false_iff]
  intro hcomment
  rw [dissect_of_isComment hcomment] at h
  simp at h

theorem dissect_cons {k : Char} {ks line : Text} (h : isComment line = false) :
    dissect (k :: ks) line = scan k ks none none line := by
  rw [dissect, if_neg (by simp [h])]

/-- **If every body keeps its look, the calls of the rewritten line are the rewritten calls.** -/
theorem dissect_rewrite (hnil : change [] = []) {keyword line : Text}
    (hkeeps : ∀ body, .call body ∈ dissect keyword line → Keeps keyword.getLast? body (change body))
    (hcomment : isComment (assemble keyword (rewrite change (dissect keyword line))) =
      isComment line) :
    dissect keyword (assemble keyword (rewrite change (dissect keyword line))) =
      rewrite change (dissect keyword line) := by
  cases hline : isComment line with
  | true =>
    rw [dissect_of_isComment hline, rewrite_map_outside, assemble_outside,
      dissect_of_isComment hline]
  | false =>
    rw [hline] at hcomment
    cases keyword with
    | nil => simp only [dissect, rewrite_map_outside, assemble_outside]
    | cons k ks =>
      rw [dissect_cons hcomment]
      rw [dissect_cons hline] at hkeeps ⊢
      exact scan_rewrite hnil hkeeps

/-! ## The bodies of a line -/

/-- The body of a call. -/
def Part.body? : Part → Option Text
  | .outside _ => none
  | .call body => some body

/-- The bodies of the calls of a line, from left to right. -/
def bodies (keyword line : Text) : List Text :=
  (dissect keyword line).filterMap Part.body?

theorem mem_filterMap_body? {parts : List Part} {body : Text} :
    body ∈ parts.filterMap Part.body? ↔ .call body ∈ parts := by
  rw [List.mem_filterMap]
  constructor
  · rintro ⟨part, hpart, hbody⟩
    cases part with
    | outside c => cases hbody
    | call called =>
      cases hbody
      exact hpart
  · intro h
    exact ⟨_, h, rfl⟩

theorem filterMap_rewrite (change : Text → Text) (parts : List Part) :
    (rewrite change parts).filterMap Part.body? = (parts.filterMap Part.body?).map change := by
  induction parts with
  | nil => rfl
  | cons part parts ih =>
    cases part with
    | outside c => exact ih
    | call body => exact congrArg (change body :: ·) ih

theorem map_text_locate (keyword : Text) (start : Nat) (parts : List Part) :
    (locate keyword start parts).map Stretch.text =
      (parts.filterMap Part.body?).map (keyword ++ ·) := by
  induction parts generalizing start with
  | nil => rfl
  | cons part parts ih =>
    cases part with
    | outside c => exact ih _
    | call body => exact congrArg ((keyword ++ body) :: ·) (ih _)

theorem length_all (keyword line : Text) :
    (all keyword line).length = (bodies keyword line).length := by
  have := congrArg List.length (map_text_locate keyword 0 (dissect keyword line))
  rwa [List.length_map, List.length_map] at this

end Call

namespace Migration

open Fragment Call

/-! ### Exchanges inside a body -/

theorem isPassed_of_isCalm {c : Char} (h : isCalm c = true) : isPassed c = true := by
  simp only [isCalm, Bool.and_eq_true] at h
  simp [isPassed, h.1.1, h.1.2]

/-- **Exchanges keep a text clear.** -/
theorem clear_newText {before before' : Option Char} (hbefore : commentMayFollow before = commentMayFollow before')
    {quote : Quote.State} (hquote : Quote.IsOpen quote) {fragments : List Fragment}
    (hplain : IsPlain fragments) (h : Clear before quote (oldText fragments)) :
    Clear before' quote (newText fragments) := by
  induction fragments generalizing before before' quote with
  | nil => rfl
  | cons fragment fragments ih =>
    have htail : IsPlain fragments := fun old new hmem => hplain old new (List.mem_cons_of_mem _ hmem)
    cases fragment with
    | kept c =>
      obtain ⟨hc, hrest⟩ := clear_append_iff.1 (show Clear before quote ([c] ++ oldText fragments) from h)
      refine clear_append_iff.2 ⟨?_, ih rfl (Quote.isOpen_step hquote c) htail hrest⟩
      unfold Clear at hc ⊢
      rw [← reach_congr hbefore]
      exact hc
    | replaced old new =>
      obtain ⟨hold, hnew⟩ := hplain old new (by simp)
      rw [oldText_replaced] at h
      rw [newText_replaced]
      have hrest := (clear_append_iff.1 h).2
      rw [Quote.run_eq_self hquote hold.noMark] at hrest
      refine clear_append_iff.2
        ⟨clear_of_isPassed (fun c hc => isPassed_of_isCalm (hnew.calm c hc)) _ _, ?_⟩
      rw [Quote.run_eq_self hquote hnew.noMark]
      refine ih ?_ hquote htail hrest
      rw [lastOr_of_ne_nil hold.ne_nil, lastOr_of_ne_nil hnew.ne_nil]
      obtain ⟨c, hc, hzone⟩ := hold.last
      obtain ⟨d, hd, hzone'⟩ := hnew.last
      rw [Option.mem_def.1 hc, Option.mem_def.1 hd, commentMayFollow, commentMayFollow,
        (isZoneChar_classes hzone).2.2.1, (isZoneChar_classes hzone').2.2.1]

theorem IsPlainToken.sameFirst {old new : Text} (hold : IsPlainToken old) (hnew : IsPlainToken new) :
    SameFirst old new := by
  have hsome : ∀ {token : Text}, IsPlainToken token →
      ∃ c, firstVisible token = some c ∧ c ≠ '#' := by
    intro token h
    obtain ⟨c, hc, hblank⟩ := h.first
    obtain ⟨rest, rfl⟩ := List.head?_eq_some_iff.1 hc
    refine ⟨c, by simp [firstVisible, hblank], ?_⟩
    rintro rfl
    exact absurd (h.calm '#' (by simp)) (by decide)
  obtain ⟨c, hc, hc'⟩ := hsome hold
  obtain ⟨d, hd, hd'⟩ := hsome hnew
  unfold SameFirst
  rw [hc, hd]
  simp [hc', hd']

theorem sameFirst_newText {fragments : List Fragment} (hplain : IsPlain fragments) :
    SameFirst (oldText fragments) (newText fragments) := by
  induction fragments with
  | nil => exact .refl []
  | cons fragment fragments ih =>
    have htail := ih fun old new hmem => hplain old new (List.mem_cons_of_mem _ hmem)
    cases fragment with
    | kept c => exact (SameFirst.refl [c]).append htail
    | replaced old new =>
      obtain ⟨hold, hnew⟩ := hplain old new (by simp)
      exact (hold.sameFirst hnew).append htail

theorem SameEnd.alike {left right : Text} (h : SameEnd left right) :
    Alike right.getLast? left.getLast? := by
  rcases h with h | ⟨⟨c, hc, hzone⟩, d, hd, hzone'⟩
  · rw [h]
    exact ⟨rfl, rfl⟩
  · rw [Option.mem_def.1 hc, Option.mem_def.1 hd]
    obtain ⟨-, -, hblank, hfollow⟩ := isZoneChar_classes hzone
    obtain ⟨-, -, hblank', hfollow'⟩ := isZoneChar_classes hzone'
    exact ⟨hfollow.trans hfollow'.symm, hblank.trans hblank'.symm⟩

/-- **A body keeps its look when plain tokens are exchanged in it.** -/
theorem keeps_newText {last : Option Char} {fragments : List Fragment} (hplain : IsPlain fragments)
    (hbody : IsBody last (oldText fragments)) :
    Keeps last (oldText fragments) (newText fragments) where
  head := by
    cases fragments with
    | nil => rfl
    | cons fragment fragments =>
      cases fragment with
      | kept c => rfl
      | replaced old new =>
        -- a body does not begin with a plain token
        obtain ⟨c, hc, hblank⟩ := (hplain old new (by simp)).1.first
        have := hbody.head c (by rw [oldText_replaced, List.head?_append, Option.mem_def.1 hc]; rfl)
        rw [Text.isBlank_of_isAsciiBlank this] at hblank
        exact absurd hblank (by decide)
  follow := (sameEnd_newText hplain).alike.1
  comment := (sameEnd_newText hplain).alike.2
  quote := run_newText Quote.isOpen_none hplain
  clear := clear_newText rfl Quote.isOpen_none hplain hbody.clear

/-! ### Passes over a line -/

theorem oldText_ruleFragments (rule : Rule) (body : Text) : oldText (rule.fragments body) = body := by
  unfold Rule.fragments
  split
  · exact oldText_optionFragments isPlainPattern_outputType?.toAnchored none none body
  · exact oldText_optionFragments anchored_selector? none none body
  · exact oldText_optionFragments isPlainPattern_zone?.toAnchored none none body
  · exact oldText_commandFragments _ body
  · exact oldText_keep body

theorem rewrite_empty (rule : Rule) : rule.rewrite [] = [] := by
  unfold Rule.rewrite Rule.fragments
  split <;> simp [optionFragments, commandFragments, commandWord?]

theorem isPlain_fragments {rule : Rule} (h : rule ∈ exchangeRules) (body : Text) :
    IsPlain (rule.fragments body) := by
  simp only [exchangeRules, List.mem_cons, List.not_mem_nil, or_false] at h
  rcases h with rfl | rfl | rfl | rfl
  · exact isPlain_of_each_swap (each_swap_optionFragments isPlainPattern_outputType? body)
  · exact isPlain_of_each_swap (each_swap_optionFragments isPlainPattern_zone? body)
  · exact isPlain_of_each_swap (each_swap_commandFragments isPlainTable_resourceRenames body)
  · exact isPlain_of_each_swap (each_swap_commandFragments isPlainTable_productAliases body)

/-- A line after a pass. -/
def passText (keyword line : Text) (rule : Rule) : Text :=
  newText (fragments keyword rule line)

/-- The fragments of one part of a line. -/
def partFragments (keyword : Text) (rule : Rule) : Part → List Fragment
  | .outside c => [.kept c]
  | .call body => keep keyword ++ rule.fragments body

theorem fragments_eq_flatMap (keyword : Text) (rule : Rule) (line : Text) :
    fragments keyword rule line = (dissect keyword line).flatMap (partFragments keyword rule) := rfl

theorem oldText_partFragments (keyword : Text) (rule : Rule) (part : Part) :
    oldText (partFragments keyword rule part) = part.text keyword := by
  cases part with
  | outside c => rfl
  | call body => rw [partFragments, oldText_append, oldText_keep, oldText_ruleFragments]; rfl

theorem oldText_flatMap_partFragments (keyword : Text) (rule : Rule) (parts : List Part) :
    oldText (parts.flatMap (partFragments keyword rule)) = assemble keyword parts := by
  induction parts with
  | nil => rfl
  | cons part parts ih =>
    rw [List.flatMap_cons, oldText_append, ih, oldText_partFragments]
    rfl

theorem oldText_fragments (keyword : Text) (rule : Rule) (line : Text) :
    oldText (fragments keyword rule line) = line := by
  rw [fragments_eq_flatMap, oldText_flatMap_partFragments, assemble_dissect]

/-- A pass over parts rewrites the bodies of the calls among them. -/
theorem newText_flatMap_partFragments (keyword : Text) (rule : Rule) (parts : List Part) :
    newText (parts.flatMap (partFragments keyword rule)) =
      assemble keyword (rewrite rule.rewrite parts) := by
  induction parts with
  | nil => rfl
  | cons part parts ih =>
    rw [List.flatMap_cons, newText_append, ih]
    cases part with
    | outside c => rfl
    | call body => rw [partFragments, newText_append, newText_keep]; rfl

/-- **A pass rewrites the bodies of the calls and nothing else.** -/
theorem passText_eq (keyword : Text) (rule : Rule) (line : Text) :
    passText keyword line rule = assemble keyword (rewrite rule.rewrite (dissect keyword line)) :=
  newText_flatMap_partFragments keyword rule (dissect keyword line)

/-- Exchanging plain tokens neither makes a line a comment nor a comment a line. -/
theorem isComment_exchange {rule : Rule} (hrule : rule ∈ exchangeRules) (keyword line : Text) :
    isComment (passText keyword line rule) = isComment line := by
  have hbodies : ∀ body, .call body ∈ dissect keyword line → SameFirst body (rule.rewrite body) := by
    intro body _
    have := sameFirst_newText (isPlain_fragments hrule body)
    rwa [oldText_ruleFragments] at this
  have hfirst := sameFirst_assemble keyword hbodies
  rw [assemble_dissect] at hfirst
  rw [passText_eq, isComment_eq, isComment_eq, Bool.eq_iff_iff, beq_iff_eq, beq_iff_eq]
  exact hfirst.2

/-- **The calls after a pass of an exchanging rule are the rewritten calls.** -/
theorem dissect_passText {rule : Rule} (hrule : rule ∈ exchangeRules) (keyword line : Text) :
    dissect keyword (passText keyword line rule) = rewrite rule.rewrite (dissect keyword line) := by
  have hcomment := isComment_exchange hrule keyword line
  rw [passText_eq] at hcomment ⊢
  refine dissect_rewrite (rewrite_empty rule) (fun body hbody => ?_) hcomment
  have hisBody := isBody_of_mem_dissect hbody
  rw [← oldText_ruleFragments rule body] at hisBody
  have := keeps_newText (isPlain_fragments hrule body) hisBody
  rwa [oldText_ruleFragments] at this

/-- The rules that exchange plain tokens work on one call after the other. -/
theorem bodies_passText {rule : Rule} (hrule : rule ∈ exchangeRules) (keyword line : Text) :
    bodies keyword (passText keyword line rule) = (bodies keyword line).map rule.rewrite := by
  rw [bodies, dissect_passText hrule, filterMap_rewrite, bodies]

/-- The same for several exchanging rules in a row. -/
theorem dissect_foldl_passText {rules : List Rule} (hrules : ∀ rule ∈ rules, rule ∈ exchangeRules)
    (keyword line : Text) :
    dissect keyword (rules.foldl (passText keyword) line) =
      rewrite (rewriteAll rules) (dissect keyword line) := by
  induction rules generalizing line with
  | nil => exact (rewrite_id _).symm
  | cons rule rules ih =>
    rw [List.foldl_cons, ih (fun r hr => hrules r (List.mem_cons_of_mem _ hr)),
      dissect_passText (hrules rule (List.mem_cons_self ..)), rewrite_rewrite]
    rfl

end Migration
end ScriptUpgrade
