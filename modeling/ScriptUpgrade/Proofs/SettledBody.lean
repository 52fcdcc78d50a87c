/-
# Bodies after the exchanging rules

The rules about output types, zones and commands, applied to a call body in this order, leave a body
in which none of them finds anything (`fragments_rewriteAll`).

| after | output types | zones | commands |
| --- | --- | --- | --- |
| output rule | quiet | | |
| zone rule | stays quiet: a zone is no output type | quiet | |
| renaming rules | stays quiet: no new name starts with a removed format | stays quiet: what would reach a new name had reached the old one | settled: no new name is renamed again |
-/

import ScriptUpgrade.Proofs.Settling

namespace ScriptUpgrade
namespace Migration

open Fragment

/-- Where an exchanged token is an option, no hit reaches into it. -/
theorem not_reach_of_dash {hit? : Text → Option Hit} (hpattern : IsPlainPattern hit?)
    {fragments : List Fragment} (hswap : Each Swap [] fragments)
    (hdash : ∀ old new, .replaced old new ∈ fragments → new.head? = some '-')
    (left : List Fragment) (text old new : Text) (right : List Fragment)
    (hsplit : fragments = left ++ keep text ++ .replaced old new :: right) (hne : text ≠ [])
    (reached becomes rest : Text) (hreached : reached ≠ []) (hnew : new ++ newText right = reached ++ rest) :
    ¬ Taken hit? (oldText left) (text ++ reached) becomes rest := by
  intro htaken
  subst hsplit
  have hstarts := hswap.at_replaced.starts
  rw [List.nil_append, oldText_append, oldText_keep, List.getLast?_append_of_ne_nil _ hne] at hstarts
  refine (hpattern.matched htaken.hit).unbroken text reached rfl hne hstarts ?_
  obtain ⟨new, rfl⟩ := List.head?_eq_some_iff.1 (hdash old new (by simp))
  obtain ⟨c, reached, rfl⟩ := List.exists_cons_of_ne_nil hreached
  rw [← (List.cons.inj hnew).1]
  rfl

/-- **A pass about options leaves a quiet body.** -/
theorem quiet_optionFragments {hit? : Text → Option Hit} (hpattern : IsPlainPattern hit?)
    (body : Text) : Quiet hit? (newText (optionFragments hit? none none body)) := by
  have hswap := each_swap_optionFragments hpattern body
  have htaken := each_taken hpattern.toAnchored body
  refine quiet_newText hpattern hswap (spared_optionFragments hpattern body) ?_
    (not_reach_of_dash hpattern hswap ?_)
  · rintro left old new right hsplit ⟨old', new', rest, hnew, hagain⟩
    rw [hsplit] at htaken hswap
    have hends : tokenMayPrecede (newText right) = true := by
      rw [tokenMayPrecede_newText fun o n h => isPlain_of_each_swap hswap o n (by simp [h])]
      exact hswap.at_replaced.ends
    refine hpattern.settles htaken.at_replaced.hit hends old' new' ?_
    rw [hnew]
    exact hagain.hit
  · intro old new hmem
    obtain ⟨left, rest, h⟩ := htaken.of_mem hmem
    exact (hpattern.becomes h.hit).2

theorem outputType?_zone (rest : Text) : outputType? ("--zone=".toList ++ rest) = none := rfl

/-- What a zone becomes starts with `--zone=`. -/
theorem exists_zone_append {text old new : Text} (h : zone? text = some ⟨old, some new⟩) :
    ∃ name, new = "--zone=".toList ++ name := by
  obtain ⟨mark, name, rest, -, -, -, -, heq⟩ := zone?_shape h
  simp only [Hit.mk.injEq] at heq
  obtain ⟨-, hnew⟩ := heq
  split at hnew
  · simp at hnew
  · exact ⟨_, Option.some.inj hnew⟩

/-- **Writing zones in one way makes no output option.** -/
theorem quiet_outputType?_zone? {body : Text} (h : Quiet outputType? body) :
    Quiet outputType? (newText (optionFragments zone? none none body)) := by
  have hswap := each_swap_optionFragments isPlainPattern_zone? body
  have htaken := each_taken isPlainPattern_zone?.toAnchored body
  refine quiet_newText isPlainPattern_outputType? hswap ?_ ?_
    (not_reach_of_dash isPlainPattern_outputType? hswap ?_)
  · refine spared_of_quiet ?_
    rwa [oldText_optionFragments isPlainPattern_zone?.toAnchored]
  · rintro left old new right hsplit ⟨old', new', rest, hnew, hagain⟩
    rw [hsplit] at htaken
    obtain ⟨name, rfl⟩ := exists_zone_append htaken.at_replaced.hit
    have hhit := hagain.hit
    rw [← hnew, List.append_assoc, outputType?_zone] at hhit
    simp at hhit
  · intro old new hmem
    obtain ⟨left, rest, htaken⟩ := htaken.of_mem hmem
    exact (isPlainPattern_zone?.becomes htaken.hit).2

/-! ### Renaming -/

/-- An option that is cut after a blank and in front of a letter, a digit or a dash is cut between its
separator and its value. -/
theorem option_cut {name mark value text reached : Text}
    (hname : ∀ c ∈ name, Text.isAsciiBlank c = false) (hmark : ∀ c ∈ mark, isZoneChar c = false)
    (hvalue : ∀ c ∈ value, Text.isAsciiBlank c = false) (hcut : name ++ mark ++ value = text ++ reached)
    (hne : text ≠ []) (htext : tokenMayFollow text.getLast? = true)
    (hreached : ∃ c ∈ reached.head?, isZoneChar c = true) : text = name ++ mark ∧ reached = value := by
  obtain ⟨front, b, rfl⟩ := (List.eq_nil_or_concat' text).resolve_left hne
  rw [List.getLast?_concat, tokenMayFollow] at htext
  obtain ⟨c, hc, hzone⟩ := hreached
  rcases Text.append_eq_append_cases hcut.symm with ⟨e, hfront, rfl⟩ | ⟨e, hne', hfront, rfl⟩
  · rcases List.eq_nil_or_concat' e with rfl | ⟨e, d, rfl⟩
    · exact ⟨by simpa using hfront, rfl⟩
    · -- the blank before the cut would be in the value
      rw [← List.append_assoc] at hfront
      obtain ⟨-, hd⟩ := List.append_inj' hfront rfl
      rw [List.singleton_inj.1 hd, hvalue d (by simp)] at htext
      exact absurd htext Bool.false_ne_true
  · obtain ⟨d, e, rfl⟩ := List.exists_cons_of_ne_nil hne'
    rcases Text.append_eq_append_cases hfront with ⟨e', rfl, -⟩ | ⟨e', -, -, rfl⟩
    · rw [hname b (by simp)] at htext
      exact absurd htext Bool.false_ne_true
    · obtain rfl : d = c := by simpa using hc
      rw [hmark d (by simp)] at hzone
      exact absurd hzone Bool.false_ne_true

/-- A table of names none of which starts with a removed format or is renamed again. -/
structure IsStable (table : List (Text × Text)) : Prop where
  plain : IsPlainTable table
  noFormat : ∀ row ∈ table, 3 ≤ row.2.length ∧ removedFormat? row.2 = none

theorem isStable_resourceRenames : IsStable resourceRenames :=
  ⟨isPlainTable_resourceRenames, by decide⟩

theorem isStable_productAliases : IsStable productAliases :=
  ⟨isPlainTable_productAliases, by decide⟩

/-- A name that no removed format starts. -/
theorem not_isFormat_of_append {name rest format rest' : Text} (hlength : 3 ≤ name.length)
    (hname : removedFormat? name = none) (h : name ++ rest = format ++ rest') : ¬ IsFormat format := by
  intro hformat
  obtain ⟨c, s, v, rfl, -⟩ := hformat.exists_cons
  match name, hlength with
  | a :: b :: d :: name, _ =>
    simp only [List.cons_append, List.cons.injEq, List.nil_append] at h
    obtain ⟨rfl, rfl, rfl, -⟩ := h
    have hsome : removedFormat? (a :: b :: d :: name) = some [a, b, d] :=
      removedFormat?_eq_some.2 ⟨hformat, name, rfl⟩
    rw [hsome] at hname
    simp at hname

theorem noBlank_of_isTokenChar {text : Text} (h : ∀ c ∈ text, isTokenChar c = true) :
    ∀ c ∈ text, Text.isAsciiBlank c = false := by
  intro c hc
  have := h c hc
  simp only [isTokenChar, Bool.and_eq_true, Bool.not_eq_eq_eq_not, Bool.not_true] at this
  exact this.2

theorem isZoneChar_eq_false_of_isGap {c : Char} (h : Text.isGap c = true) : isZoneChar c = false := by
  simp only [Text.isGap, Bool.or_eq_true, beq_iff_eq] at h
  rcases h with rfl | rfl <;> decide

theorem IsSeparator.noZoneChar {mark : Text} (h : IsSeparator mark) :
    ∀ c ∈ mark, isZoneChar c = false := by
  rcases h with rfl | ⟨-, hgaps⟩
  · decide
  · exact fun c hc => isZoneChar_eq_false_of_isGap (hgaps c hc)

theorem IsZoneMark.noZoneChar {mark : Text} (h : IsZoneMark mark) :
    ∀ c ∈ mark, isZoneChar c = false := by
  rcases h with ⟨-, hgaps⟩ | ⟨left, right, rfl, hleft, hright⟩
  · exact fun c hc => isZoneChar_eq_false_of_isGap (hgaps c hc)
  · intro c hc
    simp only [List.mem_append, List.mem_cons] at hc
    rcases hc with hc | rfl | hc
    · exact isZoneChar_eq_false_of_isGap (hleft c hc)
    · decide
    · exact isZoneChar_eq_false_of_isGap (hright c hc)

section Renaming

variable {table : List (Text × Text)} (htable : IsStable table) {body : Text} {left right : List Fragment}
  {old new : Text}

include htable

/-- A name from a table starts with a letter or a digit of ASCII. -/
theorem IsStable.exists_cons (hmem : (old, new) ∈ table) :
    ∃ c tail, new = c :: tail ∧ c ≠ '-' ∧ isZoneChar c = true := by
  obtain ⟨c, tail, rfl, hc, hall⟩ := isPlainName_iff.1 (htable.plain _ hmem).2
  exact ⟨c, tail, rfl, hc, hall c (by simp)⟩

/-- No option begins at a new name. -/
theorem not_accepts_of_renamed {hit? : Text → Option Hit} (hanchored : Anchored hit?)
    (hsplit : commandFragments table body = left ++ .replaced old new :: right) :
    ¬ Accepts hit? (newText left) (new ++ newText right) := by
  rintro ⟨old', new', rest, hnew, htaken⟩
  have hrenamed := each_commandFragments table body
  rw [hsplit] at hrenamed
  obtain ⟨c, tail, rfl, hc, -⟩ := htable.exists_cons hrenamed.at_replaced.entry
  obtain ⟨ms, rfl⟩ := htaken.exists_cons hanchored
  exact hc (List.cons.inj hnew).1

/-- An option that reaches into a new name has that name, or its beginning, as its value. -/
theorem reached_value {text reached rest name mark value : Text}
    (hsplit : commandFragments table body = left ++ keep text ++ .replaced old new :: right)
    (hne : text ≠ []) (hreached : reached ≠ []) (hnew : new ++ newText right = reached ++ rest)
    (hname : ∀ c ∈ name, Text.isAsciiBlank c = false) (hmark : ∀ c ∈ mark, isZoneChar c = false)
    (hvalue : ∀ c ∈ value, Text.isAsciiBlank c = false) (hcut : text ++ reached = name ++ mark ++ value) :
    text = name ++ mark ∧ reached = value ∧ tokenMayFollow text.getLast? = true := by
  have hrenamed := each_commandFragments table body
  rw [hsplit] at hrenamed
  obtain ⟨c, tail, rfl, -, hzone⟩ := htable.exists_cons hrenamed.at_replaced.entry
  obtain ⟨d, reached, rfl⟩ := List.exists_cons_of_ne_nil hreached
  have hstarts := (hrenamed.at_replaced.swap htable.plain).starts
  rw [List.nil_append, oldText_append, oldText_keep, List.getLast?_append_of_ne_nil _ hne] at hstarts
  obtain ⟨htext, hvalue'⟩ := option_cut hname hmark hvalue hcut.symm hne hstarts
    ⟨d, rfl, by rw [← (List.cons.inj hnew).1]; exact hzone⟩
  exact ⟨htext, hvalue', hstarts⟩

/-- **Renaming a command makes no output option.** -/
theorem quiet_outputType?_rename (h : Quiet outputType? body) :
    Quiet outputType? (newText (commandFragments table body)) := by
  refine quiet_newText isPlainPattern_outputType? (each_swap_commandFragments htable.plain body) ?_
    (fun left old new right => not_accepts_of_renamed htable isPlainPattern_outputType?.toAnchored) ?_
  · refine spared_of_quiet ?_
    rwa [oldText_commandFragments]
  · intro left text old new right hsplit hne reached becomes rest hreached hnew htaken
    obtain ⟨flag, mark, format, rest', hflag, hmark, hformat, -, heq⟩ := outputType?_shape htaken.hit
    obtain ⟨-, rfl, -⟩ := reached_value htable hsplit hne hreached hnew
      (noBlank_of_isTokenChar (outputFlags_chars hflag).2) hmark.noZoneChar
      (noBlank_of_isTokenChar hformat.chars.2.1) (Hit.mk.inj heq).1
    have hrenamed := each_commandFragments table body
    rw [hsplit] at hrenamed
    obtain ⟨hlength, hnone⟩ := htable.noFormat _ hrenamed.at_replaced.entry
    exact not_isFormat_of_append hlength hnone hnew hformat

/-- **Renaming a command makes no zone option.** -/
theorem quiet_zone?_rename (h : Quiet zone? body) :
    Quiet zone? (newText (commandFragments table body)) := by
  have hspared : Spared zone? (commandFragments table body) := by
    refine spared_of_quiet ?_
    rwa [oldText_commandFragments]
  refine quiet_newText isPlainPattern_zone? (each_swap_commandFragments htable.plain body) hspared
    (fun left old new right => not_accepts_of_renamed htable isPlainPattern_zone?.toAnchored) ?_
  intro left text old new right hsplit hne reached becomes rest hreached hnew htaken
  obtain ⟨mark, name, rest', hmark, hname, -, -, heq⟩ := zone?_shape htaken.hit
  obtain ⟨htext, -, hstarts⟩ := reached_value htable hsplit hne hreached hnew (by decide)
    hmark.noZoneChar (noBlank_of_isTokenChar hname.chars.2.1) (Hit.mk.inj heq).1
  -- the old command is a zone name as well, so a zone option stood here before
  have hrenamed := each_commandFragments table body
  rw [hsplit] at hrenamed
  have hold : IsZoneName old := isPlainName_iff.1 (htable.plain _ hrenamed.at_replaced.entry).1
  have hends := (hrenamed.at_replaced.swap htable.plain).ends
  have hhit := zone?_hit hmark hold (stops_of_tokenMayPrecede hends)
  rw [if_neg] at hhit
  · refine hspared left text (.replaced old new :: right) hsplit hne ⟨_, _, oldText right, ?_,
      hhit, htaken.outside, htaken.starts, hends⟩
    rw [htext, oldText_replaced, List.append_assoc, List.append_assoc, List.append_assoc]
  · -- a blank stands before the old command, so the option is not written in the one way
    intro hcanonical
    rw [List.append_assoc] at hcanonical
    have hmark' : '=' :: old.map Char.toLower = mark ++ old :=
      List.append_cancel_left (show "--zone".toList ++ _ = _ from hcanonical)
    have hlength := congrArg List.length hmark'
    simp only [List.length_cons, List.length_map, List.length_append] at hlength
    obtain ⟨c, rfl⟩ := List.length_eq_one_iff.1 (show mark.length = 1 by omega)
    rw [htext, List.getLast?_concat, ← (List.cons.inj hmark').1] at hstarts
    exact absurd hstarts (by decide)

end Renaming

/-! ### All rules in order -/

/-- What a rule makes of a call body. -/
def Rule.rewrite (rule : Rule) (body : Text) : Text :=
  newText (rule.fragments body)

/-- The rules that exchange plain tokens, in the order in which they are applied. -/
def exchangeRules : List Rule :=
  [outputRule, zoneRule, resourceRule, productRule]

/-- What rules make of a call body, one after the other. -/
def rewriteAll (rules : List Rule) (body : Text) : Text :=
  rules.foldl (fun body rule => rule.rewrite body) body

theorem lookup_renamed_twice (command : Text) :
    lookup resourceRenames (renamed productAliases (renamed resourceRenames command)) = none ∧
      lookup productAliases (renamed productAliases (renamed resourceRenames command)) = none :=
  ⟨lookup_renamed (by decide) fun _ => lookup_renamed (by decide) id, lookup_renamed (by decide) id⟩

theorem commandFragments_of_lookup_eq_none {table : List (Text × Text)} {body : Text}
    (h : ∀ front command back, commandWord? body = some (front, command, back) →
      lookup table command = none) : commandFragments table body = keep body := by
  unfold commandFragments
  split
  · rfl
  · rename_i front command back hword
    rw [h _ _ _ hword]

/-- The command of a body after both renaming rules is in neither table. -/
theorem lookup_eq_none_of_renamed_twice {body front command back : Text}
    (h : commandWord? (newText (commandFragments productAliases
      (newText (commandFragments resourceRenames body)))) = some (front, command, back)) :
    lookup resourceRenames command = none ∧ lookup productAliases command = none := by
  rw [commandWord?_newText_commandFragments isPlainTable_productAliases,
    commandWord?_newText_commandFragments isPlainTable_resourceRenames] at h
  cases hword : commandWord? body with
  | none => simp [hword] at h
  | some found =>
    obtain ⟨front', command', back'⟩ := found
    simp only [hword, Option.map_some, Option.some.injEq, Prod.mk.injEq] at h
    obtain ⟨-, rfl, -⟩ := h
    exact lookup_renamed_twice command'

/-- **The exchanging rules settle in one pass**: none of them finds anything in a body that they have
left. -/
theorem fragments_rewriteAll (body : Text) {rule : Rule} (hrule : rule ∈ exchangeRules) :
    rule.fragments (rewriteAll exchangeRules body) = keep (rewriteAll exchangeRules body) := by
  have houtput := quiet_optionFragments isPlainPattern_outputType? body
  have houtput₁ := quiet_outputType?_zone? houtput
  have hzone := quiet_optionFragments isPlainPattern_zone?
    (newText (optionFragments outputType? none none body))
  have houtput₂ := quiet_outputType?_rename isStable_productAliases
    (quiet_outputType?_rename isStable_resourceRenames houtput₁)
  have hzone₂ := quiet_zone?_rename isStable_productAliases
    (quiet_zone?_rename isStable_resourceRenames hzone)
  simp only [exchangeRules, List.mem_cons, List.not_mem_nil, or_false] at hrule
  rcases hrule with rfl | rfl | rfl | rfl
  · exact optionFragments_of_quiet isPlainPattern_outputType?.toAnchored houtput₂
  · exact optionFragments_of_quiet isPlainPattern_zone?.toAnchored hzone₂
  · exact commandFragments_of_lookup_eq_none fun _ _ _ h => (lookup_eq_none_of_renamed_twice h).1
  · exact commandFragments_of_lookup_eq_none fun _ _ _ h => (lookup_eq_none_of_renamed_twice h).2

end Migration
end ScriptUpgrade
