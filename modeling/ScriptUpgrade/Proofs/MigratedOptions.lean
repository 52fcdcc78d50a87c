/-
# What a migrated line says when it is read

The rules look for legacy options among characters: a name, a separator and a value between blanks or the
edges of a call body. A command is read from tokens, and an option of it is a key and a value in one token
or in two. In a line without quote characters and with no blanks but gaps both are the same
(`exists_option_of_spelled`):

| tokens | characters |
| --- | --- |
| `--key=value` | `--key`, `=`, the value |
| `--key`, then the value | `--key`, gaps, the value |

The rules leave such a line without quote characters and other blanks (`isSimple_inPlace`), and they leave
no legacy option that they would replace. So a command that is read from a migrated line has none
(`options_migrated`).
-/

import ScriptUpgrade.Proofs.CanonicalForm
import ScriptUpgrade.Proofs.LineBreaks
import ScriptUpgrade.Proofs.TokenFront

namespace ScriptUpgrade

/-! ### Tokens of a text without double quotes -/

namespace Text

/-- A text is cut where a class of characters ends. -/
theorem exists_append_stops (p : Char → Bool) (text : Text) :
    ∃ front rest, text = front ++ rest ∧ (∀ c ∈ front, p c = true) ∧ Stops p rest :=
  ⟨text.takeWhile p, text.dropWhile p, List.takeWhile_append_dropWhile.symm,
    fun _ hc => List.mem_takeWhile_imp hc, stops_dropWhile p text⟩

end Text

namespace Token

open Text (isBlank)

/-- The first token of a text without double quotes is a word of it, and only blanks stand in front of
it. -/
theorem exists_of_split_eq_cons {text token : Text} {tokens : List Text} (hmark : '"' ∉ text)
    (h : split text = token :: tokens) :
    ∃ blanks rest, text = blanks ++ (token ++ rest) ∧ (∀ c ∈ blanks, isBlank c = true) ∧
      IsWord token ∧ (∀ c ∈ rest.head?, isBlank c = true) ∧ split rest = tokens := by
  obtain ⟨blanks, tail, rfl, hblanks, htail⟩ := Text.exists_append_stops isBlank text
  obtain ⟨word, rest, rfl, hword, hrest⟩ := Text.exists_append_stops (!isBlank ·) tail
  rw [split_append_of_isBlank hblanks] at h
  by_cases hne : word = []
  · cases rest with
    | nil => simp [hne] at h
    | cons c rest =>
      rw [hne, List.nil_append, Text.stops_cons] at htail
      have hblank := Text.stops_cons.1 hrest
      simp [htail] at hblank
  · have hisWord : IsWord word := by
      refine ⟨hne, fun c hc => ⟨?_, by simpa using hword c hc⟩⟩
      rintro rfl
      exact hmark (by simp [hc])
    have hblank : ∀ c ∈ rest.head?, isBlank c = true := fun c hc => by simpa using hrest c hc
    rw [split_word hisWord hblank] at h
    obtain ⟨rfl, rfl⟩ := List.cons.inj h
    exact ⟨blanks, rest, rfl, hblanks, hisWord, hblank, rfl⟩

/-- A word does not start where a blank stands. -/
theorem IsWord.ne_nil_of_blank {word front rest : Text} (h : IsWord word)
    (hblank : ∀ c ∈ (front ++ (word ++ rest)).head?, isBlank c = true) : front ≠ [] := by
  rintro rfl
  obtain ⟨c, word, rfl⟩ := List.exists_cons_of_ne_nil h.ne_nil
  have hc := (h.plain c List.mem_cons_self).2
  rw [hblank c rfl] at hc
  cases hc

/-- **Every token of a text without double quotes is a word of it between blanks.** -/
theorem exists_of_split_eq_append {text token : Text} {left right : List Text} (hmark : '"' ∉ text)
    (h : split text = left ++ token :: right) :
    ∃ front rest, text = front ++ (token ++ rest) ∧ IsWord token ∧
      (∀ c ∈ front.getLast?, isBlank c = true) ∧ (∀ c ∈ rest.head?, isBlank c = true) ∧
      split rest = right := by
  induction left generalizing text with
  | nil =>
    obtain ⟨blanks, rest, rfl, hblanks, hword, hrest, hsplit⟩ := exists_of_split_eq_cons hmark h
    exact ⟨blanks, rest, rfl, hword, fun c hc => hblanks c (List.mem_of_getLast? hc), hrest, hsplit⟩
  | cons first left ih =>
    obtain ⟨blanks, tail, rfl, -, hfirst, htail, hsplit⟩ := exists_of_split_eq_cons hmark h
    have hmark' : '"' ∉ tail := fun hmem => hmark (by simp [hmem])
    obtain ⟨front, rest, rfl, hword, hfront, hrest, hright⟩ := ih hmark' hsplit
    refine ⟨blanks ++ first ++ front, rest, by simp, hword, ?_, hrest, hright⟩
    rwa [List.getLast?_append_of_ne_nil _ (hword.ne_nil_of_blank htail)]

end Token

/-! ### Simple texts -/

namespace Migration

open Fragment Call
open Text (isBlank isGap)

/-- A text of which the tokens are as they stand: it has no quote characters, and its blanks are gaps. -/
structure IsSimple (text : Text) : Prop where
  noMark : ∀ c ∈ text, Quote.isMark c = false
  gaps : ∀ c ∈ text, isBlank c = true → isGap c = true

namespace IsSimple

variable {text : Text}

theorem mono {part : Text} (h : IsSimple text) (hpart : ∀ c ∈ part, c ∈ text) : IsSimple part :=
  ⟨fun c hc => h.noMark c (hpart c hc), fun c hc => h.gaps c (hpart c hc)⟩

theorem mark_notMem (h : IsSimple text) : '"' ∉ text := by
  intro hmem
  have hmark := h.noMark _ hmem
  exact absurd hmark (by decide)

theorem tokenMayFollow (h : IsSimple text) (hlast : ∀ c ∈ text.getLast?, isBlank c = true) :
    Migration.tokenMayFollow text.getLast? = true := by
  cases hc : text.getLast? with
  | none => rfl
  | some c =>
    exact Text.isAsciiBlank_of_isGap (h.gaps c (List.mem_of_getLast? hc) (hlast c hc))

theorem tokenMayPrecede (h : IsSimple text) (hfirst : ∀ c ∈ text.head?, isBlank c = true) :
    Migration.tokenMayPrecede text = true := by
  cases text with
  | nil => rfl
  | cons c text =>
    exact Text.isAsciiBlank_of_isGap (h.gaps c List.mem_cons_self (hfirst c rfl))

end IsSimple

/-- **In a simple text an option that is read is an option that is written**, between blanks or edges. -/
theorem exists_option_of_spelled {body key value : Text} (hbody : IsSimple body)
    (h : Command.Spelled key value (Token.split body)) :
    ∃ front mark rest, body = front ++ (Command.named key ++ mark ++ value ++ rest) ∧
      IsSeparator mark ∧ Quote.run none front = none ∧ tokenMayFollow front.getLast? = true ∧
      tokenMayPrecede rest = true := by
  obtain ⟨-, left, right, hjoined | ⟨-, hparted⟩⟩ := h
  · obtain ⟨front, rest, rfl, -, hfront, hrest, -⟩ :=
      Token.exists_of_split_eq_append hbody.mark_notMem hjoined
    have hleft : IsSimple front := hbody.mono (by simp +contextual)
    have hright : IsSimple rest := hbody.mono (by simp +contextual)
    exact ⟨front, ['='], rest, by simp [Command.joined], Or.inl rfl,
      Quote.run_eq_self Quote.isOpen_none hleft.noMark, hleft.tokenMayFollow hfront,
      hright.tokenMayPrecede hrest⟩
  · obtain ⟨front, tail, rfl, -, hfront, htail, hsplit⟩ :=
      Token.exists_of_split_eq_append hbody.mark_notMem hparted
    have hbehind : IsSimple tail := hbody.mono (by simp +contextual)
    obtain ⟨blanks, rest, rfl, hblanks, hvalue, hrest, -⟩ :=
      Token.exists_of_split_eq_cons hbehind.mark_notMem hsplit
    have hleft : IsSimple front := hbody.mono (by simp +contextual)
    have hright : IsSimple rest := hbody.mono (by simp +contextual)
    have hgaps : ∀ c ∈ blanks, isGap c = true :=
      fun c hc => hbehind.gaps c (List.mem_append_left _ hc) (hblanks c hc)
    exact ⟨front, blanks, rest, by simp, Or.inr ⟨hvalue.ne_nil_of_blank htail, hgaps⟩,
      Quote.run_eq_self Quote.isOpen_none hleft.noMark, hleft.tokenMayFollow hfront,
      hright.tokenMayPrecede hrest⟩

/-! ### The rules keep a line simple -/

/-- A character of a name, an option or a separator. -/
def isOptionChar (c : Char) : Bool :=
  isZoneChar c || c == '=' || isGap c

theorem isOptionChar_of_isZoneChar {c : Char} (h : isZoneChar c = true) : isOptionChar c = true := by
  simp [isOptionChar, h]

theorem IsSeparator.isOptionChar {mark : Text} (h : IsSeparator mark) :
    ∀ c ∈ mark, isOptionChar c = true := by
  rcases h with rfl | ⟨-, hgaps⟩
  · decide
  · intro c hc
    simp [Migration.isOptionChar, hgaps c hc]

/-- **What an exchange rule writes has only characters of options in it.** -/
theorem isOptionChar_of_replaced {rule : Rule} (hrule : rule ∈ exchangeRules) {body old new : Text}
    (h : .replaced old new ∈ rule.fragments body) : ∀ c ∈ new, isOptionChar c = true := by
  have hrename : ∀ table, IsPlainTable table → .replaced old new ∈ commandFragments table body →
      ∀ c ∈ new, isOptionChar c = true := by
    intro table htable hmem c hc
    obtain ⟨front, rest, hrenamed⟩ := (each_commandFragments table body).of_mem hmem
    obtain ⟨-, -, -, -, hchars⟩ := isPlainName_iff.1 (htable _ hrenamed.entry).2
    exact isOptionChar_of_isZoneChar (hchars c hc)
  simp only [exchangeRules, List.mem_cons, List.not_mem_nil, or_false] at hrule
  rcases hrule with rfl | rfl | rfl | rfl
  · obtain ⟨front, rest, htaken⟩ := (each_taken isPlainPattern_outputType?.toAnchored body).of_mem h
    obtain ⟨flag, mark, format, -, hflag, hmark, -, -, hhit⟩ := outputType?_shape htaken.hit
    obtain ⟨-, hnew⟩ := Hit.mk.inj hhit
    rw [Option.some.inj hnew]
    intro c hc
    rcases List.mem_append.1 hc with hc | hc
    · rcases List.mem_append.1 hc with hc | hc
      · exact isOptionChar_of_isZoneChar ((outputFlags_plain hflag).2 c hc)
      · exact hmark.isOptionChar c hc
    · exact (by decide : ∀ c ∈ "json".toList, isOptionChar c = true) c hc
  · obtain ⟨front, rest, htaken⟩ := (each_taken isPlainPattern_zone?.toAnchored body).of_mem h
    obtain ⟨mark, name, -, -, hname, -, -, hhit⟩ := zone?_shape htaken.hit
    obtain ⟨-, hnew⟩ := Hit.mk.inj hhit
    split at hnew
    · cases hnew
    · rw [Option.some.inj hnew]
      intro c hc
      rcases List.mem_append.1 hc with hc | hc
      · exact (by decide : ∀ c ∈ "--zone=".toList, isOptionChar c = true) c hc
      · obtain ⟨-, -, -, -, hchars⟩ := hname.toLower.1
        exact isOptionChar_of_isZoneChar (hchars c hc)
  · exact hrename _ isPlainTable_resourceRenames h
  · exact hrename _ isPlainTable_productAliases h

theorem isOptionChar_classes {c : Char} (h : isOptionChar c = true) :
    Quote.isMark c = false ∧ (isBlank c = true → isGap c = true) := by
  simp only [isOptionChar, Bool.or_eq_true, beq_iff_eq] at h
  rcases h with (hzone | rfl) | hgap
  · obtain ⟨n, rfl⟩ := exists_fin_of_isZoneChar hzone
    revert n
    decide
  · decide
  · refine ⟨?_, fun _ => hgap⟩
    simp only [isGap, Bool.or_eq_true, beq_iff_eq] at hgap
    rcases hgap with rfl | rfl <;> decide

/-- **A pass writes characters of the line and of options.** -/
theorem mem_passText {rule : Rule} (hrule : rule ∈ inPlaceRules) {keyword line : Text} {c : Char}
    (h : c ∈ passText keyword line rule) : c ∈ line ∨ isOptionChar c = true := by
  have hline := oldText_fragments keyword rule line
  rcases mem_newText h with hold | ⟨old, new, hmem, hc⟩
  · exact Or.inl (hline ▸ hold)
  · obtain ⟨body, -, hreplaced⟩ := exists_of_replaced_mem hmem
    rw [inPlaceRules_eq] at hrule
    rcases List.mem_cons.1 hrule with rfl | hrule
    · have hold := ((isSelection_fragments body).selects hreplaced).subset c hc
      exact Or.inl (hline ▸ List.mem_flatMap.2 ⟨_, hmem, hold⟩)
    · exact Or.inr (isOptionChar_of_replaced hrule hreplaced c hc)

/-- One pass keeps a line simple. -/
theorem isSimple_passText {rule : Rule} (hrule : rule ∈ inPlaceRules) {keyword line : Text}
    (hline : IsSimple line) : IsSimple (passText keyword line rule) where
  noMark c hc := by
    rcases mem_passText hrule hc with hold | hnew
    · exact hline.noMark c hold
    · exact (isOptionChar_classes hnew).1
  gaps c hc := by
    rcases mem_passText hrule hc with hold | hnew
    · exact hline.gaps c hold
    · exact (isOptionChar_classes hnew).2

theorem isSimple_foldl_passText {rules : List Rule} (hrules : ∀ rule ∈ rules, rule ∈ inPlaceRules)
    {keyword line : Text} (hline : IsSimple line) : IsSimple (rules.foldl (passText keyword) line) := by
  induction rules generalizing line with
  | nil => exact hline
  | cons rule rules ih =>
    rw [List.forall_mem_cons] at hrules
    exact ih hrules.2 (isSimple_passText hrules.1 hline)

/-- **The in-place rules keep a line simple.** -/
theorem isSimple_inPlace (keyword : Text) {line : Text} (hline : IsSimple line) :
    IsSimple (inPlace keyword line).line := by
  rw [inPlace, line_foldl_pass]
  exact isSimple_foldl_passText (fun _ hrule => hrule) hline

/-- A call that is found is the keyword and a body among the parts of the line. -/
theorem exists_body_of_mem_all {keyword line : Text} {call : Stretch} (h : call ∈ Call.all keyword line) :
    ∃ body, .call body ∈ dissect keyword line ∧ call.text = keyword ++ body := by
  have hmem := List.mem_map_of_mem (f := Stretch.text) h
  rw [Call.all, map_text_locate, List.mem_map] at hmem
  obtain ⟨body, hbody, htext⟩ := hmem
  exact ⟨body, mem_filterMap_body?.1 hbody, htext.symm⟩

/-- The characters of a call are characters of the line. -/
theorem mem_of_mem_call {keyword line body : Text} (h : .call body ∈ dissect keyword line) :
    ∀ c ∈ keyword ++ body, c ∈ line := by
  intro c hc
  rw [← assemble_dissect keyword line]
  exact List.mem_flatMap.2 ⟨_, h, hc⟩

/-! ### Settled options -/

/-- A body of which a pass keeps every character is quiet. -/
theorem quiet_of_optionFragments_eq_keep {hit? : Text → Option Hit} (hit : IsPlainPattern hit?)
    {body : Text} (h : optionFragments hit? none none body = keep body) : Quiet hit? body := by
  rintro front tail rfl haccepts
  obtain ⟨left, old, new, right, hsplit, -⟩ :=
    exists_replaced_of_accepts hit.toAnchored hit.solitary [] front tail haccepts
  have hmem : .replaced old new ∈ keep (front ++ tail) := by
    rw [← h]
    exact hsplit ▸ List.mem_append_right left List.mem_cons_self
  simp [keep] at hmem

/-- A character is the lower-case form of itself or of the upper-case form. -/
theorem eq_of_toLower_eq {c d : Char} (h : c.toLower = d) : c = d ∨ c = d.toUpper := by
  subst h
  cases hzone : isZoneChar c with
  | true =>
    obtain ⟨n, rfl⟩ := exists_fin_of_isZoneChar hzone
    clear hzone
    revert n
    decide
  | false =>
    refine Or.inl ?_
    unfold Char.toLower
    split
    · rename_i hupper
      have hlow : 'A'.toNat ≤ c.toNat := UInt32.le_iff_toNat_le.1 hupper.1
      have hhigh : c.toNat ≤ 'Z'.toNat := UInt32.le_iff_toNat_le.1 hupper.2
      simp only [isZoneChar, Text.isAsciiAlnum, decide_eq_true hlow, decide_eq_true hhigh, Bool.and_self,
        Bool.or_true, Bool.true_or, Bool.true_eq_false] at hzone
    · rfl

theorem isFormat_of_toLower {format : Text}
    (h : format.map Char.toLower ∈ ["csv".toList, "tsv".toList]) : IsFormat format := by
  obtain ⟨first, hfirst, h⟩ : ∃ first, (first = 'c' ∨ first = 't') ∧
      format.map Char.toLower = [first, 's', 'v'] := by
    simp only [List.mem_cons, List.not_mem_nil, or_false] at h
    rcases h with h | h
    · exact ⟨'c', Or.inl rfl, h⟩
    · exact ⟨'t', Or.inr rfl, h⟩
  obtain ⟨c, rest, rfl, hc, hrest⟩ := List.map_eq_cons_iff.1 h
  obtain ⟨s, rest, rfl, hs, hrest⟩ := List.map_eq_cons_iff.1 hrest
  obtain ⟨v, rest, rfl, hv, hrest⟩ := List.map_eq_cons_iff.1 hrest
  obtain rfl := List.map_eq_nil_iff.1 hrest
  have hv := eq_of_toLower_eq hv
  have hs := eq_of_toLower_eq hs
  have hc := eq_of_toLower_eq hc
  rcases hfirst with rfl | rfl <;> rcases hc with rfl | rfl <;> rcases hs with rfl | rfl <;>
    rcases hv with rfl | rfl <;> rfl

/-- **No output option is read that has a removed format**, where the rule finds nothing. -/
theorem Quiet.not_isFormat {body format : Text} (h : Quiet outputType? body) (hbody : IsSimple body)
    (hspelled : Command.Spelled "output-type".toList format (Token.split body)) : ¬ IsFormat format := by
  intro hformat
  obtain ⟨front, mark, rest, hsplit, hmark, houtside, hstarts, hends⟩ :=
    exists_option_of_spelled hbody hspelled
  have hflag : Command.named "output-type".toList ∈ outputFlags := List.mem_cons_self
  exact h front _ hsplit ⟨_, _, rest, rfl, outputType?_hit rest hflag hmark hformat, houtside, hstarts,
    hends⟩

/-- **A zone that is read is in lower case**, where the rule finds nothing. -/
theorem Quiet.map_toLower {body name : Text} (h : Quiet zone? body) (hbody : IsSimple body)
    (hspelled : Command.Spelled "zone".toList name (Token.split body)) (hname : IsZoneName name) :
    name.map Char.toLower = name := by
  obtain ⟨front, mark, rest, hsplit, hmark, houtside, hstarts, hends⟩ :=
    exists_option_of_spelled hbody hspelled
  have hzone : IsZoneMark mark := by
    rcases hmark with rfl | hgaps
    · exact Or.inr ⟨[], [], rfl, by simp, by simp⟩
    · exact Or.inl hgaps
  have hhit := zone?_hit hzone hname (stops_of_tokenMayPrecede hends)
  by_contra hne
  have hchanged : "--zone=".toList ++ name.map Char.toLower ≠ "--zone".toList ++ mark ++ name := by
    intro heq
    exact hne (List.append_inj_right' heq (by simp))
  rw [if_neg hchanged] at hhit
  exact h front _ hsplit ⟨_, _, rest, rfl, hhit, houtside, hstarts, hends⟩

theorem isUpper_toLower {c : Char} (h : isZoneChar c = true) : c.toLower.isUpper = false := by
  obtain ⟨n, rfl⟩ := exists_fin_of_isZoneChar h
  revert n
  decide

end Migration

/-! ### Reading a migrated line -/

namespace Command

/-- An option of a command is spelled out among its tokens. -/
theorem spelled_of_ofTokens {raw keyword key value : Text} {tokens : List Text} {command : Command}
    (h : ofTokens raw keyword [] tokens = .ok command) (hmem : (key, value) ∈ command.options) :
    Spelled key value tokens := by
  have hspelled : ∀ lead rest sub main, ofItems raw main sub (items rest) = command →
      Spelled key value (lead ++ rest) := by
    intro lead rest sub main hread
    rw [← hread] at hmem
    exact (mem_items_option_iff.1 (mem_of_mem_optionsOf hmem)).behind lead
  cases tokens with
  | nil => cases h
  | cons main tokens =>
    cases tokens with
    | nil => exact hspelled [main] [] none main (Except.ok.inj h)
    | cons next rest =>
      rw [ofTokens] at h
      split at h
      · exact hspelled [main] (next :: rest) none main (Except.ok.inj h)
      · exact hspelled [main, next] rest (some next) main (Except.ok.inj h)

/-- A call without double quotes is read from the tokens of its body. -/
theorem ofTokens_of_parse {keyword body : Text} {command : Command} (hmark : '"' ∉ keyword ++ body)
    (hbody : ∀ c ∈ body.head?, Text.isBlank c = true)
    (h : parse keyword (keyword ++ body) = .ok command) :
    ofTokens (keyword ++ body) keyword [] (Token.split body) = .ok command := by
  obtain ⟨tokens, hsplit, hread⟩ := parse_eq_ok_iff.1 h
  obtain ⟨-, -, -, -, hword, -, -⟩ := Token.exists_of_split_eq_cons hmark hsplit
  rw [Token.split_word hword hbody] at hsplit
  rwa [(List.cons.inj hsplit).2]

end Command

namespace Migration

/-- **Output types and zones are migrated as far as they are read.** In a line without quote characters
and other blanks than gaps, no command that is read from a call of the migrated line has an output type
that was removed, and its zone is in lower case if it is the name of a zone. -/
theorem options_migrated {keyword line : Text} (hline : IsSimple line) {call : Stretch}
    (hcall : call ∈ Call.all keyword (apply keyword line).migrated) {command : Command}
    (hparse : Command.parse keyword call.text = .ok command) :
    (∀ format, ("output-type".toList, format) ∈ command.options →
      format.map Char.toLower ∉ ["csv".toList, "tsv".toList]) ∧
    ∀ name, ("zone".toList, name) ∈ command.options → IsZoneName name →
      ∀ c ∈ name, c.isUpper = false := by
  obtain ⟨body, hbody, htext⟩ := exists_body_of_mem_all hcall
  have hhead : ∀ c ∈ body.head?, Text.isBlank c = true :=
    fun c hc => Text.isBlank_of_isAsciiBlank ((Call.isBody_of_mem_dissect hbody).head c hc)
  rw [(migrated_of_call hbody).1] at hbody
  have hsimple : IsSimple (keyword ++ body) := (isSimple_inPlace keyword hline).mono (mem_of_mem_call hbody)
  have hbodySimple : IsSimple body := hsimple.mono fun c hc => List.mem_append_right _ hc
  -- the tokens of the call are the keyword and the tokens of the body, in which the options are found
  have hread : ∀ {key value}, (key, value) ∈ command.options →
      Command.Spelled key value (Token.split body) := by
    rw [htext] at hparse
    exact Command.spelled_of_ofTokens (Command.ofTokens_of_parse hsimple.mark_notMem hhead hparse)
  -- each of the two rules leaves the body as it is, so there is nothing in it for them to replace
  constructor
  · intro format hformat hremoved
    have hrule : outputRule ∈ exchangeRules := by decide
    have hquiet := quiet_of_optionFragments_eq_keep isPlainPattern_outputType?
      (ruleFragments_inPlace hrule hbody)
    exact hquiet.not_isFormat hbodySimple (hread hformat) (isFormat_of_toLower hremoved)
  · intro name hzone hname c hc
    have hrule : zoneRule ∈ exchangeRules := by decide
    have hquiet := quiet_of_optionFragments_eq_keep isPlainPattern_zone?
      (ruleFragments_inPlace hrule hbody)
    rw [← hquiet.map_toLower hbodySimple (hread hzone) hname] at hc
    obtain ⟨d, hd, rfl⟩ := List.mem_map.1 hc
    obtain ⟨-, -, -, -, hchars⟩ := hname
    exact isUpper_toLower (hchars d hd)

/-- The rule about selectors brings `--zone` and its value together, and the first of two calls is read. -/
theorem options_migrated_brought_together :
    let keyword := "usacloud".toList
    let line := "usacloud server list --zone --selector IS1A --output-type=TSV; usacloud zone list".toList
    let text := "usacloud server list --zone=is1a --output-type=json".toList
    let call := Stretch.starting 0 text
    let command := Command.ofItems text "server".toList (some "list".toList)
      [.option "zone".toList "is1a".toList, .option "output-type".toList "json".toList]
    IsSimple line ∧ call ∈ Call.all keyword (apply keyword line).migrated ∧
      Command.parse keyword call.text = .ok command ∧
      ("json".toList.map Char.toLower ∉ ["csv".toList, "tsv".toList] ∧
        ∀ c ∈ "is1a".toList, c.isUpper = false) := by
  intro keyword line text call command
  have hline : IsSimple line := ⟨by decide, by decide⟩
  have hcall : call ∈ Call.all keyword (apply keyword line).migrated := by
    decide +kernel
  have hparse : Command.parse keyword call.text = .ok command := by
    decide +kernel
  have hzone : IsZoneName "is1a".toList := ⟨'i', "s1a".toList, rfl, by decide, by decide⟩
  obtain ⟨houtput, hname⟩ := options_migrated hline hcall hparse
  exact ⟨hline, hcall, hparse, houtput _ (by decide), hname _ (by decide) hzone⟩

/-- A format in quotes is no format to the rule, but it is one to whoever reads the tokens. -/
example :
    let line := "usacloud server list --output-type \"csv\"".toList
    (apply "usacloud".toList line).migrated = line ∧
      Command.parse "usacloud".toList line = .ok (Command.ofItems line "server".toList (some "list".toList)
        [.option "output-type".toList "csv".toList]) := by
  decide +kernel

end Migration
end ScriptUpgrade
