/-
# Rules on accepted commands

What each rule makes of an accepted command is accepted again, under a condition on where options
stand for two of the rules.

| rule | an accepted body stays accepted if |
| --- | --- |
| selectors | every selector stands behind the main command and one more token |
| output formats | always |
| zones | every zone that gaps cut off from its option stands behind the main command |
| renames | always |

A selector leaves its value behind as a token of its own, and a zone that is joined to its option
takes a token away; so each of them moves the tokens to its right by one place. A format that is
replaced is never the main command, and the old names of the renames are neither commands nor
subcommands of the release.
-/

import ScriptUpgrade.Proofs.Acceptance
import ScriptUpgrade.Proofs.Selection

namespace ScriptUpgrade
namespace Migration

open Fragment Command

/-- Replacing pieces one after the other, the last one first: if no replacement spoils an accepted
command, then all of them together do not. -/
theorem accepts_newText (front : Text) {fragments : List Fragment}
    (h : ∀ left old new right, fragments = left ++ .replaced old new :: right →
      accepts .builtin (Token.split (front ++ oldText left ++ old ++ newText right)) = true →
        accepts .builtin (Token.split (front ++ oldText left ++ new ++ newText right)) = true) :
    accepts .builtin (Token.split (front ++ oldText fragments)) = true →
      accepts .builtin (Token.split (front ++ newText fragments)) = true := by
  induction fragments generalizing front with
  | nil => exact id
  | cons fragment fragments ih =>
    cases fragment with
    | kept c =>
      have := ih (front ++ [c]) fun left old new right hsplit => by
        have := h (.kept c :: left) old new right (by rw [hsplit, List.cons_append])
        simpa using this
      simpa using this
    | replaced old new =>
      intro haccepts
      have hrest := ih (front ++ old) fun left old' new' right hsplit => by
        have := h (.replaced old new :: left) old' new' right (by rw [hsplit, List.cons_append])
        simpa using this
      have hfirst := h [] old new fragments rfl
      simp only [oldText_replaced, newText_replaced, oldText_nil, List.append_nil,
        List.append_assoc] at haccepts hrest hfirst ⊢
      exact hfirst (hrest haccepts)

theorem isAsciiBlank_of_tokenMayFollow {front : Text}
    (h : tokenMayFollow front.getLast? = true) :
    ∀ c ∈ front.getLast?, Text.isAsciiBlank c = true := by
  intro c hc
  rw [Option.mem_def.1 hc] at h
  exact h

theorem isBlank_of_tokenMayPrecede {rest : Text} (h : tokenMayPrecede rest = true) :
    ∀ c ∈ rest.head?, Text.isBlank c = true := by
  intro c hc
  cases rest with
  | nil => cases hc
  | cons d rest =>
    cases hc
    exact Text.isBlank_of_isAsciiBlank h

/-! ## Selectors -/

/-- All replaced pieces stand behind the main command and one more token. -/
def AllBehind (fragments : List Fragment) : Prop :=
  Each (fun front _ _ _ => isSettled (Token.split front) = true) [] fragments

instance (fragments : List Fragment) : Decidable (AllBehind fragments) :=
  inferInstanceAs (Decidable (Each _ [] fragments))

/-- **Selectors that stand behind the subcommand may become arguments.** -/
theorem accepts_selection {fragments : List Fragment}
    (hstarts : Each (fun front _ _ _ => tokenMayFollow front.getLast? = true) [] fragments)
    (hbehind : AllBehind fragments) :
    accepts .builtin (Token.split (oldText fragments)) = true →
      accepts .builtin (Token.split (newText fragments)) = true := by
  refine accepts_newText [] fun left old new right hsplit => ?_
  rw [hsplit] at hstarts hbehind
  have := accepts_of_isSettled (isAsciiBlank_of_tokenMayFollow hstarts.at_replaced)
    (Each.at_replaced hbehind) (old ++ newText right) (new ++ newText right)
  rwa [← List.append_assoc, ← List.append_assoc] at this

/-! ## Plain tokens -/

/-- `new` may stand for `old` after `front`, where a token may start, and before a blank. -/
def IsExchangeable (front old new _rest : Text) : Prop :=
  ∀ done rest, Token.Separates front done → tokenMayPrecede rest = true →
    accepts .builtin (done ++ Token.split (old ++ rest)) = true →
      accepts .builtin (done ++ Token.split (new ++ rest)) = true

theorem IsPlainToken.noDoubleQuote {token : Text} (h : IsPlainToken token) : '"' ∉ token :=
  fun hmem => absurd (h.noMark _ hmem) (by decide)

theorem accepts_exchange {fragments : List Fragment} (hswap : Each Swap [] fragments)
    (h : Each IsExchangeable [] fragments) :
    accepts .builtin (Token.split (oldText fragments)) = true →
      accepts .builtin (Token.split (newText fragments)) = true := by
  refine accepts_newText [] fun left old new right hsplit => ?_
  have hplain := isPlain_of_each_swap hswap
  rw [hsplit] at hswap h hplain
  have hhere := hswap.at_replaced
  have hright : IsPlain right := fun old new hmem =>
    hplain old new (List.mem_append_right _ (List.mem_cons_of_mem _ hmem))
  refine accepts_replaced (isAsciiBlank_of_tokenMayFollow hhere.starts) hhere.old.noDoubleQuote
    hhere.new.noDoubleQuote fun done hdone => h.at_replaced done _ hdone ?_
  rw [tokenMayPrecede_newText hright]
  exact hhere.ends

/-- Two options of one word each may stand for each other. -/
theorem isExchangeable_option {front old new : Text} (hold : Token.IsWord old)
    (hnew : Token.IsWord new) (hdash : isDashed old = true) (hdash' : isDashed new = true)
    (rest : Text) : IsExchangeable front old new rest := by
  intro done rest _ hrest
  rw [Token.split_word hold (isBlank_of_tokenMayPrecede hrest),
    Token.split_word hnew (isBlank_of_tokenMayPrecede hrest)]
  exact (yields_of_isDashed hdash hdash' id).append done

/-! ## Output formats -/

/-- No removed format is a command of the release. -/
theorem takes_format {format : Text} (h : IsFormat format) (sub : Text) :
    Catalogue.builtin.takes format sub = false := by
  have hformats : ∀ c ∈ ['c', 'C', 't', 'T'], ∀ s ∈ ['s', 'S', 'ſ'], ∀ v ∈ ['v', 'V'],
      ∀ row ∈ Catalogue.Builtin.table, Text.lower [c, s, v] ≠ Text.lower row.1 := by
    decide +kernel
  rw [Bool.eq_false_iff]
  intro htakes
  obtain ⟨entry, hentry⟩ := Catalogue.exists_command_of_takes htakes
  obtain ⟨row, hrow, hpair⟩ := Catalogue.exists_of_mem_entries hentry
  obtain ⟨c, s, v, rfl, hc, hs, hv⟩ := h.exists_cons
  exact hformats c (by simpa using hc) s (by simpa using hs) v (by simpa using hv) row hrow
    (congrArg Prod.fst hpair)

theorem IsFormat.isWord {format : Text} (h : IsFormat format) :
    Token.IsWord format ∧ isDashed format = false := by
  obtain ⟨c, s, v, rfl, hc, hs, hv⟩ := h.exists_cons
  refine ⟨⟨by simp, ?_⟩, ?_⟩
  · rintro d hd
    simp only [List.mem_cons, List.not_mem_nil, or_false] at hd
    rcases hd with rfl | rfl | rfl
    · rcases hc with rfl | rfl | rfl | rfl <;> decide
    · rcases hs with rfl | rfl | rfl <;> decide
    · rcases hv with rfl | rfl <;> decide
  · rcases hc with rfl | rfl | rfl | rfl <;> rfl

theorem outputFlags_isWord {flag : Text} (h : flag ∈ outputFlags) :
    Token.IsWord flag ∧ isDashed flag = true := by
  simp only [outputFlags, List.mem_cons, List.not_mem_nil, or_false] at h
  rcases h with rfl | rfl <;> exact ⟨⟨by decide, by decide⟩, by decide⟩

/-- An option and its value with gaps between them are two tokens. -/
theorem split_gapped {option gaps value rest : Text} (hoption : Token.IsWord option)
    (hne : gaps ≠ []) (hgaps : ∀ c ∈ gaps, Text.isGap c = true) (hvalue : Token.IsWord value)
    (hrest : tokenMayPrecede rest = true) :
    Token.split (option ++ gaps ++ value ++ rest) = option :: value :: Token.split rest := by
  have hblanks : ∀ c ∈ gaps, Text.isBlank c = true :=
    fun c hc => Text.isBlank_of_isAsciiBlank (Text.isAsciiBlank_of_isGap (hgaps c hc))
  rw [List.append_assoc, List.append_assoc, Token.split_word hoption,
    Token.split_append_of_isBlank hblanks,
    Token.split_word hvalue (isBlank_of_tokenMayPrecede hrest)]
  intro c hc
  rw [List.head?_append_of_ne_nil _ hne] at hc
  exact hblanks c (List.mem_of_mem_head? hc)

theorem isExchangeable_outputType {front old new rest : Text}
    (h : Taken outputType? front old new rest) : IsExchangeable front old new rest := by
  obtain ⟨flag, mark, format, _, hflag, hmark, hformat, -, hhit⟩ := outputType?_shape h.hit
  simp only [Hit.mk.injEq, Option.some.injEq] at hhit
  obtain ⟨rfl, rfl⟩ := hhit
  obtain ⟨hflag, hdash⟩ := outputFlags_isWord hflag
  obtain ⟨hword, hno⟩ := hformat.isWord
  have hjson : Token.IsWord "json".toList := ⟨by decide, by decide⟩
  rcases hmark with rfl | ⟨hne, hgaps⟩
  · have hequals : Token.IsWord ['='] := ⟨by decide, by decide⟩
    refine isExchangeable_option ((hflag.append hequals).append hword)
      ((hflag.append hequals).append hjson) ?_ ?_ rest
    · rw [List.append_assoc, isDashed_append hflag.ne_nil, hdash]
    · rw [List.append_assoc, isDashed_append hflag.ne_nil, hdash]
  · intro done rest _ hrest
    rw [split_gapped hflag hne hgaps hword hrest, split_gapped hflag hne hgaps hjson hrest]
    -- with no main command before it the format would be the main command
    refine (yields_of_isDashed hdash hdash fun haccepts => ?_).append done
    rw [accepts_cons_of_not_isDashed hno, takes_format hformat] at haccepts
    cases haccepts

/-- **An accepted command stays accepted when its output formats are replaced.** -/
theorem accepts_outputRule (body : Text) :
    accepts .builtin (Token.split body) = true →
      accepts .builtin (Token.split (outputRule.rewrite body)) = true := by
  have hswap := each_swap_optionFragments isPlainPattern_outputType? body
  have htaken := each_taken isPlainPattern_outputType?.toAnchored body
  have := accepts_exchange hswap (htaken.mono fun _ _ _ _ => isExchangeable_outputType)
  rwa [oldText_optionFragments isPlainPattern_outputType?.toAnchored] at this

/-! ## Zones -/

/-- All replaced pieces with gaps in them stand behind the main command. -/
def GapsBehind (fragments : List Fragment) : Prop :=
  Each (fun front old _ _ => old.any Text.isGap = true → hasMain (Token.split front) = true) []
    fragments

instance (fragments : List Fragment) : Decidable (GapsBehind fragments) :=
  inferInstanceAs (Decidable (Each _ [] fragments))

theorem subOf_split_of_dash {option : Text} (h : option.head? = some '-') (rest : Text) :
    subOf (Token.split (option ++ rest)) = [] := by
  obtain ⟨tail, rfl⟩ := List.head?_eq_some_iff.1 h
  rw [List.cons_append, Token.split_cons_of_not_isBlank (by decide),
    Token.resume_cons (by decide) (fun h => absurd h (by decide)), Token.resume]
  rfl

theorem IsZoneName.isWord {name : Text} (h : IsZoneName name) : Token.IsWord name := by
  obtain ⟨c, rest, rfl, -, hchars⟩ := h
  refine ⟨by simp, fun d hd => ?_⟩
  obtain ⟨hcalm, hblank, -, -⟩ := isZoneChar_classes (hchars d hd)
  refine ⟨?_, hblank⟩
  rintro rfl
  revert hcalm
  decide

theorem isExchangeable_zone {front old new rest : Text} (h : Taken zone? front old new rest)
    (hbehind : old.any Text.isGap = true → hasMain (Token.split front) = true) : IsExchangeable front old new rest := by
  obtain ⟨mark, name, _, hmark, hname, -, -, hhit⟩ := zone?_shape h.hit
  have hdash : old.head? = some '-' := isPlainPattern_zone?.dash h.hit
  obtain ⟨-, hdash'⟩ := isPlainPattern_zone?.becomes h.hit
  simp only [Hit.mk.injEq] at hhit
  obtain ⟨hold, hnew⟩ := hhit
  split at hnew
  · cases hnew
  · cases hnew
    by_cases hgap : old.any Text.isGap = true
    · intro done rest hdone _
      have hmain := hbehind hgap
      rw [hdone.split_eq] at hmain
      refine accepts_append_of_hasMain hmain fun main => ?_
      rw [subOf_split_of_dash hdash, subOf_split_of_dash hdash']
      exact id
    · have hequals : mark = ['='] := hmark.eq_of_no_gap fun c hc => by
        rw [Bool.eq_false_iff]
        intro hc'
        refine hgap (List.any_eq_true.2 ⟨c, ?_, hc'⟩)
        rw [hold]
        exact List.mem_append_left _ (List.mem_append_right _ hc)
      subst hequals
      have hzone : Token.IsWord ("--zone".toList ++ ['=']) := ⟨by decide, by decide⟩
      have hzone' : Token.IsWord "--zone=".toList := ⟨by decide, by decide⟩
      subst hold
      refine isExchangeable_option (hzone.append hname.isWord)
        (hzone'.append hname.toLower.1.isWord) ?_ ?_ rest
      · rw [isDashed, hdash]
        rfl
      · rw [isDashed, hdash']
        rfl

/-- **An accepted command stays accepted when its zones are written in one way**, unless a zone
that stands in the place of the main command is joined to its option. -/
theorem accepts_zoneRule {body : Text} (hbehind : GapsBehind (zoneRule.fragments body)) :
    accepts .builtin (Token.split body) = true →
      accepts .builtin (Token.split (zoneRule.rewrite body)) = true := by
  have hswap := each_swap_optionFragments isPlainPattern_zone? body
  have htaken := each_taken isPlainPattern_zone?.toAnchored body
  have := accepts_exchange hswap
    ((htaken.and hbehind).mono fun _ _ _ _ h => isExchangeable_zone h.1 h.2)
  rwa [oldText_optionFragments isPlainPattern_zone?.toAnchored] at this

/-! ## Renames -/

/-- The old names of a table are neither commands nor subcommands of the release. -/
def IsForeign (table : List (Text × Text)) : Prop :=
  ∀ row ∈ table, Text.lower row.1 ∉ Catalogue.releaseNames

instance (table : List (Text × Text)) : Decidable (IsForeign table) :=
  inferInstanceAs (Decidable (∀ row ∈ table, Text.lower row.1 ∉ Catalogue.releaseNames))

theorem isForeign_resourceRenames : IsForeign resourceRenames := by
  decide +kernel

theorem isForeign_productAliases : IsForeign productAliases := by
  decide +kernel

theorem isExchangeable_renamed {table : List (Text × Text)} (htable : IsPlainTable table)
    (hforeign : IsForeign table) {front old new rest : Text} (h : Renamed table front old new rest) :
    IsExchangeable front old new rest := by
  intro done rest _ hrest
  obtain ⟨hold, hnew⟩ := htable _ h.entry
  rw [isPlainName_iff] at hold hnew
  rw [Token.split_word hold.isWord (isBlank_of_tokenMayPrecede hrest),
    Token.split_word hnew.isWord (isBlank_of_tokenMayPrecede hrest)]
  have hdash : isDashed old = false := by
    simpa [isDashed] using h.isCommandWord.noDash
  refine (Yields.mk (fun haccepts => ?_) (fun main htakes => ?_)).append done
  · rw [accepts_cons_of_not_isDashed hdash] at haccepts
    exact absurd (Catalogue.mem_releaseNames_of_takes haccepts).1 (hforeign _ h.entry)
  · simp only [subOf, hdash, Bool.false_eq_true, if_false] at htakes
    exact absurd ((Catalogue.mem_releaseNames_of_takes htakes).2 h.isCommandWord.ne_nil)
      (hforeign _ h.entry)

/-- **An accepted command stays accepted when commands are renamed.** -/
theorem accepts_commandFragments {table : List (Text × Text)} (htable : IsPlainTable table)
    (hforeign : IsForeign table) (body : Text) :
    accepts .builtin (Token.split body) = true →
      accepts .builtin (Token.split (newText (commandFragments table body))) = true := by
  have := accepts_exchange (each_swap_commandFragments htable body)
    ((each_commandFragments table body).mono fun _ _ _ _ => isExchangeable_renamed htable hforeign)
  rwa [oldText_commandFragments] at this

theorem accepts_resourceRule (body : Text) :
    accepts .builtin (Token.split body) = true →
      accepts .builtin (Token.split (resourceRule.rewrite body)) = true :=
  accepts_commandFragments isPlainTable_resourceRenames isForeign_resourceRenames body

theorem accepts_productRule (body : Text) :
    accepts .builtin (Token.split body) = true →
      accepts .builtin (Token.split (productRule.rewrite body)) = true :=
  accepts_commandFragments isPlainTable_productAliases isForeign_productAliases body

end Migration
end ScriptUpgrade
