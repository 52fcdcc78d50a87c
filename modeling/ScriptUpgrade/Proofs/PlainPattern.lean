/-
# Options that become options

The patterns of output types and zones find plain tokens and turn them into plain tokens. A hit that
is a whole token is a hit wherever it stands, and what it becomes is not replaced again
(`IsPlainPattern`). Together with the renaming rules (`Renamed.swap`) these are all rules but the one
about selectors.
-/

import ScriptUpgrade.Proofs.PlainToken

namespace ScriptUpgrade
namespace Migration

open Fragment
open Text (isGap)

theorem isCalm_of_isGap {c : Char} (h : isGap c = true) : isCalm c = true := by
  simp only [isGap, Bool.or_eq_true, beq_iff_eq] at h
  rcases h with rfl | rfl <;> decide

theorem ne_dash_of_isGap {c : Char} (h : isGap c = true) : c ≠ '-' := by
  rintro rfl
  exact absurd h (by decide)

/-- A calm character that is no ASCII blank. -/
def isTokenChar (c : Char) : Bool :=
  isCalm c && !Text.isAsciiBlank c

theorem isTokenChar_of_isZoneChar {c : Char} (h : isZoneChar c = true) : isTokenChar c = true := by
  obtain ⟨hcalm, -, hblank, -⟩ := isZoneChar_classes h
  simp [isTokenChar, hcalm, hblank]

/-- A name without blanks, a separator without dashes and a value that ends well make a plain
token. -/
theorem isPlainToken_option {name mark value : Text} (hname : name.head? = some '-')
    (hnameChars : ∀ c ∈ name, isTokenChar c = true) (hmark : ∀ c ∈ mark, isCalm c = true ∧ c ≠ '-')
    (hvalue : value.head? ≠ some '-') (hvalueChars : ∀ c ∈ value, isTokenChar c = true)
    (hlast : ∃ c ∈ value.getLast?, isZoneChar c = true) : IsPlainToken (name ++ mark ++ value) := by
  simp only [isTokenChar, Bool.and_eq_true, Bool.not_eq_eq_eq_not, Bool.not_true] at hnameChars hvalueChars
  refine ⟨?_, ?_, ?_, ?_⟩
  · obtain ⟨rest, rfl⟩ := List.head?_eq_some_iff.1 hname
    exact ⟨'-', rfl, by decide⟩
  · obtain ⟨c, hc, hzone⟩ := hlast
    refine ⟨c, ?_, hzone⟩
    have hne : value ≠ [] := by
      rintro rfl
      simp at hc
    rwa [List.getLast?_append_of_ne_nil _ hne]
  · intro c hc
    simp only [List.mem_append] at hc
    rcases hc with (hc | hc) | hc
    · exact (hnameChars c hc).1
    · exact (hmark c hc).1
    · exact (hvalueChars c hc).1
  · have hdash : '-' ∉ mark := fun h => (hmark _ h).2 rfl
    refine ((unbroken_of_no_blank fun c hc => (hnameChars c hc).2).append (unbroken_of_no_dash hdash)
      fun h => hdash (List.mem_of_mem_head? h)).append
        (unbroken_of_no_blank fun c hc => (hvalueChars c hc).2) hvalue

theorem IsZoneName.isPlainToken {name : Text} (h : IsZoneName name) : IsPlainToken name := by
  obtain ⟨c, rest, rfl, hc, hall⟩ := h
  refine ⟨⟨c, rfl, (isZoneChar_classes (hall c (by simp))).2.1⟩, ?_,
    fun d hd => (isZoneChar_classes (hall d hd)).1,
    unbroken_of_no_blank fun d hd => (isZoneChar_classes (hall d hd)).2.2.1⟩
  exact ⟨_, List.getLast?_eq_some_getLast (List.cons_ne_nil c rest), hall _ (List.getLast_mem _)⟩

/-- A pattern of an option that is rewritten to an option: its hits are plain tokens and so is what
they become, a hit that is a whole token is a hit wherever it stands, and what it becomes is not
replaced again. -/
structure IsPlainPattern (hit? : Text → Option Hit) : Prop extends Anchored hit? where
  matched : ∀ {text hit}, hit? text = some hit → IsPlainToken hit.matched
  becomes : ∀ {text old new}, hit? text = some ⟨old, some new⟩ →
    IsPlainToken new ∧ new.head? = some '-'
  anywhere : ∀ {old new rest rest'}, hit? (old ++ rest) = some ⟨old, some new⟩ →
    tokenMayPrecede rest' = true → hit? (old ++ rest') = some ⟨old, some new⟩
  settles : ∀ {text old new rest}, hit? text = some ⟨old, some new⟩ → tokenMayPrecede rest = true →
    ∀ old' new', hit? (new ++ rest) ≠ some ⟨old', some new'⟩

theorem IsPlainPattern.solitary {hit? : Text → Option Hit} (h : IsPlainPattern hit?) :
    Solitary hit? :=
  fun _ _ hhit => (h.matched hhit).unbroken

theorem IsPlainPattern.swap {hit? : Text → Option Hit} (h : IsPlainPattern hit?)
    {front old new rest : Text} (htaken : Taken hit? front old new rest) : Swap front old new rest :=
  ⟨htaken.starts, htaken.ends, h.matched htaken.hit, (h.becomes htaken.hit).1⟩

/-- **A rule about options exchanges plain tokens.** -/
theorem each_swap_optionFragments {hit? : Text → Option Hit} (h : IsPlainPattern hit?) (body : Text) :
    Each Swap [] (optionFragments hit? none none body) :=
  (each_taken h.toAnchored body).mono fun _ _ _ _ => h.swap

theorem IsSeparator.calm {mark : Text} (h : IsSeparator mark) :
    ∀ c ∈ mark, isCalm c = true ∧ c ≠ '-' := by
  rcases h with rfl | ⟨-, hgaps⟩
  · decide
  · exact fun c hc => ⟨isCalm_of_isGap (hgaps c hc), ne_dash_of_isGap (hgaps c hc)⟩

theorem outputFlags_chars {flag : Text} (h : flag ∈ outputFlags) :
    flag.head? = some '-' ∧ ∀ c ∈ flag, isTokenChar c = true := by
  simp only [outputFlags, List.mem_cons, List.not_mem_nil, or_false] at h
  rcases h with rfl | rfl <;> decide

theorem IsFormat.chars {format : Text} (h : IsFormat format) :
    format.head? ≠ some '-' ∧ (∀ c ∈ format, isTokenChar c = true) ∧
      ∃ c ∈ format.getLast?, isZoneChar c = true := by
  obtain ⟨c, s, v, rfl, hc, hs, hv⟩ := h.exists_cons
  refine ⟨?_, ?_, v, rfl, ?_⟩
  · rcases hc with rfl | rfl | rfl | rfl <;> simp
  · simp only [List.mem_cons, List.not_mem_nil, or_false, forall_eq_or_imp, forall_eq]
    refine ⟨?_, ?_, ?_⟩
    · rcases hc with rfl | rfl | rfl | rfl <;> decide
    · rcases hs with rfl | rfl | rfl <;> decide
    · rcases hv with rfl | rfl <;> decide
  · rcases hv with rfl | rfl <;> decide

/-- An output option with `json` is no legacy option. -/
theorem outputType?_json {flag mark : Text} (rest : Text) (hflag : flag ∈ outputFlags)
    (hmark : IsSeparator mark) : outputType? (flag ++ mark ++ "json".toList ++ rest) = none := by
  have hsep : separator? (mark ++ ("json".toList ++ rest)) = some (mark, "json".toList ++ rest) :=
    separator?_append hmark (by simp [Text.Stops, isGap])
  have hformat : removedFormat? ("json".toList ++ rest) = none := rfl
  unfold outputType?
  rw [List.append_assoc, List.append_assoc, outputFlag?_append _ hflag]
  simp only [Option.bind_eq_bind, Option.bind_some, List.drop_left, hsep, hformat, Option.bind_none]

theorem isPlainPattern_outputType? : IsPlainPattern outputType? where
  dash h := by
    obtain ⟨flag, mark, format, rest, hflag, -, -, -, rfl⟩ := outputType?_shape h
    obtain ⟨tail, rfl⟩ := List.head?_eq_some_iff.1 (outputFlags_chars hflag).1
    rfl
  isPrefix h := by
    obtain ⟨flag, mark, format, rest, -, -, -, rfl, rfl⟩ := outputType?_shape h
    exact ⟨rest, rfl⟩
  matched h := by
    obtain ⟨flag, mark, format, rest, hflag, hmark, hformat, -, rfl⟩ := outputType?_shape h
    obtain ⟨hdash, hchars⟩ := outputFlags_chars hflag
    obtain ⟨hfirst, hformatChars, hlast⟩ := hformat.chars
    exact isPlainToken_option hdash hchars hmark.calm hfirst hformatChars hlast
  becomes h := by
    obtain ⟨flag, mark, format, rest, hflag, hmark, hformat, -, heq⟩ := outputType?_shape h
    obtain ⟨hdash, hchars⟩ := outputFlags_chars hflag
    simp only [Hit.mk.injEq, Option.some.injEq] at heq
    obtain ⟨-, rfl⟩ := heq
    refine ⟨isPlainToken_option hdash hchars hmark.calm (by decide) (by decide)
      ⟨'n', rfl, by decide⟩, ?_⟩
    obtain ⟨tail, rfl⟩ := List.head?_eq_some_iff.1 hdash
    rfl
  anywhere h _ := by
    obtain ⟨flag, mark, format, rest, hflag, hmark, hformat, -, heq⟩ := outputType?_shape h
    simp only [Hit.mk.injEq, Option.some.injEq] at heq
    obtain ⟨rfl, rfl⟩ := heq
    exact outputType?_hit _ hflag hmark hformat
  settles h hrest old' new' hagain := by
    obtain ⟨flag, mark, format, -, hflag, hmark, -, -, heq⟩ := outputType?_shape h
    simp only [Hit.mk.injEq, Option.some.injEq] at heq
    obtain ⟨-, rfl⟩ := heq
    rw [outputType?_json _ hflag hmark] at hagain
    simp at hagain

/-! ### Zones -/

theorem IsZoneMark.calm {mark : Text} (h : IsZoneMark mark) :
    ∀ c ∈ mark, isCalm c = true ∧ c ≠ '-' := by
  rcases h with ⟨-, hgaps⟩ | ⟨left, right, rfl, hleft, hright⟩
  · exact fun c hc => ⟨isCalm_of_isGap (hgaps c hc), ne_dash_of_isGap (hgaps c hc)⟩
  · intro c hc
    simp only [List.mem_append, List.mem_cons] at hc
    rcases hc with hc | rfl | hc
    · exact ⟨isCalm_of_isGap (hleft c hc), ne_dash_of_isGap (hleft c hc)⟩
    · decide
    · exact ⟨isCalm_of_isGap (hright c hc), ne_dash_of_isGap (hright c hc)⟩

theorem IsZoneName.toLower {name : Text} (h : IsZoneName name) :
    IsZoneName (name.map Char.toLower) ∧
      (name.map Char.toLower).map Char.toLower = name.map Char.toLower := by
  obtain ⟨c, rest, rfl, hc, hall⟩ := h
  refine ⟨⟨c.toLower, rest.map Char.toLower, rfl, ?_, ?_⟩, ?_⟩
  · exact fun hdash => hc ((isZoneChar_toLower (hall c (by simp))).2.2 hdash)
  · intro d hd
    obtain ⟨e, he, rfl⟩ := List.mem_map.1 hd
    exact (isZoneChar_toLower (hall e he)).1
  · rw [List.map_map]
    exact List.map_congr_left fun d hd => (isZoneChar_toLower (hall d hd)).2.1

theorem IsZoneName.chars {name : Text} (h : IsZoneName name) :
    name.head? ≠ some '-' ∧ (∀ c ∈ name, isTokenChar c = true) ∧
      ∃ c ∈ name.getLast?, isZoneChar c = true := by
  have hplain := h.isPlainToken
  obtain ⟨c, rest, rfl, hc, hall⟩ := h
  exact ⟨by simpa using hc, fun d hd => isTokenChar_of_isZoneChar (hall d hd), hplain.last⟩

theorem stops_of_tokenMayPrecede {rest : Text} (h : tokenMayPrecede rest = true) :
    Text.Stops isZoneChar rest := by
  cases rest with
  | nil => exact Text.stops_nil _
  | cons c rest =>
    rw [Text.stops_cons]
    by_contra hzone
    rw [tokenMayPrecede, (isZoneChar_classes (by simpa using hzone)).2.2.1] at h
    exact absurd h Bool.false_ne_true

theorem isPlainPattern_zone? : IsPlainPattern zone? where
  dash h := by
    obtain ⟨mark, name, rest, -, -, -, -, rfl⟩ := zone?_shape h
    rfl
  isPrefix h := by
    obtain ⟨mark, name, rest, -, -, -, rfl, rfl⟩ := zone?_shape h
    exact ⟨rest, rfl⟩
  matched h := by
    obtain ⟨mark, name, rest, hmark, hname, -, -, rfl⟩ := zone?_shape h
    obtain ⟨hfirst, hchars, hlast⟩ := hname.chars
    exact isPlainToken_option rfl (by decide) hmark.calm hfirst hchars hlast
  becomes h := by
    obtain ⟨mark, name, rest, hmark, hname, -, -, heq⟩ := zone?_shape h
    obtain ⟨hfirst, hchars, hlast⟩ := hname.toLower.1.chars
    simp only [Hit.mk.injEq] at heq
    obtain ⟨-, hnew⟩ := heq
    split at hnew
    · simp at hnew
    · obtain rfl := Option.some.inj hnew
      have hplain : IsPlainToken ("--zone".toList ++ "=".toList ++ name.map Char.toLower) :=
        isPlainToken_option rfl (by decide) (by decide) hfirst hchars hlast
      exact ⟨hplain, rfl⟩
  anywhere h hrest := by
    obtain ⟨mark, name, rest, hmark, hname, -, -, heq⟩ := zone?_shape h
    rw [heq]
    simp only [Hit.mk.injEq] at heq
    rw [heq.1]
    exact zone?_hit hmark hname (stops_of_tokenMayPrecede hrest)
  settles h hrest old' new' hagain := by
    obtain ⟨mark, name, rest, hmark, hname, -, -, heq⟩ := zone?_shape h
    obtain ⟨hlower, hsame⟩ := hname.toLower
    simp only [Hit.mk.injEq] at heq
    obtain ⟨-, hnew⟩ := heq
    split at hnew
    · simp at hnew
    · obtain rfl := Option.some.inj hnew
      have hequals : IsZoneMark ['='] := Or.inr ⟨[], [], rfl, by simp, by simp⟩
      have hhit := zone?_hit hequals hlower (stops_of_tokenMayPrecede hrest)
      have hflag : "--zone".toList ++ ['='] = "--zone=".toList := by decide
      rw [hsame, hflag, if_pos rfl] at hhit
      have := hhit.symm.trans hagain
      simp at this

/-! ### Commands and selectors -/

theorem tokenMayPrecede_of_stops {rest : Text} (h : Text.Stops isWordChar rest) :
    tokenMayPrecede rest = true := by
  cases rest with
  | nil => rfl
  | cons c rest =>
    have := Text.stops_cons.1 h
    simp only [isWordChar, Bool.not_eq_eq_eq_not, Bool.not_false] at this
    exact Text.isAsciiBlank_of_isGap this

theorem Renamed.swap {table : List (Text × Text)} (htable : IsPlainTable table)
    {front old new rest : Text} (h : Renamed table front old new rest) : Swap front old new rest := by
  obtain ⟨hold, hnew⟩ := htable _ h.entry
  refine ⟨?_, tokenMayPrecede_of_stops h.stops, (isPlainName_iff.1 hold).isPlainToken,
    (isPlainName_iff.1 hnew).isPlainToken⟩
  obtain ⟨c, hc, hgap⟩ := h.leads.getLast
  rw [Option.mem_def.1 hc]
  exact Text.isAsciiBlank_of_isGap hgap

/-- **A renaming rule exchanges plain tokens.** -/
theorem each_swap_commandFragments {table : List (Text × Text)} (htable : IsPlainTable table)
    (body : Text) : Each Swap [] (commandFragments table body) :=
  (each_commandFragments table body).mono fun _ _ _ _ => Renamed.swap htable

theorem anchored_selector? : Anchored selector? where
  dash h := by
    obtain ⟨lead, taken, value, rest, -, -, -, rfl⟩ := selector?_shape h
    rfl
  isPrefix h := by
    obtain ⟨lead, taken, value, rest, -, -, rfl, rfl⟩ := selector?_shape h
    exact ⟨rest, rfl⟩

end Migration
end ScriptUpgrade
