/-
# Rules cut between what earlier rules wrote

What the rules write is one of three things, and it stands between blanks or the edges of the call body:

| written | by |
| --- | --- |
| a text without blanks | all rules |
| a text in quotes | the selector rule |
| `--output-type` or `-o`, gaps and `json` | the output rule |

A rule that exchanges one token for another never cuts into it. A place inside a text without blanks has no
blank beside it. A place inside quotes is refused, and a command does not stand there because the word
of which it would be a part starts with the quote. Inside the third only `json` starts after a blank, which
is no option and no command, and only the flag ends before one, which is not a whole option
(`not_inside_front`, `not_inside_back`).

So the history of a call body and a pass over it can be told apart by blocks, and in the new history
the same holds of what the rules wrote (`IsAligned.exists_blocks`).
-/

import ScriptUpgrade.Proofs.Layers
import ScriptUpgrade.Proofs.SettledBody

namespace ScriptUpgrade
namespace Quote

/-- Inside quotes the quote stays open. -/
theorem run_quoted {mark : Char} {lead : Text} (hmark : isMark mark = true) (hlead : mark ∉ lead) :
    run none (mark :: lead) = some mark := by
  have hopen : step none mark = some mark := by simp [step, hmark]
  rw [run, List.foldl_cons, hopen]
  clear hopen
  induction lead with
  | nil => rfl
  | cons c lead ih =>
    rw [List.mem_cons, not_or] at hlead
    have hstep : step (some mark) c = some mark := by
      simp [step, Ne.symm hlead.1]
    rw [List.foldl_cons, hstep, ih hlead.2]

/-- The same mark closes a quote. -/
theorem run_closed {mark : Char} {inside : Text} (hmark : isMark mark = true) (hinside : mark ∉ inside) :
    run none (mark :: inside ++ [mark]) = none := by
  rw [run_append, run_quoted hmark hinside]
  simp [run, step]

end Quote

namespace Migration

open Fragment
open Text (isGap isAsciiBlank)

/-- What rules write to the right of `front`. -/
inductive IsWritten (front : Text) : Text → Prop
  | bare {now : Text} (h : ∀ c ∈ now, isAsciiBlank c = false) : IsWritten front now
  | quoted {mark : Char} {inside : Text} (hmark : Quote.isMark mark = true) (hinside : mark ∉ inside)
      (houtside : Quote.run none front = none) : IsWritten front (mark :: inside ++ [mark])
  | option {flag gaps : Text} (hflag : flag ∈ outputFlags) (hgaps : IsGaps gaps) :
      IsWritten front (flag ++ gaps ++ "json".toList)

/-- A text that a rule wrote between `front` and `rest`. -/
structure Stands (front now rest : Text) : Prop where
  starts : tokenMayFollow front.getLast? = true
  ends : tokenMayPrecede rest = true
  written : IsWritten front now

/-- A history of which every new text stands as rules write it. -/
def Standing (history : List Fragment) : Prop :=
  ∀ left old new right, history = left ++ .replaced old new :: right →
    Stands (newText left) new (newText right)

/-- A text of which the only ASCII blanks are gaps. -/
def IsSmooth (text : Text) : Prop :=
  ∀ c ∈ text, isAsciiBlank c = true → isGap c = true

/-- A token that a rule exchanges for another one: an option outside quotes, or the command. -/
structure Exchanges (front old new rest : Text) : Prop where
  swap : Swap front old new rest
  head : ∃ c ∈ old.head?, isZoneChar c = true
  noFlag : old ∉ outputFlags
  place : Quote.run none front = none ∧ old.head? = some '-' ∨
    Leads front ∧ IsCommandWord old ∧ Text.Stops isWordChar rest ∧ old ≠ "json".toList
  written : ∀ front', IsWritten front' new
  smooth : IsSmooth new

/-! ### The rules that exchange -/

theorem isSmooth_of_no_blank {text : Text} (h : ∀ c ∈ text, isAsciiBlank c = false) : IsSmooth text := by
  intro c hc hblank
  rw [h c hc] at hblank
  exact absurd hblank Bool.false_ne_true

theorem IsSmooth.append {front back : Text} (hfront : IsSmooth front) (hback : IsSmooth back) :
    IsSmooth (front ++ back) := by
  intro c hc
  rcases List.mem_append.1 hc with hc | hc
  · exact hfront c hc
  · exact hback c hc

theorem outputFlags_plain {flag : Text} (h : flag ∈ outputFlags) :
    flag.head? = some '-' ∧ ∀ c ∈ flag, isZoneChar c = true := by
  have hflags : ∀ flag ∈ outputFlags, flag.head? = some '-' ∧ ∀ c ∈ flag, isZoneChar c = true := by
    decide
  exact hflags flag h

theorem not_mem_outputFlags {name mark value : Text} (hne : mark ≠ [])
    (hmark : ∀ c ∈ mark, isZoneChar c = false) : name ++ mark ++ value ∉ outputFlags := by
  intro hmem
  obtain ⟨c, mark, rfl⟩ := List.exists_cons_of_ne_nil hne
  have hzone := (outputFlags_plain hmem).2 c (by simp)
  rw [hmark c (by simp)] at hzone
  exact Bool.false_ne_true hzone

theorem head?_option {name mark value : Text} (h : name.head? = some '-') :
    (name ++ mark ++ value).head? = some '-' := by
  rw [List.append_assoc, List.head?_append, h]
  rfl

theorem IsSeparator.ne_nil {mark : Text} (h : IsSeparator mark) : mark ≠ [] := by
  rcases h with rfl | ⟨hne, -⟩
  · simp
  · exact hne

theorem IsZoneMark.ne_nil {mark : Text} (h : IsZoneMark mark) : mark ≠ [] := by
  rcases h with ⟨hne, -⟩ | ⟨left, right, rfl, -, -⟩
  · exact hne
  · simp

theorem isWritten_json {flag mark : Text} (hflag : flag ∈ outputFlags) (hmark : IsSeparator mark)
    (front : Text) : IsWritten front (flag ++ mark ++ "json".toList) := by
  rcases hmark with rfl | hgaps
  · refine IsWritten.bare fun c hc => ?_
    have hflags : ∀ flag ∈ outputFlags, ∀ c ∈ flag ++ ['='] ++ "json".toList, isAsciiBlank c = false := by
      decide
    exact hflags flag hflag c hc
  · exact IsWritten.option hflag hgaps

theorem isSmooth_json {flag mark : Text} (hflag : flag ∈ outputFlags) (hmark : IsSeparator mark) :
    IsSmooth (flag ++ mark ++ "json".toList) := by
  have hname : IsSmooth flag :=
    isSmooth_of_no_blank (noBlank_of_isTokenChar (outputFlags_chars hflag).2)
  have hvalue : IsSmooth "json".toList := isSmooth_of_no_blank (by decide)
  refine (hname.append ?_).append hvalue
  rcases hmark with rfl | ⟨-, hgaps⟩
  · exact isSmooth_of_no_blank (by decide)
  · exact fun c hc _ => hgaps c hc

theorem Taken.exchanges_outputType? {front old new rest : Text}
    (h : Taken outputType? front old new rest) : Exchanges front old new rest := by
  obtain ⟨flag, mark, format, rest', hflag, hmark, hformat, -, hhit⟩ := outputType?_shape h.hit
  simp only [Hit.mk.injEq, Option.some.injEq] at hhit
  obtain ⟨rfl, rfl⟩ := hhit
  have hhead : (flag ++ mark ++ format).head? = some '-' := head?_option (outputFlags_chars hflag).1
  exact {
    swap := isPlainPattern_outputType?.swap h
    head := ⟨'-', hhead, by decide⟩
    noFlag := not_mem_outputFlags hmark.ne_nil hmark.noZoneChar
    place := Or.inl ⟨h.outside, hhead⟩
    written := isWritten_json hflag hmark
    smooth := isSmooth_json hflag hmark }

theorem Taken.exchanges_zone? {front old new rest : Text}
    (h : Taken zone? front old new rest) : Exchanges front old new rest := by
  obtain ⟨mark, name, rest', hmark, hname, -, -, hhit⟩ := zone?_shape h.hit
  simp only [Hit.mk.injEq] at hhit
  obtain ⟨rfl, hnew⟩ := hhit
  have hhead : ("--zone".toList ++ mark ++ name).head? = some '-' := head?_option rfl
  obtain ⟨name', rfl⟩ := exists_zone_append h.hit
  have hblank : ∀ c ∈ "--zone=".toList ++ name', isAsciiBlank c = false := by
    split at hnew
    · exact absurd hnew (by simp)
    · have hname' : name' = name.map Char.toLower := by simpa using hnew
      intro c hc
      rcases List.mem_append.1 hc with hc | hc
      · exact (by decide : ∀ c ∈ "--zone=".toList, isAsciiBlank c = false) c hc
      · rw [hname'] at hc
        exact noBlank_of_isTokenChar hname.toLower.1.chars.2.1 c hc
  exact {
    swap := isPlainPattern_zone?.swap h
    head := ⟨'-', hhead, by decide⟩
    noFlag := not_mem_outputFlags hmark.ne_nil hmark.noZoneChar
    place := Or.inl ⟨h.outside, hhead⟩
    written := fun _ => IsWritten.bare hblank
    smooth := isSmooth_of_no_blank hblank }

theorem Renamed.exchanges {table : List (Text × Text)} (htable : IsPlainTable table)
    (hjson : ∀ row ∈ table, row.1 ≠ "json".toList) {front old new rest : Text}
    (h : Renamed table front old new rest) : Exchanges front old new rest := by
  obtain ⟨hold, hnew⟩ := htable _ h.entry
  rw [isPlainName_iff] at hold hnew
  have hblank := noBlank_of_isTokenChar hnew.chars.2.1
  obtain ⟨c, name, rfl, -, hchars⟩ := hold
  exact {
    swap := h.swap htable
    head := ⟨c, rfl, hchars c (by simp)⟩
    noFlag := fun hmem => h.isCommandWord.noDash (outputFlags_plain hmem).1
    place := Or.inr ⟨h.leads, h.isCommandWord, h.stops, hjson _ h.entry⟩
    written := fun _ => IsWritten.bare hblank
    smooth := isSmooth_of_no_blank hblank }

/-- **The rules after the selector rule exchange tokens.** -/
theorem each_exchanges {rule : Rule} (hrule : rule ∈ exchangeRules) (body : Text) :
    Each Exchanges [] (rule.fragments body) := by
  simp only [exchangeRules, List.mem_cons, List.not_mem_nil, or_false] at hrule
  rcases hrule with rfl | rfl | rfl | rfl
  · exact (each_taken isPlainPattern_outputType?.toAnchored body).mono fun _ _ _ _ h =>
      h.exchanges_outputType?
  · exact (each_taken isPlainPattern_zone?.toAnchored body).mono fun _ _ _ _ h => h.exchanges_zone?
  · exact (each_commandFragments resourceRenames body).mono fun _ _ _ _ h =>
      h.exchanges isPlainTable_resourceRenames (by decide)
  · exact (each_commandFragments productAliases body).mono fun _ _ _ _ h =>
      h.exchanges isPlainTable_productAliases (by decide)

/-! ### No cut inside what was written -/

/-- In front of the command only options start. -/
theorem Leads.head?_eq_dash {text : Text} (h : Leads text) {front back : Text} (hsplit : text = front ++ back)
    (hfront : ∀ c ∈ front.getLast?, isGap c = true) {c : Char} (hc : back.head? = some c)
    (hgap : isGap c = false) : c = '-' := by
  induction h generalizing front with
  | gaps hgaps =>
    have hmem : c ∈ front ++ back := List.mem_append_right _ (List.mem_of_head? hc)
    rw [← hsplit] at hmem
    rw [hgaps.2 c hmem] at hgap
    exact absurd hgap (by simp)
  | @option gaps word rest hgaps hdash hword hoption hrest ih =>
    rw [List.append_assoc] at hsplit
    rcases Text.append_eq_append_cases hsplit with ⟨e, rfl, hback⟩ | ⟨e, hne, rfl, hback⟩
    · -- `back` starts inside the gaps or with the option
      cases e with
      | nil =>
        rw [hback, List.nil_append, List.head?_append, hdash] at hc
        simpa using hc.symm
      | cons d e =>
        rw [hback, List.cons_append, List.head?_cons, Option.some.injEq] at hc
        rw [← hc, hgaps.2 d (by simp)] at hgap
        exact absurd hgap (by simp)
    · have hlast : ∀ c ∈ e.getLast?, isGap c = true := by
        intro d hd
        exact hfront d (by rw [List.getLast?_append_of_ne_nil _ hne]; exact hd)
      have hnoGap : ∀ front : Text, front ≠ [] → (∀ c ∈ front, c ∈ word) →
          ¬ ∀ c ∈ front.getLast?, isGap c = true := by
        intro front hfront hmem hall
        have hgapLast := hall _ (List.getLast?_eq_some_getLast hfront)
        have hwordLast := hword _ (hmem _ (List.getLast_mem hfront))
        rw [isWordChar, hgapLast] at hwordLast
        exact absurd hwordLast (by simp)
      rcases Text.append_eq_append_cases hback with ⟨e', rfl, -⟩ | ⟨e', hne', rfl, hback'⟩
      · -- `front` ends inside the option
        exact absurd hlast (hnoGap e hne fun c hc => List.mem_append_left _ hc)
      · refine ih hback' fun d hd => hlast d ?_
        rw [List.getLast?_append_of_ne_nil _ hne']
        exact hd

theorem exists_blank_getLast? {front text : Text} (hne : text ≠ [])
    (h : tokenMayFollow (front ++ text).getLast? = true) : ∃ c ∈ text.getLast?, isAsciiBlank c = true := by
  rw [List.getLast?_append_of_ne_nil _ hne] at h
  have hlast := List.getLast?_eq_some_getLast hne
  rw [hlast] at h
  exact ⟨_, hlast, h⟩

theorem exists_blank_head? {text rest : Text} (hne : text ≠ [])
    (h : tokenMayPrecede (text ++ rest) = true) : ∃ c ∈ text.head?, isAsciiBlank c = true := by
  obtain ⟨c, text, rfl⟩ := List.exists_cons_of_ne_nil hne
  exact ⟨c, rfl, h⟩

/-- The part of a text in quotes up to a place inside it. -/
theorem exists_of_quoted {mark : Char} {inside inner outer : Text} (hinner : inner ≠ [])
    (houter : outer ≠ []) (h : mark :: inside ++ [mark] = inner ++ outer) :
    ∃ lead, inner = mark :: lead ∧ ∀ c ∈ lead, c ∈ inside := by
  obtain ⟨c, lead, rfl⟩ := List.exists_cons_of_ne_nil hinner
  rw [List.cons_append, List.cons_append, List.cons.injEq] at h
  obtain ⟨rfl, h⟩ := h
  refine ⟨lead, rfl, ?_⟩
  rcases Text.append_eq_append_cases h with ⟨e, rfl, -⟩ | ⟨e, hne, rfl, hout⟩
  · exact fun c hc => List.mem_append_left _ hc
  · obtain ⟨d, e, rfl⟩ := List.exists_cons_of_ne_nil hne
    rw [List.cons_append, List.cons.injEq] at hout
    exact absurd (List.append_eq_nil_iff.1 hout.2.symm).2 houter

theorem stops_isWordChar_of_tokenMayPrecede {text : Text} (h : tokenMayPrecede text = true)
    (hsmooth : IsSmooth text) : Text.Stops isWordChar text := by
  cases text with
  | nil => exact Text.stops_nil _
  | cons c text =>
    rw [Text.stops_cons, isWordChar, hsmooth c (by simp) h]
    rfl

/-- Only the flag of a written option ends before a blank of it. -/
theorem eq_flag_of_cut {flag gaps inner outer : Text} (hflag : flag ∈ outputFlags) (hgaps : IsGaps gaps)
    (hcut : flag ++ gaps ++ "json".toList = inner ++ outer)
    (hinner : ∃ c ∈ inner.getLast?, isZoneChar c = true)
    (houter : ∃ c ∈ outer.head?, isAsciiBlank c = true) : inner = flag := by
  obtain ⟨c, hc, hzone⟩ := hinner
  obtain ⟨b, hb, hblank⟩ := houter
  rw [List.append_assoc] at hcut
  rcases Text.append_eq_append_cases hcut with ⟨e, rfl, rfl⟩ | ⟨e, hne, rfl, hrest⟩
  · cases e with
    | nil => exact (List.append_nil _).symm
    | cons d e =>
      obtain rfl : d = b := by simpa using hb
      have hno := noBlank_of_isTokenChar (outputFlags_chars hflag).2 d (by simp)
      rw [hblank] at hno
      exact absurd hno (by simp)
  · rw [List.getLast?_append_of_ne_nil _ hne] at hc
    rcases Text.append_eq_append_cases hrest with ⟨e', rfl, -⟩ | ⟨e', hne', rfl, hjson⟩
    · have hno := isZoneChar_eq_false_of_isGap (hgaps.2 c (by simp [List.mem_of_getLast? hc]))
      rw [hzone] at hno
      exact absurd hno (by simp)
    · have hmem : b ∈ "json".toList := by
        rw [hjson]
        exact List.mem_append_right _ (List.mem_of_head? hb)
      have hno := (by decide : ∀ c ∈ "json".toList, isAsciiBlank c = false) b hmem
      rw [hblank] at hno
      exact absurd hno (by simp)

variable {front old new rest : Text}

/-- **No rule that exchanges tokens begins inside what was written.** -/
theorem Exchanges.not_inside_front (h : Exchanges front old new rest) {before inner outer after : Text}
    (hstands : Stands before (inner ++ outer) after) (hsmooth : IsSmooth (front ++ old ++ rest))
    (hinner : inner ≠ []) (houter : outer ≠ []) (hfront : before ++ inner = front)
    (hback : outer ++ after = old ++ rest) : False := by
  subst hfront
  obtain ⟨b, hb, hblank⟩ := exists_blank_getLast? hinner h.swap.starts
  have hbmem : b ∈ inner := List.mem_of_getLast? hb
  have hhead : outer.head? = old.head? := by
    have hhead := congrArg List.head? hback
    rwa [List.head?_append_of_ne_nil _ houter, List.head?_append_of_ne_nil _ h.swap.old.ne_nil] at hhead
  generalize hnow : inner ++ outer = now at hstands
  cases hstands.written with
  | bare hbare =>
    have hno := hbare b (by rw [← hnow]; exact List.mem_append_left _ hbmem)
    rw [hblank] at hno
    exact absurd hno (by simp)
  | @quoted mark inside hmark hinside houtside =>
    obtain ⟨lead, rfl, hlead⟩ := exists_of_quoted hinner houter hnow.symm
    rcases h.place with ⟨hrun, -⟩ | ⟨hleads, -⟩
    · rw [Quote.run_append, houtside,
        Quote.run_quoted hmark fun hmem => hinside (hlead mark hmem)] at hrun
      exact absurd hrun (by simp)
    · have hgap : ∀ c ∈ before.getLast?, isGap c = true := by
        intro c hc
        have hstarts := hstands.starts
        rw [Option.mem_def.1 hc] at hstarts
        have hmem : c ∈ before := List.mem_of_getLast? hc
        exact hsmooth c (by simp [hmem]) hstarts
      have hno : isGap mark = false := by
        have hmarks : ∀ c, Quote.isMark c = true → isGap c = false := by
          intro c hc
          simp only [Quote.isMark, Bool.or_eq_true, beq_iff_eq] at hc
          rcases hc with rfl | rfl <;> decide
        exact hmarks mark hmark
      have hdash := hleads.head?_eq_dash rfl hgap rfl hno
      rw [hdash] at hmark
      exact absurd hmark (by decide)
  | @option flag gaps hflag hgaps =>
    have hcut := option_cut (noBlank_of_isTokenChar (outputFlags_chars hflag).2)
      (fun c hc => isZoneChar_eq_false_of_isGap (hgaps.2 c hc))
      (by decide : ∀ c ∈ "json".toList, isAsciiBlank c = false) hnow.symm hinner
      (by rw [Option.mem_def.1 hb]; exact hblank) (hhead ▸ h.head)
    obtain ⟨-, rfl⟩ := hcut
    rcases h.place with ⟨-, hdash⟩ | ⟨-, hword, hstops, hjson⟩
    · rw [hdash] at hhead
      exact absurd hhead (by decide)
    · -- both are the word that starts here
      have hafter : Text.Stops isWordChar after := by
        refine stops_isWordChar_of_tokenMayPrecede hstands.ends fun c hc => ?_
        refine hsmooth c ?_
        rw [List.append_assoc, ← hback]
        simp [hc]
      have hleft := Text.takeWhile_append_stops hword.noGap hstops
      rw [← hback, Text.takeWhile_append_stops (by decide) hafter] at hleft
      exact hjson hleft.symm

/-- **No rule that exchanges tokens ends inside what was written.** -/
theorem Exchanges.not_inside_back (h : Exchanges front old new rest) {before inner outer after : Text}
    (hstands : Stands before (inner ++ outer) after) (hsmooth : IsSmooth (front ++ old ++ rest))
    (hinner : inner ≠ []) (houter : outer ≠ []) (hfront : before ++ inner = front ++ old)
    (hback : outer ++ after = rest) : False := by
  rcases Text.append_eq_append_cases hfront with ⟨lead, rfl, rfl⟩ | ⟨lead, hne, rfl, rfl⟩
  · subst hback
    obtain ⟨b, hb, hblank⟩ := exists_blank_head? houter h.swap.ends
    have hbmem : b ∈ outer := List.mem_of_head? hb
    generalize hnow : inner ++ outer = now at hstands
    cases hstands.written with
    | bare hbare =>
      have hno := hbare b (by rw [← hnow]; exact List.mem_append_right _ hbmem)
      rw [hblank] at hno
      exact absurd hno (by simp)
    | @quoted mark inside hmark hinside houtside =>
      obtain ⟨text, rfl, -⟩ := exists_of_quoted hinner houter hnow.symm
      have hcalm := h.swap.old.noMark mark (by simp)
      rw [hmark] at hcalm
      exact absurd hcalm (by simp)
    | @option flag gaps hflag hgaps =>
      obtain rfl : inner = flag := by
        obtain ⟨c, hc, hzone⟩ := h.swap.old.last
        rw [List.getLast?_append_of_ne_nil _ hinner] at hc
        exact eq_flag_of_cut hflag hgaps hnow.symm ⟨c, hc, hzone⟩ ⟨b, hb, hblank⟩
      by_cases hlead : lead = []
      · subst hlead
        exact h.noFlag hflag
      · have hstarts := hstands.starts
        rw [List.getLast?_append_of_ne_nil _ hlead] at hstarts
        exact h.swap.old.unbroken lead inner rfl hlead hstarts (outputFlags_plain hflag).1
  · -- the token begins inside it as well
    have hstands' : Stands before (lead ++ (old ++ outer)) after := by
      rwa [← List.append_assoc]
    have houter' : old ++ outer ≠ [] := fun hnil => houter (List.append_eq_nil_iff.1 hnil).2
    exact h.not_inside_front hstands' hsmooth hne houter' rfl (by rw [List.append_assoc, hback])

/-! ### Blocks of a history and a pass -/

/-- A place of the line of now between two fragments of its history. -/
def Splits (history : List Fragment) (front : Text) : Prop :=
  ∃ left right, history = left ++ right ∧ newText left = front

/-- The blocks of a history that a pass leaves as it is. -/
def unchanged (history : List Fragment) : List Block :=
  history.map fun
    | .kept c => .kept c
    | .replaced old new => .survives old new

theorem unchanged_spec (history : List Fragment) :
    earlier (unchanged history) = history ∧ cut (unchanged history) = keep (newText history) ∧
      later (unchanged history) = history := by
  induction history with
  | nil => exact ⟨rfl, rfl, rfl⟩
  | cons fragment history ih =>
    obtain ⟨hearlier, hcut, hlater⟩ := ih
    cases fragment with
    | kept c =>
      refine ⟨congrArg (List.cons _) hearlier, congrArg (List.cons _) hcut, congrArg (List.cons _) hlater⟩
    | replaced old new =>
      refine ⟨congrArg (List.cons _) hearlier, ?_, congrArg (List.cons _) hlater⟩
      rw [newText_replaced, keep_append, ← hcut]
      rfl

/-- A place behind one at which a history is cut is a place of the rest. -/
theorem Splits.right {left right : List Fragment} (hsolid : IsSolid (left ++ right)) {text : Text}
    (h : Splits (left ++ right) (newText left ++ text)) : Splits right text := by
  obtain ⟨left', right', hsplit, hnew⟩ := h
  rcases List.append_eq_append_iff.1 hsplit with ⟨rest, rfl, rfl⟩ | ⟨rest, rfl, rfl⟩
  · refine ⟨rest, right', rfl, ?_⟩
    rw [newText_append] at hnew
    exact List.append_cancel_left hnew
  · -- the cut is not behind the other one, so nothing lies between them
    rw [newText_append, List.append_assoc] at hnew
    have hnil := List.append_eq_nil_iff.1 (List.append_right_eq_self.1 hnew.symm)
    exact ⟨[], right, rfl, hnil.2.symm⟩

/-- **A history and a pass that cuts between its fragments are told apart by blocks.** -/
theorem exists_blocks {history fragments : List Fragment} (hsolid : IsSolid history)
    (htext : oldText fragments = newText history)
    (hsplits : ∀ left old new right, fragments = left ++ .replaced old new :: right →
      Splits history (oldText left) ∧ Splits history (oldText left ++ old)) :
    ∃ blocks, earlier blocks = history ∧ cut blocks = fragments := by
  -- on the length of the pass, one replaced stretch and what is kept before it at a time
  induction hlength : fragments.length using Nat.strong_induction_on generalizing history fragments with
  | _ length ih
  obtain ⟨text, right, rfl, rfl | ⟨old, new, rest, rfl⟩⟩ := exists_keep_append fragments
  · refine ⟨unchanged history, (unchanged_spec history).1, ?_⟩
    rw [(unchanged_spec history).2.1, ← htext, List.append_nil, oldText_keep]
  · obtain ⟨hfront, hback⟩ := hsplits _ _ _ _ rfl
    rw [oldText_keep] at hfront hback
    obtain ⟨left, right, rfl, rfl⟩ := hfront
    obtain ⟨inner, right, rfl, rfl⟩ := hback.right hsolid
    rw [oldText_append, oldText_keep, oldText_replaced, newText_append, newText_append] at htext
    have hrest : oldText rest = newText right :=
      List.append_cancel_left (List.append_cancel_left htext)
    rw [← List.append_assoc] at hsolid
    have hsplits' : ∀ left' old' new' right', rest = left' ++ .replaced old' new' :: right' →
        Splits right (oldText left') ∧ Splits right (oldText left' ++ old') := by
      rintro left' old' new' right' rfl
      have h := hsplits (keep (newText left) ++ .replaced (newText inner) new :: left') old' new' right'
        (by simp)
      have hfront : oldText (keep (newText left) ++ .replaced (newText inner) new :: left') =
          newText (left ++ inner) ++ oldText left' := by
        rw [oldText_append, oldText_keep, oldText_replaced, newText_append, List.append_assoc]
      rw [hfront, ← List.append_assoc left, List.append_assoc (newText (left ++ inner))] at h
      exact ⟨h.1.right hsolid, h.2.right hsolid⟩
    have hless : rest.length < length := by
      rw [← hlength, List.length_append, List.length_cons]
      omega
    obtain ⟨blocks, hearlier, hcut⟩ := ih _ hless (isSolid_append_iff.1 hsolid).2 hrest hsplits' rfl
    refine ⟨unchanged left ++ .absorbs inner new :: blocks, ?_, ?_⟩
    · rw [earlier_append, earlier_cons, (unchanged_spec left).1, hearlier]
      rfl
    · rw [cut_append, cut_cons, (unchanged_spec left).2.1, hcut]
      rfl

/-! ### The new history -/

/-- A fragment of the new history comes from one block. -/
theorem exists_of_later_eq_append {blocks : List Block} {left right : List Fragment} {fragment : Fragment}
    (h : later blocks = left ++ fragment :: right) :
    ∃ before block after, blocks = before ++ block :: after ∧ later before = left ∧
      block.later = [fragment] ∧ later after = right := by
  induction blocks generalizing left with
  | nil =>
    have hlength := congrArg List.length h
    simp [later] at hlength
  | cons block blocks ih =>
    obtain ⟨first, hfirst⟩ : ∃ first, block.later = [first] := by
      cases block <;> exact ⟨_, rfl⟩
    rw [later_cons, hfirst, List.singleton_append] at h
    cases left with
    | nil =>
      rw [List.nil_append, List.cons.injEq] at h
      exact ⟨[], block, blocks, rfl, rfl, by rw [hfirst, h.1], h.2⟩
    | cons fragment' left =>
      rw [List.cons_append, List.cons.injEq] at h
      obtain ⟨before, block', after, rfl, rfl, hblock, rfl⟩ := ih h.2
      refine ⟨block :: before, block', after, rfl, ?_, hblock, rfl⟩
      rw [later_cons, hfirst, h.1]
      rfl

/-- What the rules wrote stands the same after tokens beside it were exchanged. -/
theorem IsWritten.of_isPlain {fragments : List Fragment} (hplain : IsPlain fragments) {now : Text}
    (h : IsWritten (oldText fragments) now) : IsWritten (newText fragments) now := by
  cases h with
  | bare hbare => exact IsWritten.bare hbare
  | quoted hmark hinside houtside =>
    refine IsWritten.quoted hmark hinside ?_
    rw [run_newText Quote.isOpen_none hplain, houtside]
  | option hflag hgaps => exact IsWritten.option hflag hgaps

theorem mem_newText {fragments : List Fragment} {c : Char} (h : c ∈ newText fragments) :
    c ∈ oldText fragments ∨ ∃ old new, .replaced old new ∈ fragments ∧ c ∈ new := by
  induction fragments with
  | nil => simp at h
  | cons fragment fragments ih =>
    cases fragment with
    | kept d =>
      rw [newText_kept, List.mem_cons] at h
      rcases h with rfl | h
      · exact Or.inl (by simp)
      · rcases ih h with h | ⟨old, new, hmem, hc⟩
        · exact Or.inl (by simp [h])
        · exact Or.inr ⟨old, new, List.mem_cons_of_mem _ hmem, hc⟩
    | replaced old new =>
      rw [newText_replaced, List.mem_append] at h
      rcases h with h | h
      · exact Or.inr ⟨old, new, by simp, h⟩
      · rcases ih h with h | ⟨old', new', hmem, hc⟩
        · exact Or.inl (by simp [h])
        · exact Or.inr ⟨old', new', List.mem_cons_of_mem _ hmem, hc⟩

/-- A history of a call body between the fragments of which the rules cut. -/
structure IsAligned (history : List Fragment) : Prop where
  solid : IsSolid history
  standing : Standing history
  smooth : IsSmooth (newText history)

theorem isSolid_of_isPlain {fragments : List Fragment} (h : IsPlain fragments) : IsSolid fragments :=
  fun old new hmem => ⟨(h old new hmem).1.ne_nil, (h old new hmem).2.ne_nil⟩

/-- **What the rules wrote stands in the new history as in the one before.** -/
theorem standing_later {blocks : List Block} (hstanding : Standing (earlier blocks))
    (heach : Each Exchanges [] (cut blocks)) : Standing (later blocks) := by
  have hplain : IsPlain (cut blocks) :=
    isPlain_of_each_swap (heach.mono fun _ _ _ _ h => h.swap)
  intro left old new right hsplit
  obtain ⟨before, block, after, rfl, rfl, hblock, rfl⟩ := exists_of_later_eq_append hsplit
  rw [cut_append, cut_cons] at hplain heach
  have hleft := hplain.of_append.1
  have hright := hplain.of_append.2.of_append.2
  -- beside the fragment the pass has exchanged plain tokens only
  have hstands : Stands (oldText (cut before)) new (oldText (cut after)) →
      Stands (newText (later before)) new (newText (later after)) := by
    intro h
    rw [newText_later, newText_later]
    refine ⟨?_, ?_, h.written.of_isPlain hleft⟩
    · rw [(sameEnd_newText hleft).tokenMayFollow_eq]
      exact h.starts
    · rw [tokenMayPrecede_newText hright]
      exact h.ends
  apply hstands
  cases block with
  | kept c => simp [Block.later] at hblock
  | survives first now =>
    simp only [Block.later, List.cons.injEq, replaced.injEq, and_true] at hblock
    obtain ⟨rfl, rfl⟩ := hblock
    rw [earlier_append, earlier_cons] at hstanding
    rw [oldText_cut, oldText_cut]
    exact hstanding (earlier before) first now (earlier after) rfl
  | absorbs inner now =>
    simp only [Block.later, List.cons.injEq, replaced.injEq, and_true] at hblock
    obtain ⟨rfl, rfl⟩ := hblock
    have h : Exchanges (oldText (cut before)) (newText inner) now (oldText (cut after)) :=
      heach.at_replaced
    exact ⟨h.swap.starts, h.swap.ends, h.written _⟩

/-- **A history between the fragments of which the rules cut, and a rule that exchanges tokens, are told
apart by blocks, and the rules cut between the fragments of the new history too.** -/
theorem IsAligned.exists_blocks {history fragments : List Fragment} (h : IsAligned history)
    (htext : oldText fragments = newText history) (heach : Each Exchanges [] fragments) :
    ∃ blocks, earlier blocks = history ∧ cut blocks = fragments ∧ IsAligned (later blocks) := by
  have hsplits : ∀ left old new right, fragments = left ++ .replaced old new :: right →
      Splits history (oldText left) ∧ Splits history (oldText left ++ old) := by
    rintro left old new right rfl
    have hexchanges : Exchanges (oldText left) old new (oldText right) := heach.at_replaced
    rw [oldText_append, oldText_replaced] at htext
    have hsmooth : IsSmooth (oldText left ++ old ++ oldText right) := by
      rw [List.append_assoc, htext]
      exact h.smooth
    constructor
    · rcases exists_of_newText_eq_append htext.symm with
        ⟨left', right', rfl, hleft, -⟩ | ⟨left', old', inner, outer, right', rfl, hinner, houter, hleft, hright⟩
      · exact ⟨left', right', rfl, hleft⟩
      · exact (hexchanges.not_inside_front (h.standing _ _ _ _ rfl) hsmooth hinner houter hleft hright).elim
    · rw [← List.append_assoc] at htext
      rcases exists_of_newText_eq_append htext.symm with
        ⟨left', right', rfl, hleft, -⟩ | ⟨left', old', inner, outer, right', rfl, hinner, houter, hleft, hright⟩
      · exact ⟨left', right', rfl, hleft⟩
      · exact (hexchanges.not_inside_back (h.standing _ _ _ _ rfl) hsmooth hinner houter hleft hright).elim
  obtain ⟨blocks, rfl, rfl⟩ := Migration.exists_blocks h.solid htext hsplits
  have hplain : IsPlain (cut blocks) :=
    isPlain_of_each_swap (heach.mono fun _ _ _ _ h => h.swap)
  refine ⟨blocks, rfl, rfl, isSolid_later h.solid (isSolid_of_isPlain hplain),
    standing_later h.standing heach, ?_⟩
  intro c hc hblank
  rw [newText_later] at hc
  rcases mem_newText hc with hc | ⟨old, new, hmem, hc⟩
  · rw [oldText_cut] at hc
    exact h.smooth c hc hblank
  · obtain ⟨_, _, hexchanges⟩ := heach.of_mem hmem
    exact hexchanges.smooth c hc hblank

end Migration
end ScriptUpgrade
