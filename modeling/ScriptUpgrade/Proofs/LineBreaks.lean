/-
# Line breaks stay where they are

A script is split into lines, the lines are migrated, and they are joined again with the endings they
had. Splitting the result finds the migrated lines and the same endings (`split_text`), so no line is
merged with another, cut in two or ended in another way.

Which lists of lines are read back as they were joined is said by `IsSplit`: no line has a line feed in
it, a line that a line feed ends does not end with a carriage return, and only a last line that is not
empty has no ending. Migrating a line disturbs none of this, since it makes no break that was not there
(`noNewBreak_migrated`):

| change | why it makes no break |
| --- | --- |
| selector | its value is a part of it and has the same last character |
| output type, zone, command | what is written has no break in it |
| retirement | the blanks at the end of the line are dropped |
-/

import ScriptUpgrade.Proofs.Idempotence
import ScriptUpgrade.Proofs.Selection
import ScriptUpgrade.Script.Report

namespace ScriptUpgrade

namespace Text

/-- A character of a line ending. -/
def isBreak (c : Char) : Bool :=
  c == '\n' || c == '\r'

/-- The new text is empty only if the old one is, it has only breaks that the old one has, and it ends
with a break only if the old one ends with it. -/
structure NoNewBreak (old new : Text) : Prop where
  nil_iff : new = [] ↔ old = []
  mem : ∀ c ∈ new, isBreak c = true → c ∈ old
  last : ∀ c ∈ new.getLast?, isBreak c = true → c ∈ old.getLast?

namespace NoNewBreak

theorem refl (text : Text) : NoNewBreak text text :=
  ⟨Iff.rfl, fun _ hc _ => hc, fun _ hc _ => hc⟩

theorem trans {first second third : Text} (h : NoNewBreak first second)
    (h' : NoNewBreak second third) : NoNewBreak first third where
  nil_iff := h'.nil_iff.trans h.nil_iff
  mem c hc hbreak := h.mem c (h'.mem c hc hbreak) hbreak
  last c hc hbreak := h.last c (h'.last c hc hbreak) hbreak

theorem append {old new old' new' : Text} (h : NoNewBreak old new) (h' : NoNewBreak old' new') :
    NoNewBreak (old ++ old') (new ++ new') where
  nil_iff := by rw [List.append_eq_nil_iff, List.append_eq_nil_iff, h.nil_iff, h'.nil_iff]
  mem c hc hbreak := by
    rcases List.mem_append.1 hc with hc | hc
    · exact List.mem_append_left _ (h.mem c hc hbreak)
    · exact List.mem_append_right _ (h'.mem c hc hbreak)
  last c hc hbreak := by
    by_cases hnew : new' = []
    · rw [hnew, List.append_nil] at hc
      rw [h'.nil_iff.1 hnew, List.append_nil]
      exact h.last c hc hbreak
    · rw [List.getLast?_append_of_ne_nil _ hnew] at hc
      rw [List.getLast?_append_of_ne_nil _ fun hold => hnew (h'.nil_iff.2 hold)]
      exact h'.last c hc hbreak

/-- A text without breaks may stand for any text. -/
theorem of_no_break {old new : Text} (hold : old ≠ []) (hnew : new ≠ [])
    (h : ∀ c ∈ new, isBreak c = false) : NoNewBreak old new where
  nil_iff := by simp [hold, hnew]
  mem c hc hbreak := by
    rw [h c hc] at hbreak
    cases hbreak
  last c hc hbreak := by
    rw [h c (List.mem_of_getLast? hc)] at hbreak
    cases hbreak

end NoNewBreak

theorem isBlank_of_isBreak {c : Char} (h : isBreak c = true) : isBlank c = true := by
  simp only [isBreak, Bool.or_eq_true, beq_iff_eq] at h
  rcases h with rfl | rfl <;> decide

/-- A text without its trailing blanks does not end with a blank. -/
theorem getLast?_trimEnd (text : Text) : ∀ c ∈ (trimEnd text).getLast?, isBlank c = false := by
  obtain ⟨blanks, -, -, hlast⟩ := exists_dropTail_append isBlank text
  exact hlast

theorem mem_of_mem_trimEnd {text : Text} {c : Char} (h : c ∈ trimEnd text) : c ∈ text := by
  obtain ⟨blanks, hsplit, -, -⟩ := exists_dropTail_append isBlank text
  rw [hsplit]
  exact List.mem_append_left _ h

end Text

namespace Migration

open Fragment Call
open Text (NoNewBreak isBreak)

/-! ### Migrating a line makes no break -/

theorem Selects.noNewBreak {old new : Text} (h : Selects old new) : NoNewBreak old new where
  nil_iff := by
    have hold : old ≠ [] := by
      rintro rfl
      exact absurd h.dash (by simp)
    simp [hold, h.ne_nil]
  mem c hc _ := h.subset c hc
  last c hc _ := by
    rw [← h.last]
    exact hc

theorem Exchanges.noNewBreak {front old new rest : Text} (h : Exchanges front old new rest) :
    NoNewBreak old new := by
  refine .of_no_break h.swap.old.ne_nil h.swap.new.ne_nil fun c hc => ?_
  by_contra hbreak
  simp only [isBreak, Bool.not_eq_false, Bool.or_eq_true, beq_iff_eq] at hbreak
  have hgap := h.smooth c hc
  rcases hbreak with rfl | rfl <;> exact absurd (hgap (by decide)) (by decide)

/-- **What an in-place rule writes has no new break.** -/
theorem noNewBreak_replaced {rule : Rule} (hrule : rule ∈ inPlaceRules) {body old new : Text}
    (hmem : .replaced old new ∈ rule.fragments body) : NoNewBreak old new := by
  rw [inPlaceRules_eq] at hrule
  rcases List.mem_cons.1 hrule with rfl | hrule
  · exact ((isSelection_fragments body).selects hmem).noNewBreak
  · obtain ⟨front, rest, hexchanges⟩ := (each_exchanges hrule body).of_mem hmem
    exact hexchanges.noNewBreak

theorem noNewBreak_newText {fragments : List Fragment}
    (h : ∀ old new, .replaced old new ∈ fragments → NoNewBreak old new) :
    NoNewBreak (oldText fragments) (newText fragments) := by
  induction fragments with
  | nil => exact .refl []
  | cons fragment fragments ih =>
    have htail := ih fun old new hmem => h old new (List.mem_cons_of_mem _ hmem)
    cases fragment with
    | kept c => exact (NoNewBreak.refl [c]).append htail
    | replaced old new => exact (h old new List.mem_cons_self).append htail

/-- What a pass replaces in a line it replaces in one of its calls. -/
theorem exists_of_replaced_mem {keyword line old new : Text} {rule : Rule}
    (h : .replaced old new ∈ fragments keyword rule line) :
    ∃ body ∈ bodies keyword line, .replaced old new ∈ rule.fragments body := by
  rw [fragments_eq_flatMap, List.mem_flatMap] at h
  obtain ⟨part, hpart, hmem⟩ := h
  cases part with
  | outside c => simp [partFragments] at hmem
  | call body =>
    refine ⟨body, mem_filterMap_body?.2 hpart, ?_⟩
    simpa [partFragments, keep] using hmem

theorem noNewBreak_passText {rule : Rule} (hrule : rule ∈ inPlaceRules) (keyword line : Text) :
    NoNewBreak line (passText keyword line rule) := by
  have h : NoNewBreak (oldText (fragments keyword rule line))
      (newText (fragments keyword rule line)) := by
    refine noNewBreak_newText fun old new hmem => ?_
    obtain ⟨body, -, hreplaced⟩ := exists_of_replaced_mem hmem
    exact noNewBreak_replaced hrule hreplaced
  rwa [oldText_fragments] at h

theorem noNewBreak_foldl_passText {rules : List Rule} (hrules : ∀ rule ∈ rules, rule ∈ inPlaceRules)
    (keyword line : Text) : NoNewBreak line (rules.foldl (passText keyword) line) := by
  induction rules generalizing line with
  | nil => exact .refl line
  | cons rule rules ih =>
    rw [List.foldl_cons]
    have hfirst := noNewBreak_passText (hrules rule List.mem_cons_self) keyword line
    exact hfirst.trans (ih (fun r hr => hrules r (List.mem_cons_of_mem _ hr)) _)

/-- No guidance has a break in it. -/
theorem no_break_of_guidance? {body guidance : Text} (h : retirement.guidance? body = some guidance) :
    ∀ c ∈ guidance, isBreak c = false := by
  obtain ⟨⟨front, command, back⟩, -, hlookup⟩ := Option.bind_eq_some_iff.1 h
  have htable : ∀ row ∈ unsupportedCommands, ∀ c ∈ row.2, isBreak c = false := by
    decide
  exact htable _ (mem_of_lookup hlookup)

/-- **Retiring a line makes no break**: what it puts in front has none, and no blank is left at the
end. -/
theorem noNewBreak_comment {guidance line : Text} (hline : line ≠ [])
    (hguidance : ∀ c ∈ guidance, isBreak c = false) : NoNewBreak line (comment guidance line) where
  nil_iff := by simp [comment, hline]
  mem c hc hbreak := by
    have hmark : ∀ c ∈ "# usacloud-update: ".toList ++ ": ".toList, isBreak c = false := by
      decide
    have hsplit := Text.indent_append_trimStart line
    simp only [comment, List.mem_append] at hc
    rcases hc with (((hc | hc) | hc) | hc) | hc
    · rw [← hsplit]
      exact List.mem_append_left _ hc
    · rw [hmark c (List.mem_append_left _ hc)] at hbreak
      cases hbreak
    · rw [hguidance c hc] at hbreak
      cases hbreak
    · rw [hmark c (List.mem_append_right _ hc)] at hbreak
      cases hbreak
    · rw [← hsplit]
      exact List.mem_append_right _ (Text.mem_of_mem_trimEnd hc)
  last c hc hbreak := by
    -- the last character is one of the line that is no blank, or the blank behind the guidance
    have hblank := Text.isBlank_of_isBreak hbreak
    rw [comment, List.getLast?_append, Option.mem_def] at hc
    cases hlast : (Text.trimEnd (Text.trimStart line)).getLast? with
    | some d =>
      rw [hlast, Option.some_or, Option.some.injEq] at hc
      have hd := Text.getLast?_trimEnd (Text.trimStart line) d hlast
      rw [hc, hblank] at hd
      cases hd
    | none =>
      rw [hlast, Option.none_or, List.getLast?_append_of_ne_nil _ (by decide)] at hc
      obtain rfl : ' ' = c := by simpa using hc
      exact absurd hbreak (by decide)

/-- **Migrating a line makes no break.** -/
theorem noNewBreak_migrated (keyword line : Text) :
    NoNewBreak line (apply keyword line).migrated := by
  rcases apply_outcome keyword line with
    ⟨-, happly⟩ | ⟨⟨body, hbody⟩, ⟨guidance, hguidance, happly⟩ | ⟨-, happly⟩⟩
  · rw [happly]
    exact .refl line
  · rw [happly]
    have hline : line ≠ [] := by
      rintro rfl
      cases keyword <;> simp [dissect, scan] at hbody
    obtain ⟨called, -, hcalled⟩ := exists_of_guidance? hguidance
    exact noNewBreak_comment hline (no_break_of_guidance? hcalled)
  · rw [happly]
    have hline : (inPlace keyword line).line = inPlaceRules.foldl (passText keyword) line :=
      line_foldl_pass keyword inPlaceRules _
    rw [hline]
    exact noNewBreak_foldl_passText (fun _ h => h) keyword line

end Migration

namespace Script

open Text (NoNewBreak)

/-! ### Splitting joined lines -/

/-- Lines that a text can be split into. -/
inductive IsSplit : List (Text × Ending) → Prop
  | nil : IsSplit []
  | last {line : Text} (hline : '\n' ∉ line) (hne : line ≠ []) : IsSplit [(line, .none)]
  | lf {line : Text} {lines : List (Text × Ending)} (hline : '\n' ∉ line)
      (hlast : line.getLast? ≠ some '\r') (hlines : IsSplit lines) : IsSplit ((line, .lf) :: lines)
  | crlf {line : Text} {lines : List (Text × Ending)} (hline : '\n' ∉ line)
      (hlines : IsSplit lines) : IsSplit ((line, .crlf) :: lines)

theorem addFront_nil {c : Char} (hc : c ≠ '\n') : addFront c [] = [([c], .none)] := by
  simp [addFront, hc]

/-- Only a carriage return in front of a line feed does not go into the line. -/
theorem addFront_cons {c : Char} {line : Text} {ending : Ending} (lines : List (Text × Ending))
    (hc : c ≠ '\n') (hreturn : line = [] → ending = .lf → c ≠ '\r') :
    addFront c ((line, ending) :: lines) = (c :: line, ending) :: lines := by
  unfold addFront
  rw [if_neg hc]
  split
  · rename_i heq
    cases heq
  · rename_i rest heq
    obtain ⟨⟨rfl, rfl⟩, rfl⟩ : (line = [] ∧ ending = .lf) ∧ lines = rest := by
      simpa using heq
    rw [if_neg (hreturn rfl rfl)]
  · rename_i heq
    obtain ⟨⟨rfl, rfl⟩, rfl⟩ := by simpa using heq
    rfl

/-- One more character in front of lines. -/
theorem isSplit_addFront (c : Char) {lines : List (Text × Ending)} (h : IsSplit lines) :
    IsSplit (addFront c lines) := by
  by_cases hc : c = '\n'
  · subst hc
    exact .lf (by simp) (by simp) h
  · have hfeed : ∀ {line : Text}, '\n' ∉ line → '\n' ∉ c :: line := fun hline => by
      simp [hline, Ne.symm hc]
    cases h with
    | nil =>
      rw [addFront_nil hc]
      exact .last (hfeed (by simp)) (by simp)
    | last hline hne =>
      rw [addFront_cons [] hc (by simp)]
      exact .last (hfeed hline) (by simp)
    | @crlf line rest hline hrest =>
      rw [addFront_cons rest hc (by simp)]
      exact .crlf (hfeed hline) hrest
    | @lf line rest hline hlast hrest =>
      by_cases hreturn : line = [] ∧ c = '\r'
      · obtain ⟨rfl, rfl⟩ := hreturn
        exact .crlf (by simp) hrest
      · rw [addFront_cons rest hc fun hnil _ hr => hreturn ⟨hnil, hr⟩]
        refine .lf (hfeed hline) ?_ hrest
        cases line with
        | nil => simpa using hreturn
        | cons d line => rwa [List.getLast?_cons_cons]

theorem isSplit_split (text : Text) : IsSplit (split text) := by
  induction text with
  | nil => exact .nil
  | cons c text ih => exact isSplit_addFront c ih

/-- A text without line feeds goes in front of the first line. -/
theorem foldr_addFront {text line : Text} {ending : Ending} (lines : List (Text × Ending))
    (htext : '\n' ∉ text)
    (hreturn : line = [] → ending = .lf → text.getLast? ≠ some '\r') :
    text.foldr addFront ((line, ending) :: lines) = (text ++ line, ending) :: lines := by
  induction text with
  | nil => rfl
  | cons c text ih =>
    rw [List.mem_cons, not_or] at htext
    have htail : line = [] → ending = .lf → text.getLast? ≠ some '\r' := by
      intro hline hending hlast
      refine hreturn hline hending ?_
      rw [List.getLast?_cons, hlast]
      rfl
    rw [List.foldr_cons, ih htext.2 htail, addFront_cons lines (Ne.symm htext.1)]
    · rfl
    · intro hnil hending
      obtain ⟨rfl, hline⟩ := List.append_eq_nil_iff.1 hnil
      simpa using hreturn hline hending

/-- **Lines that a text can be split into are read back from the text they make.** -/
theorem split_join {lines : List (Text × Ending)} (h : IsSplit lines) : split (join lines) = lines := by
  have hcons : ∀ (line : Text) (ending : Ending) (rest : List (Text × Ending)),
      split (join ((line, ending) :: rest)) =
        line.foldr addFront (ending.text.foldr addFront (split (join rest))) := by
    intro line ending rest
    simp [split, join]
  induction h with
  | nil => rfl
  | @last line hline hne =>
    obtain ⟨front, c, rfl⟩ := (List.eq_nil_or_concat' line).resolve_left hne
    have hfront : '\n' ∉ front ∧ c ≠ '\n' := by
      simpa [not_or, eq_comm] using hline
    rw [hcons, List.foldr_append]
    change front.foldr addFront (addFront c []) = _
    rw [addFront_nil hfront.2, foldr_addFront [] hfront.1 (by simp)]
  | @lf line rest hline hlast _ ih =>
    rw [hcons, ih]
    change line.foldr addFront (([], .lf) :: rest) = _
    rw [foldr_addFront rest hline fun _ _ => hlast, List.append_nil]
  | @crlf line rest hline _ ih =>
    rw [hcons, ih]
    change line.foldr addFront (([], .crlf) :: rest) = _
    rw [foldr_addFront rest hline (by simp), List.append_nil]

/-- Lines may change as long as no break is new. -/
theorem IsSplit.map {change : Text → Text} (hchange : ∀ line, NoNewBreak line (change line))
    {lines : List (Text × Ending)} (h : IsSplit lines) :
    IsSplit (lines.map fun pair => (change pair.1, pair.2)) := by
  have hfeed : ∀ {line : Text}, '\n' ∉ line → '\n' ∉ change line := fun {line} hline hmem =>
    hline ((hchange line).mem '\n' hmem (by decide))
  induction h with
  | nil => exact .nil
  | @last line hline hne => exact .last (hfeed hline) fun hnil => hne ((hchange line).nil_iff.1 hnil)
  | @lf line rest hline hlast _ ih =>
    exact .lf (hfeed hline) (fun hreturn => hlast ((hchange line).last '\r' hreturn (by decide))) ih
  | @crlf line rest hline _ ih => exact .crlf (hfeed hline) ih

/-! ### The lines of a migrated script -/

/-- The reports on lines are the reports on each of them, with its number. -/
theorem processFrom_eq (settings : Settings) (number : Nat) (lines : List (Text × Ending)) :
    processFrom settings number lines =
      (lines.zipIdx number).map fun pair => processLine settings pair.2 pair.1.1 pair.1.2 := by
  induction lines generalizing number with
  | nil => rfl
  | cons pair lines ih => rw [processFrom, ih, List.zipIdx_cons, List.map_cons]

/-- What the reports on lines say without their numbers. -/
theorem map_processFrom {α : Type} (settings : Settings) {view : LineReport → α}
    {expected : Text × Ending → α}
    (h : ∀ number pair, view (processLine settings number pair.1 pair.2) = expected pair)
    (number : Nat) (lines : List (Text × Ending)) :
    (processFrom settings number lines).map view = lines.map expected := by
  conv_rhs => rw [← List.zipIdx_map_fst number lines]
  rw [processFrom_eq, List.map_map, List.map_map]
  exact List.map_congr_left fun pair _ => h pair.2 pair.1

theorem text_process (settings : Settings) (text : Text) :
    (process settings text).text =
      join ((split text).map fun pair => ((Migration.apply settings.keyword pair.1).migrated, pair.2)) :=
  congrArg join (map_processFrom settings (fun _ _ => rfl) 1 (split text))

/-- **A migrated script has the migrated lines with the endings they had.** -/
theorem split_text (settings : Settings) (text : Text) :
    split (process settings text).text =
      (split text).map fun pair => ((Migration.apply settings.keyword pair.1).migrated, pair.2) := by
  rw [text_process]
  exact split_join ((isSplit_split text).map (Migration.noNewBreak_migrated settings.keyword))

end Script
end ScriptUpgrade
