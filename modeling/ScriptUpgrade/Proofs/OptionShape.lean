/-
# The shape of legacy options

What `outputType?`, `zone?` and `selector?` find at the start of a text, said without the recogniser:
an option is its name, a separator and a value, and what it becomes is made of the same parts. The
`_shape` theorems read a hit as these parts, and the `_hit` theorems go the other way, so that a hit
can be moved to another text that starts with the same characters.

| option | matched | becomes |
| --- | --- | --- |
| output type | `flag ++ mark ++ format` | `flag ++ mark ++ json` |
| zone | `--zone ++ mark ++ name` | `--zone= ++` the name in lower case |
| selector | `--selector ++ lead ++ mark ++ taken` | the value in `taken` |
-/

import Mathlib.Data.List.TakeWhile
import Mathlib.Tactic.Common
import ScriptUpgrade.Migration.Pattern
import ScriptUpgrade.Shell.Quote

namespace ScriptUpgrade
namespace Text

/-- Reading `lead` from a text that starts with it succeeds. -/
theorem after?_append (lead rest : Text) : after? lead (lead ++ rest) = some rest := by
  induction lead with
  | nil => rfl
  | cons a lead ih => simp [after?, ih]

theorem startsWith_append (lead rest : Text) : startsWith lead (lead ++ rest) = true := by
  simp [startsWith, after?_append]

/-- A text that starts with `lead` is `lead` and a rest. -/
theorem exists_append_of_startsWith {lead text : Text} (h : startsWith lead text = true) :
    ∃ rest, text = lead ++ rest := by
  obtain ⟨rest, hrest⟩ := Option.isSome_iff_exists.1 h
  exact ⟨rest, (append_of_after? hrest).symm⟩

/-- Two ways to cut one text: the cut of the left side comes no earlier than that of the right side,
or it falls into the front part of the right side. -/
theorem append_eq_append_cases {a b c d : Text} (h : a ++ b = c ++ d) :
    (∃ e, a = c ++ e ∧ d = e ++ b) ∨ ∃ e, e ≠ [] ∧ c = a ++ e ∧ b = e ++ d := by
  rcases List.append_eq_append_iff.1 h with ⟨e, rfl, rfl⟩ | ⟨e, rfl, rfl⟩
  · cases e with
    | nil => exact Or.inl ⟨[], by simp, by simp⟩
    | cons x e => exact Or.inr ⟨x :: e, by simp, rfl, rfl⟩
  · exact Or.inl ⟨e, rfl, rfl⟩

/-- The first character of a text, if there is one, fails `p`. -/
def Stops (p : Char → Bool) (text : Text) : Prop :=
  ∀ c ∈ text.head?, p c = false

theorem stops_nil (p : Char → Bool) : Stops p [] := by
  intro c hc
  simp at hc

theorem stops_cons {p : Char → Bool} {c : Char} {text : Text} :
    Stops p (c :: text) ↔ p c = false := by
  simp [Stops]

theorem takeWhile_append_stops {p : Char → Bool} {front rest : Text} (hfront : ∀ c ∈ front, p c = true)
    (hrest : Stops p rest) : (front ++ rest).takeWhile p = front := by
  rw [List.takeWhile_append_of_pos hfront]
  cases rest with
  | nil => simp
  | cons c rest => simp [stops_cons.1 hrest]

theorem dropWhile_append_stops {p : Char → Bool} {front rest : Text} (hfront : ∀ c ∈ front, p c = true)
    (hrest : Stops p rest) : (front ++ rest).dropWhile p = rest := by
  rw [List.dropWhile_append_of_pos hfront]
  cases rest with
  | nil => simp
  | cons c rest => simp [stops_cons.1 hrest]

theorem stops_dropWhile (p : Char → Bool) (text : Text) : Stops p (text.dropWhile p) := by
  intro c hc
  have := List.head?_dropWhile_not (p := p) text
  rw [Option.mem_def.1 hc] at this
  simpa using this

end Text

namespace Migration

open Text (isGap)

/-- A separator between an option and its value: one `=`, or at least one gap. -/
def IsSeparator (mark : Text) : Prop :=
  mark = ['='] ∨ (mark ≠ [] ∧ ∀ c ∈ mark, isGap c = true)

theorem separator?_shape {text mark rest : Text} (h : separator? text = some (mark, rest)) :
    text = mark ++ rest ∧ IsSeparator mark := by
  unfold separator? at h
  split at h
  · simp only [Option.some.injEq, Prod.mk.injEq] at h
    obtain ⟨rfl, rfl⟩ := h
    exact ⟨rfl, Or.inl rfl⟩
  · dsimp only at h
    split at h
    · simp at h
    · rename_i hgaps
      simp only [Option.some.injEq, Prod.mk.injEq] at h
      obtain ⟨rfl, rfl⟩ := h
      exact ⟨(List.takeWhile_append_dropWhile).symm, Or.inr
        ⟨by simpa [List.isEmpty_iff] using hgaps, fun c hc => List.mem_takeWhile_imp hc⟩⟩

/-- A separator in front of something that is no gap is read as such. -/
theorem separator?_append {mark rest : Text} (hmark : IsSeparator mark)
    (hrest : Text.Stops isGap rest) : separator? (mark ++ rest) = some (mark, rest) := by
  rcases hmark with rfl | ⟨hne, hgaps⟩
  · rfl
  · obtain ⟨g, mark', rfl⟩ := List.exists_cons_of_ne_nil hne
    have hg : g ≠ '=' := by
      rintro rfl
      exact absurd (hgaps '=' (by simp)) (by decide)
    unfold separator?
    split
    · rename_i heq
      exact absurd (List.cons.inj heq).1 hg
    · dsimp only
      rw [Text.takeWhile_append_stops hgaps hrest, Text.dropWhile_append_stops hgaps hrest]
      simp

/-! ### Output types -/

/-- The names of the output option. -/
def outputFlags : List Text :=
  ["--output-type".toList, "-o".toList]

/-- A removed format: three characters that are found wherever they stand. -/
def IsFormat (format : Text) : Prop :=
  removedFormat? format = some format

theorem removedFormat?_eq_some {text format : Text} :
    removedFormat? text = some format ↔ IsFormat format ∧ ∃ rest, text = format ++ rest := by
  constructor
  · intro h
    unfold removedFormat? at h
    split at h
    · rename_i c s v rest
      split at h
      · rename_i hc
        obtain rfl := Option.some.inj h
        exact ⟨by simp [IsFormat, removedFormat?, hc], rest, rfl⟩
      · simp at h
    · simp at h
  · rintro ⟨hformat, rest, rfl⟩
    unfold IsFormat removedFormat? at hformat
    split at hformat
    · rename_i c s v rest'
      split at hformat
      · rename_i hc
        obtain rfl : [] = rest' := by simpa using hformat
        simp [removedFormat?, hc]
      · simp at hformat
    · simp at hformat

/-- The first character of a removed format is one of four letters, the second some form of `s`. -/
theorem IsFormat.exists_cons {format : Text} (h : IsFormat format) :
    ∃ c s v, format = [c, s, v] ∧ (c = 'c' ∨ c = 'C' ∨ c = 't' ∨ c = 'T') ∧
      (s = 's' ∨ s = 'S' ∨ s = 'ſ') ∧ (v = 'v' ∨ v = 'V') := by
  unfold IsFormat removedFormat? at h
  split at h
  · rename_i c s v rest
    split at h
    · rename_i hc
      simp only [Bool.and_eq_true, Bool.or_eq_true, beq_iff_eq] at hc
      exact ⟨c, s, v, (Option.some.inj h).symm, by tauto, by tauto, by tauto⟩
    · simp at h
  · simp at h

theorem outputFlag?_eq_some {text flag : Text} (h : outputFlag? text = some flag) :
    flag ∈ outputFlags ∧ ∃ rest, text = flag ++ rest := by
  unfold outputFlag? at h
  have hstarts : Text.startsWith flag text = true := List.find?_some (p := (Text.startsWith · text)) h
  exact ⟨List.mem_of_find?_eq_some h, Text.exists_append_of_startsWith hstarts⟩

/-- No name of the output option starts another one. -/
theorem outputFlag?_append {flag : Text} (rest : Text) (h : flag ∈ outputFlags) :
    outputFlag? (flag ++ rest) = some flag := by
  simp only [outputFlags, List.mem_cons, List.not_mem_nil, or_false] at h
  rcases h with rfl | rfl
  · exact List.find?_cons_of_pos (Text.startsWith_append _ _)
  · have hlong : Text.startsWith "--output-type".toList ("-o".toList ++ rest) = false := by
      simp [Text.startsWith, Text.after?]
    unfold outputFlag?
    rw [List.find?_cons_of_neg (by rw [hlong]; exact Bool.false_ne_true)]
    exact List.find?_cons_of_pos (Text.startsWith_append _ _)

/-- **An output option is a flag, a separator and a removed format**, and becomes the same flag and
separator with `json`. -/
theorem outputType?_shape {text : Text} {hit : Hit} (h : outputType? text = some hit) :
    ∃ flag mark format rest, flag ∈ outputFlags ∧ IsSeparator mark ∧ IsFormat format ∧
      text = flag ++ mark ++ format ++ rest ∧
      hit = ⟨flag ++ mark ++ format, some (flag ++ mark ++ "json".toList)⟩ := by
  simp only [outputType?, bind, Option.bind_eq_some_iff, pure, Option.some.injEq] at h
  obtain ⟨flag, hflag, ⟨mark, rest⟩, hmark, format, hformat, rfl⟩ := h
  obtain ⟨hmem, tail, rfl⟩ := outputFlag?_eq_some hflag
  obtain ⟨hsplit, hsep⟩ := separator?_shape hmark
  obtain ⟨hfmt, rest', rfl⟩ := removedFormat?_eq_some.1 hformat
  rw [List.drop_left] at hsplit
  exact ⟨flag, mark, format, rest', hmem, hsep, hfmt, by simp [hsplit], rfl⟩

/-- A text of that shape is found as an output option. -/
theorem outputType?_hit {flag mark format : Text} (rest : Text) (hflag : flag ∈ outputFlags)
    (hmark : IsSeparator mark) (hformat : IsFormat format) :
    outputType? (flag ++ mark ++ format ++ rest) =
      some ⟨flag ++ mark ++ format, some (flag ++ mark ++ "json".toList)⟩ := by
  have hstops : Text.Stops isGap (format ++ rest) := by
    obtain ⟨c, s, v, rfl, hc, -, -⟩ := hformat.exists_cons
    rw [List.cons_append, Text.stops_cons]
    rcases hc with rfl | rfl | rfl | rfl <;> decide
  have hsep := separator?_append hmark hstops
  have hfmt : removedFormat? (format ++ rest) = some format :=
    removedFormat?_eq_some.2 ⟨hformat, rest, rfl⟩
  unfold outputType?
  rw [List.append_assoc, List.append_assoc, outputFlag?_append _ hflag]
  simp only [Option.bind_eq_bind, Option.bind_some, List.drop_left, hsep, hfmt, pure]

/-! ### Zones -/

/-- A separator between `--zone` and its value: at least one gap, or a `=` with gaps around it. -/
def IsZoneMark (mark : Text) : Prop :=
  (mark ≠ [] ∧ ∀ c ∈ mark, isGap c = true) ∨
    ∃ left right, mark = left ++ '=' :: right ∧ (∀ c ∈ left, isGap c = true) ∧
      ∀ c ∈ right, isGap c = true

/-- A zone name: letters, digits and dashes of ASCII, the first not a dash. -/
def IsZoneName (name : Text) : Prop :=
  ∃ c rest, name = c :: rest ∧ c ≠ '-' ∧ ∀ d ∈ name, isZoneChar d = true

/-- A zone mark without gaps is an equals sign. -/
theorem IsZoneMark.eq_of_no_gap {mark : Text} (h : IsZoneMark mark)
    (hgap : ∀ c ∈ mark, isGap c = false) : mark = ['='] := by
  have hempty : ∀ text : Text, (∀ c ∈ text, c ∈ mark) → (∀ c ∈ text, isGap c = true) →
      text = [] := by
    intro text hsub htext
    refine List.eq_nil_iff_forall_not_mem.2 fun c hc => ?_
    have := hgap c (hsub c hc)
    rw [htext c hc] at this
    cases this
  rcases h with ⟨hne, hgaps⟩ | ⟨left, right, rfl, hleft, hright⟩
  · exact absurd (hempty mark (fun _ h => h) hgaps) hne
  · rw [hempty left (fun c hc => List.mem_append_left _ hc) hleft,
      hempty right (fun c hc => List.mem_append_right _ (List.mem_cons_of_mem _ hc)) hright,
      List.nil_append]

theorem zoneSeparator?_shape {text mark rest : Text} (h : zoneSeparator? text = some (mark, rest)) :
    text = mark ++ rest ∧ IsZoneMark mark := by
  have htext := List.takeWhile_append_dropWhile (p := isGap) (l := text)
  have hgaps : ∀ c ∈ text.takeWhile isGap, isGap c = true := fun c hc => List.mem_takeWhile_imp hc
  unfold zoneSeparator? at h
  dsimp only at h
  split at h
  · rename_i tail heq
    simp only [Option.some.injEq, Prod.mk.injEq] at h
    obtain ⟨rfl, rfl⟩ := h
    refine ⟨?_, Or.inr ⟨_, _, rfl, hgaps, fun c hc => List.mem_takeWhile_imp hc⟩⟩
    rw [heq] at htext
    rw [List.append_assoc, List.cons_append, List.takeWhile_append_dropWhile, htext]
  · split at h
    · simp at h
    · rename_i hne
      simp only [Option.some.injEq, Prod.mk.injEq] at h
      obtain ⟨rfl, rfl⟩ := h
      exact ⟨htext.symm, Or.inl ⟨by simpa [List.isEmpty_iff] using hne, hgaps⟩⟩

theorem zoneSeparator?_append {mark rest : Text} (hmark : IsZoneMark mark)
    (hgap : Text.Stops isGap rest) (heq : Text.Stops (· == '=') rest) :
    zoneSeparator? (mark ++ rest) = some (mark, rest) := by
  unfold zoneSeparator?
  rcases hmark with ⟨hne, hgaps⟩ | ⟨left, right, rfl, hleft, hright⟩
  · rw [Text.takeWhile_append_stops hgaps hgap, Text.dropWhile_append_stops hgaps hgap]
    dsimp only
    split
    · rename_i tail
      exact absurd (Text.stops_cons.1 heq) (by decide)
    · simp [List.isEmpty_iff, hne]
  · have hstop : Text.Stops isGap ('=' :: (right ++ rest)) := Text.stops_cons.2 (by decide)
    rw [List.append_assoc, List.cons_append, Text.takeWhile_append_stops hleft hstop,
      Text.dropWhile_append_stops hleft hstop]
    simp only [Text.takeWhile_append_stops hright hgap, Text.dropWhile_append_stops hright hgap]

theorem zoneName?_eq_some {text name : Text} :
    zoneName? text = some name ↔
      IsZoneName name ∧ ∃ rest, text = name ++ rest ∧ Text.Stops isZoneChar rest := by
  constructor
  · intro h
    have htext := List.takeWhile_append_dropWhile (p := isZoneChar) (l := text)
    unfold zoneName? at h
    split at h
    · simp at h
    · rename_i c tail heq
      split at h
      · simp at h
      · rename_i hc
        obtain rfl := Option.some.inj h
        rw [heq] at htext
        refine ⟨⟨c, tail, rfl, by simpa using hc, fun d hd => ?_⟩, _, htext.symm,
          Text.stops_dropWhile _ _⟩
        rw [← heq] at hd
        exact List.mem_takeWhile_imp hd
  · rintro ⟨⟨c, tail, rfl, hc, hall⟩, rest, rfl, hrest⟩
    unfold zoneName?
    rw [Text.takeWhile_append_stops hall hrest]
    simp [hc]

/-- **A zone option is `--zone`, a separator and a name.** It becomes `--zone=` and the name in lower
case, unless it reads like that already. -/
theorem zone?_shape {text : Text} {hit : Hit} (h : zone? text = some hit) :
    ∃ mark name rest, IsZoneMark mark ∧ IsZoneName name ∧ Text.Stops isZoneChar rest ∧
      text = "--zone".toList ++ mark ++ name ++ rest ∧
      hit = ⟨"--zone".toList ++ mark ++ name,
        if "--zone=".toList ++ name.map Char.toLower = "--zone".toList ++ mark ++ name then none
        else some ("--zone=".toList ++ name.map Char.toLower)⟩ := by
  simp only [zone?, bind, Option.bind_eq_some_iff, pure, Option.some.injEq] at h
  obtain ⟨tail, htail, ⟨mark, rest⟩, hmark, name, hname, rfl⟩ := h
  obtain ⟨rfl, hsep⟩ := zoneSeparator?_shape hmark
  obtain ⟨hzone, rest', rfl, hstop⟩ := zoneName?_eq_some.1 hname
  refine ⟨mark, name, rest', hsep, hzone, hstop, ?_, rfl⟩
  rw [← Text.append_of_after? htail]
  simp only [List.append_assoc]

/-- A text of that shape is found as a zone option. -/
theorem zone?_hit {mark name rest : Text} (hmark : IsZoneMark mark) (hname : IsZoneName name)
    (hrest : Text.Stops isZoneChar rest) :
    zone? ("--zone".toList ++ mark ++ name ++ rest) =
      some ⟨"--zone".toList ++ mark ++ name,
        if "--zone=".toList ++ name.map Char.toLower = "--zone".toList ++ mark ++ name then none
        else some ("--zone=".toList ++ name.map Char.toLower)⟩ := by
  have hfirst : Text.Stops isGap (name ++ rest) ∧ Text.Stops (· == '=') (name ++ rest) := by
    obtain ⟨c, tail, rfl, hc, hall⟩ := hname
    have hzone := hall c (by simp)
    rw [List.cons_append, Text.stops_cons, Text.stops_cons]
    constructor
    · by_contra hgap
      simp only [isGap, Bool.not_eq_false, Bool.or_eq_true, beq_iff_eq] at hgap
      rcases hgap with rfl | rfl <;> exact absurd hzone (by decide)
    · by_contra heq
      simp only [Bool.not_eq_false, beq_iff_eq] at heq
      subst heq
      exact absurd hzone (by decide)
  have hsep := zoneSeparator?_append hmark hfirst.1 hfirst.2
  have hnm : zoneName? (name ++ rest) = some name := zoneName?_eq_some.2 ⟨hname, rest, rfl, hrest⟩
  unfold zone?
  rw [List.append_assoc, List.append_assoc, Text.after?_append]
  simp only [Option.bind_eq_bind, Option.bind_some, hsep, hnm, pure]

/-! ### Selectors -/

/-- A character of the name of a selector or of the separators behind it. -/
def isSelectorChar (c : Char) : Bool :=
  "--selector".toList.contains c || c == '=' || isGap c

theorem IsSeparator.isSelectorChar {mark : Text} (h : IsSeparator mark) :
    ∀ c ∈ mark, isSelectorChar c = true := by
  rcases h with rfl | ⟨-, hgaps⟩
  · decide
  · intro c hc
    simp [Migration.isSelectorChar, hgaps c hc]

theorem repeatedSelectors_shape (text : Text) :
    repeatedSelectors text <+: text ∧ ∀ c ∈ repeatedSelectors text, isSelectorChar c = true := by
  fun_induction repeatedSelectors text with
  | case1 text hsep => exact ⟨List.nil_prefix, by simp⟩
  | case2 text mark rest hsep hsel => exact ⟨List.nil_prefix, by simp⟩
  | case3 text mark rest hsep rest' hsel ih =>
    obtain ⟨hsplit, hmark⟩ := separator?_shape hsep
    constructor
    · rw [hsplit, ← Text.append_of_after? hsel, List.append_assoc]
      exact (List.prefix_append_right_inj _).2 ((List.prefix_append_right_inj _).2 ih.1)
    · intro c hc
      simp only [List.mem_append] at hc
      rcases hc with (hc | hc) | hc
      · exact hmark.isSelectorChar c hc
      · unfold isSelectorChar
        rw [List.contains_iff_mem.2 hc, Bool.true_or, Bool.true_or]
      · exact ih.2 c hc

/-- A label is dropped from the front of a text, or nothing is. -/
def DropsLabel (text rest : Text) : Prop :=
  rest = text ∨ ∃ label ∈ selectorLabels, text = label ++ rest

theorem afterLabel?_eq_some {text rest : Text} (h : afterLabel? text = some rest) :
    DropsLabel text rest := by
  obtain ⟨label, hmem, hafter⟩ := List.exists_of_findSome?_eq_some h
  exact Or.inr ⟨label, hmem, (Text.append_of_after? hafter).symm⟩

/-- The characters that a selector value takes up, what remains of them, and the text behind them: a
quoted value keeps its marks, and a bare value starts with no dash. -/
inductive IsSelectorValue : (taken value rest : Text) → Prop
  | quoted {mark : Char} {inside kept : Text} (rest : Text) (hmark : Quote.isMark mark = true)
      (hinside : mark ∉ inside) (hkept : DropsLabel inside kept) :
      IsSelectorValue (mark :: inside ++ [mark]) (mark :: kept ++ [mark]) rest
  | bare {taken value rest : Text} (htaken : ∀ c ∈ taken, isBare c = true)
      (hrest : Text.Stops isBare rest) (hvalue : isBareValue value = true)
      (hkept : DropsLabel taken value) : IsSelectorValue taken value rest

theorem cutAt?_eq_some {mark : Char} {text front back : Text}
    (h : Text.cutAt? mark text = some (front, back)) :
    text = front ++ mark :: back ∧ mark ∉ front := by
  induction text generalizing front with
  | nil => simp [Text.cutAt?] at h
  | cons c text ih =>
    by_cases hc : c = mark
    · simp only [Text.cutAt?, hc, if_true, Option.some.injEq, Prod.mk.injEq] at h
      obtain ⟨rfl, rfl⟩ := h
      simp [hc]
    · simp only [Text.cutAt?, hc, if_false, Option.map_eq_some_iff] at h
      obtain ⟨⟨front', back'⟩, hcut, heq⟩ := h
      simp only [Prod.mk.injEq] at heq
      obtain ⟨rfl, rfl⟩ := heq
      obtain ⟨rfl, hmem⟩ := ih hcut
      exact ⟨rfl, by simp [hmem, Ne.symm hc]⟩

theorem quotedValue?_shape {mark : Char} {text taken value : Text} (hmark : Quote.isMark mark = true)
    (h : quotedValue? mark text = some (taken, value)) :
    ∃ rest, mark :: text = taken ++ rest ∧ IsSelectorValue taken value rest := by
  unfold quotedValue? at h
  split at h
  · rename_i inside back hcut
    simp only [Option.some.injEq, Prod.mk.injEq] at h
    obtain ⟨rfl, rfl⟩ := h
    obtain ⟨rfl, hinside⟩ := cutAt?_eq_some hcut
    refine ⟨back, by simp, .quoted back hmark hinside ?_⟩
    cases hlabel : afterLabel? inside with
    | none => exact Or.inl rfl
    | some kept => exact afterLabel?_eq_some hlabel
  · simp at h

theorem bareValue?_shape {text taken value : Text} (h : bareValue? text = some (taken, value)) :
    ∃ rest, text = taken ++ rest ∧ IsSelectorValue taken value rest := by
  have htext := List.takeWhile_append_dropWhile (p := isBare) (l := text)
  have hbare : ∀ c ∈ text.takeWhile isBare, isBare c = true := fun c hc => List.mem_takeWhile_imp hc
  unfold bareValue? at h
  dsimp only at h
  split at h
  · rename_i value' hlabel
    simp only [Option.some.injEq, Prod.mk.injEq] at h
    obtain ⟨rfl, rfl⟩ := h
    obtain ⟨hafter, hvalue⟩ := Option.filter_eq_some_iff.1 hlabel
    exact ⟨_, htext.symm, .bare hbare (Text.stops_dropWhile _ _) hvalue (afterLabel?_eq_some hafter)⟩
  · split at h
    · rename_i hvalue
      simp only [Option.some.injEq, Prod.mk.injEq] at h
      obtain ⟨rfl, rfl⟩ := h
      exact ⟨_, htext.symm, .bare hbare (Text.stops_dropWhile _ _) hvalue (Or.inl rfl)⟩
    · simp at h

theorem selectorValue?_shape {text taken value : Text}
    (h : selectorValue? text = some (taken, value)) :
    ∃ rest, text = taken ++ rest ∧ IsSelectorValue taken value rest := by
  unfold selectorValue? at h
  split at h
  · exact quotedValue?_shape (by decide) h
  · exact quotedValue?_shape (by decide) h
  · exact bareValue?_shape h

/-- **A selector is `--selector`, perhaps repeated, a separator and a value**, and becomes what
remains of the value. -/
theorem selector?_shape {text : Text} {hit : Hit} (h : selector? text = some hit) :
    ∃ lead taken value rest, (∀ c ∈ lead, isSelectorChar c = true) ∧
      IsSelectorValue taken value rest ∧
      text = "--selector".toList ++ lead ++ taken ++ rest ∧
      hit = ⟨"--selector".toList ++ lead ++ taken, some value⟩ := by
  simp only [selector?, bind, Option.bind_eq_some_iff, pure, Option.some.injEq] at h
  obtain ⟨tail, htail, ⟨mark, rest⟩, hmark, ⟨taken, value⟩, hvalue, rfl⟩ := h
  obtain ⟨hstart, hlead⟩ := repeatedSelectors_shape tail
  obtain ⟨hsplit, hsep⟩ := separator?_shape hmark
  obtain ⟨rest', rfl, hshape⟩ := selectorValue?_shape hvalue
  refine ⟨repeatedSelectors tail ++ mark, taken, value, rest', ?_, hshape, ?_, by simp⟩
  · intro c hc
    rcases List.mem_append.1 hc with hc | hc
    · exact hlead c hc
    · exact hsep.isSelectorChar c hc
  · have htake := List.prefix_iff_eq_take.1 hstart
    have hdrop := List.take_append_drop (repeatedSelectors tail).length tail
    rw [← htake, hsplit] at hdrop
    rw [← Text.append_of_after? htail]
    conv_lhs => rw [← hdrop]
    simp only [List.append_assoc]

end Migration
end ScriptUpgrade
