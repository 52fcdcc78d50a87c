/-
# Legacy options

What the options that v1 changed look like at the start of a text, and what each becomes. All
patterns are read from left to right without going back, with one exception: the label of a
selector value is kept where what follows it cannot be a value.

| option | form | becomes |
| --- | --- | --- |
| output type | `--output-type` or `-o`, `=` or gaps, `csv` or `tsv` in any case | the same with `json` |
| selector | `--selector`, `=` or gaps, a value in quotes or bare, with or without a label | the value without its label |
| zone | `--zone`, `=` with or without gaps, or gaps, and a zone name | `--zone=` and the name in lower case |

A `--selector` that another `--selector` follows has no value and is read together with it.
-/

import ScriptUpgrade.Text.Blank
import ScriptUpgrade.Text.Word

namespace ScriptUpgrade
namespace Migration

/-- An option found at the start of a text: the characters it takes up, and what they become;
`none` if they have the wanted form already. -/
structure Hit where
  matched : Text
  replacement : Option Text
deriving DecidableEq, Repr

/-- What separates an option from its value: one `=`, or as many gaps as there are. Gives the
separator and the text after it. -/
def separator? : Text → Option (Text × Text)
  | '=' :: text => some (['='], text)
  | text =>
    let gaps := text.takeWhile Text.isGap
    if gaps.isEmpty then none else some (gaps, text.dropWhile Text.isGap)

theorem length_separator? {text mark rest : Text} (h : separator? text = some (mark, rest)) :
    rest.length ≤ text.length := by
  unfold separator? at h
  split at h
  · simp only [Option.some.injEq, Prod.mk.injEq] at h
    rw [← h.2]
    exact Nat.le_succ _
  · dsimp only at h
    split at h
    · simp at h
    · simp only [Option.some.injEq, Prod.mk.injEq] at h
      rw [← h.2]
      exact (List.dropWhile_suffix _).length_le

/-- The removed output formats `csv` and `tsv` in any case; the long form `ſ` of `s` counts as its
lower case. -/
def removedFormat? : Text → Option Text
  | first :: s :: v :: _ =>
    if (first == 'c' || first == 'C' || first == 't' || first == 'T') &&
        (s == 's' || s == 'S' || s == 'ſ') && (v == 'v' || v == 'V') then some [first, s, v]
    else none
  | _ => none

/-- The name of the output option at the start of a text. -/
def outputFlag? (text : Text) : Option Text :=
  ["--output-type".toList, "-o".toList].find? (Text.startsWith · text)

/-- An output option with a removed format becomes the same option with `json`. -/
def outputType? (text : Text) : Option Hit := do
  let flag ← outputFlag? text
  let (mark, rest) ← separator? (text.drop flag.length)
  let format ← removedFormat? rest
  return ⟨flag ++ mark ++ format, some (flag ++ mark ++ "json".toList)⟩

/-- The longest run of separators each followed by another `--selector`. -/
def repeatedSelectors (text : Text) : Text :=
  match hsep : separator? text with
  | none => []
  | some (mark, rest) =>
    match hsel : Text.after? "--selector".toList rest with
    | none => []
    | some rest' => mark ++ "--selector".toList ++ repeatedSelectors rest'
termination_by text.length
decreasing_by
  have h₁ := length_separator? hsep
  have h₂ := congrArg List.length (Text.append_of_after? hsel)
  simp only [List.length_append] at h₂
  have h₃ : ("--selector".toList).length = 10 := by decide
  omega

/-- The labels that may stand before the value of a selector. -/
def selectorLabels : List Text :=
  ["name=".toList, "id=".toList, "tag=".toList]

/-- The text after a selector label, if it starts with one. -/
def afterLabel? (text : Text) : Option Text :=
  selectorLabels.findSome? (Text.after? · text)

/-- A character of a bare selector value. -/
def isBare (c : Char) : Bool :=
  !Text.isGap c && c != '"' && c != '\''

/-- Whether a stretch of bare characters is a value: it has a first character and that is no dash. -/
def isBareValue (text : Text) : Bool :=
  match text with
  | [] => false
  | c :: _ => c != '-'

/-- A selector value in quotes, up to the next `mark`: the characters it takes up, and the value in
the same quotes without a label. -/
def quotedValue? (mark : Char) (text : Text) : Option (Text × Text) :=
  match Text.cutAt? mark text with
  | some (inside, _) => some (mark :: inside ++ [mark], mark :: (afterLabel? inside).getD inside ++ [mark])
  | none => none

/-- A bare selector value: the characters it takes up, and the value. A label is dropped if a value
follows it, and is part of the value otherwise. -/
def bareValue? (text : Text) : Option (Text × Text) :=
  let word := text.takeWhile isBare
  match (afterLabel? word).filter isBareValue with
  | some value => some (word, value)
  | none => if isBareValue word then some (word, word) else none

/-- The value of a selector: the characters it takes up, and what remains of them. -/
def selectorValue? : Text → Option (Text × Text)
  | '"' :: text => quotedValue? '"' text
  | '\'' :: text => quotedValue? '\'' text
  | text => bareValue? text

/-- A selector becomes its value. -/
def selector? (text : Text) : Option Hit := do
  let rest ← Text.after? "--selector".toList text
  let lead := repeatedSelectors rest
  let (mark, rest') ← separator? (rest.drop lead.length)
  let (taken, value) ← selectorValue? rest'
  return ⟨"--selector".toList ++ lead ++ mark ++ taken, some value⟩

/-- What separates `--zone` from its value: a `=` with gaps around it, or gaps. -/
def zoneSeparator? (text : Text) : Option (Text × Text) :=
  let gaps := text.takeWhile Text.isGap
  match text.dropWhile Text.isGap with
  | '=' :: rest => some (gaps ++ '=' :: rest.takeWhile Text.isGap, rest.dropWhile Text.isGap)
  | rest => if gaps.isEmpty then none else some (gaps, rest)

/-- A character of a zone name after its first one. -/
def isZoneChar (c : Char) : Bool :=
  Text.isAsciiAlnum c || c == '-'

/-- A zone name: letters, digits and dashes of ASCII, the first not a dash. -/
def zoneName? (text : Text) : Option Text :=
  match text.takeWhile isZoneChar with
  | [] => none
  | c :: name => if c == '-' then none else some (c :: name)

/-- A zone option becomes `--zone=` and the name in lower case. -/
def zone? (text : Text) : Option Hit := do
  let rest ← Text.after? "--zone".toList text
  let (mark, rest') ← zoneSeparator? rest
  let name ← zoneName? rest'
  let matched := "--zone".toList ++ mark ++ name
  let canonical := "--zone=".toList ++ name.map Char.toLower
  return ⟨matched, if canonical = matched then none else some canonical⟩

/-- Whether a word with a leading dash is an option: one or two dashes, a letter or digit of ASCII,
then word characters and dashes, and then nothing or `=` and anything. -/
def isOptionWord (word : Text) : Bool :=
  match (Text.after? "--".toList word).or (Text.after? "-".toList word) with
  | some (c :: name) =>
    Text.isAsciiAlnum c &&
      match name.dropWhile fun c => Text.isWord c || c == '-' with
      | [] => true
      | c :: _ => c == '='
  | _ => false

/-- The command position of a call body: after gaps, and after options that each have gaps before
them, a word that does not start with a dash. Gives the text before it, the word and the text
after it. -/
def commandWord? (body : Text) : Option (Text × Text × Text) :=
  let gaps := body.takeWhile Text.isGap
  let word := (body.dropWhile Text.isGap).takeWhile (!Text.isGap ·)
  let rest := (body.dropWhile Text.isGap).dropWhile (!Text.isGap ·)
  if gaps = [] ∨ word = [] then none
  else if word.head? == some '-' then
    if isOptionWord word then
      (commandWord? rest).map fun (front, command, back) => (gaps ++ word ++ front, command, back)
    else none
  else some (gaps, word, rest)
termination_by body.length
decreasing_by
  rename_i hne _ _
  have hgaps : 0 < (body.takeWhile Text.isGap).length :=
    List.length_pos_iff.2 fun h => hne (Or.inl h)
  have hbody := congrArg List.length (List.takeWhile_append_dropWhile (p := Text.isGap) (l := body))
  have hrest := (List.dropWhile_suffix (l := body.dropWhile Text.isGap) (!Text.isGap ·)).length_le
  rw [List.length_append] at hbody
  omega

end Migration
end ScriptUpgrade
