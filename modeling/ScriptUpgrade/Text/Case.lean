/-
# Lower case

Full lower-casing of a text. Every character is mapped on its own, with two exceptions: the capital
I with a dot gives two characters, and a capital sigma that ends a word gives the final form `ς`.
A sigma ends a word if a cased letter stands before it and none after it, case-ignorable characters
between them not counted.
-/

import ScriptUpgrade.Text.CaseRanges
import ScriptUpgrade.Text.Word

namespace ScriptUpgrade
namespace Text

/-- The property Cased: a letter with an upper-case, lower-case or title-case form. -/
def isCased (c : Char) : Bool :=
  if c.toNat < 128 then c.isAlpha else inRanges casedRanges c.toNat

/-- The property Case_Ignorable. -/
def isCaseIgnorable (c : Char) : Bool :=
  if c.toNat < 128 then c == '\'' || c == '.' || c == ':' || c == '^' || c == '`'
  else inRanges caseIgnorableRanges c.toNat

/-- Whether a run of the lower-case mapping covers `n`. -/
def LowerRun.covers (run : LowerRun) (n : Nat) : Bool :=
  run.first ≤ n && n ≤ run.last && (n - run.first) % run.step == 0

/-- The lower-case form of a character outside ASCII, by the simple mapping. -/
def lowerSimple (c : Char) : Char :=
  match lowerRuns.find? fun run => run.covers c.toNat with
  | some run => Char.ofNat (c.toNat + run.shift).toNat
  | none => c

/-- The lower-case form of a character that does not depend on its neighbours. -/
def lowerChar (c : Char) : Text :=
  if c.toNat < 128 then [c.toLower]
  else if c.toNat = 0x130 then ['i', '\u0307']
  else [lowerSimple c]

/-- Whether the first character that is not case-ignorable is a cased letter. -/
def meetsCased (text : Text) : Bool :=
  match text.dropWhile isCaseIgnorable with
  | c :: _ => isCased c
  | [] => false

/-- The lower-case form of a text whose preceding characters are `before`, the nearest first. -/
def lowerAfter : (before text : Text) → Text
  | _, [] => []
  | before, c :: text =>
    (if c = 'Σ' then [if meetsCased before && !meetsCased text then 'ς' else 'σ'] else lowerChar c)
      ++ lowerAfter (c :: before) text

/-- The lower-case form of a text. -/
def lower (text : Text) : Text :=
  lowerAfter [] text

end Text
end ScriptUpgrade
