/-
# Word characters

A word character is a letter, a mark, a decimal digit, connector punctuation such as `_`, or a
joiner. In ASCII these are the letters, the digits and `_`.
-/

import ScriptUpgrade.Text.Basic
import ScriptUpgrade.Text.WordRanges

namespace ScriptUpgrade
namespace Text

/-- Whether `n` lies in one of the inclusive ranges. -/
def inRanges (ranges : List (Nat × Nat)) (n : Nat) : Bool :=
  ranges.any fun (first, last) => first ≤ n && n ≤ last

/-- A letter or digit of ASCII. -/
def isAsciiAlnum (c : Char) : Bool :=
  ('a'.toNat ≤ c.toNat && c.toNat ≤ 'z'.toNat) || ('A'.toNat ≤ c.toNat && c.toNat ≤ 'Z'.toNat) ||
  ('0'.toNat ≤ c.toNat && c.toNat ≤ '9'.toNat)

/-- A word character. -/
def isWord (c : Char) : Bool :=
  if c.toNat < 128 then isAsciiAlnum c || c == '_' else inRanges wordRanges c.toNat

end Text
end ScriptUpgrade
