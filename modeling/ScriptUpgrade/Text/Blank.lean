/-
# Blank characters

Three classes of blanks are told apart. The shell syntax of a line is read with the five ASCII
blanks; options inside a call are separated by gaps, which are spaces and tabs only; and tokens and
indents are cut at every character with the property White_Space.
-/

import ScriptUpgrade.Text.Basic

namespace ScriptUpgrade
namespace Text

/-- A space or a tab, the characters that separate an option from its value. -/
def isGap (c : Char) : Bool :=
  c == ' ' || c == '\t'

/-- The five ASCII blanks: space, tab, line feed, form feed and carriage return. The vertical tab
is not among them. -/
def isAsciiBlank (c : Char) : Bool :=
  c == ' ' || c == '\t' || c == '\n' || c == '\x0c' || c == '\r'

/-- The property White_Space. -/
def isBlank (c : Char) : Bool :=
  let n := c.toNat
  (0x9 ≤ n && n ≤ 0xD) || n == 0x20 || n == 0x85 || n == 0xA0 || n == 0x1680 ||
  (0x2000 ≤ n && n ≤ 0x200A) || n == 0x2028 || n == 0x2029 || n == 0x202F || n == 0x205F ||
  n == 0x3000

theorem isAsciiBlank_of_isGap {c : Char} (h : isGap c = true) : isAsciiBlank c = true := by
  simp only [isGap, Bool.or_eq_true] at h
  rcases h with h | h <;> simp [isAsciiBlank, h]

theorem isBlank_of_isAsciiBlank {c : Char} (h : isAsciiBlank c = true) : isBlank c = true := by
  simp only [isAsciiBlank, Bool.or_eq_true, beq_iff_eq] at h
  rcases h with (((h | h) | h) | h) | h <;> subst h <;> decide

/-- The text without its leading blanks. -/
def trimStart (text : Text) : Text :=
  text.dropWhile isBlank

/-- The text without its trailing blanks. -/
def trimEnd (text : Text) : Text :=
  dropTail isBlank text

/-- The leading blanks. -/
def indent (text : Text) : Text :=
  text.takeWhile isBlank

/-- **A text is its indent and what follows it.** -/
theorem indent_append_trimStart (text : Text) : indent text ++ trimStart text = text :=
  List.takeWhile_append_dropWhile

end Text
end ScriptUpgrade
