/-
# Lines of a script

A script is a sequence of lines, each with its ending: a line feed, a carriage return and a line
feed, or nothing, which only the last line can have. A text without characters has no lines. A
carriage return anywhere else belongs to its line.
-/

import ScriptUpgrade.Text.Basic

namespace ScriptUpgrade
namespace Script

/-- How a line ends. -/
inductive Ending where
  | none
  | lf
  | crlf
deriving DecidableEq, Repr

/-- The characters of an ending. -/
def Ending.text : Ending → Text
  | .none => []
  | .lf => ['\n']
  | .crlf => ['\r', '\n']

/-- The lines of a text with one more character in front. -/
def addFront (c : Char) (lines : List (Text × Ending)) : List (Text × Ending) :=
  if c = '\n' then ([], .lf) :: lines
  else
    match lines with
    | [] => [([c], .none)]
    | ([], .lf) :: rest => if c = '\r' then ([], .crlf) :: rest else ([c], .lf) :: rest
    | (line, ending) :: rest => (c :: line, ending) :: rest

/-- The lines of a text. -/
def split (text : Text) : List (Text × Ending) :=
  text.foldr addFront []

/-- The text of lines. -/
def join (lines : List (Text × Ending)) : Text :=
  lines.flatMap fun (line, ending) => line ++ ending.text

theorem join_addFront (c : Char) (lines : List (Text × Ending)) :
    join (addFront c lines) = c :: join lines := by
  unfold addFront
  split
  · rename_i h
    simp [join, Ending.text, h]
  · split
    · simp [join, Ending.text]
    · split
      · rename_i h
        simp [join, Ending.text, h]
      · simp [join]
    · simp [join]

/-- **Splitting a text into lines loses nothing.** -/
theorem join_split (text : Text) : join (split text) = text := by
  induction text with
  | nil => rfl
  | cons c text ih =>
    rw [split, List.foldr_cons, ← split, join_addFront, ih]

end Script
end ScriptUpgrade
