/-
# Quotes

A shell line has single and double quotes, without escapes: a quote character opens a quoted span,
the next same character closes it, and a span that is never closed runs to the end. The whole state
of a scanner is the quote that is open, if any, and `Quote.step` is the only transition; every
scanner of the shell syntax uses it.
-/

import ScriptUpgrade.Text.Span

namespace ScriptUpgrade
namespace Quote

/-- The quote character that is open, if one is. -/
abbrev State := Option Char

/-- A single or a double quote. -/
def isMark (c : Char) : Bool :=
  c == '"' || c == '\''

/-- The state after one more character. -/
def step (state : State) (c : Char) : State :=
  match state with
  | some mark => if c = mark then none else some mark
  | none => if isMark c then some c else none

/-- The state after a text. -/
def run (state : State) (text : Text) : State :=
  text.foldl step state

theorem run_append (state : State) (front back : Text) :
    run state (front ++ back) = run (run state front) back := by
  simp [run]

/-- The characters of a quoted span after its opening mark, the closing mark included, and the text
after it. -/
def closing (mark : Char) : Text → Text × Text
  | [] => ([], [])
  | c :: text =>
    if c = mark then ([c], text)
    else
      let (inside, rest) := closing mark text
      (c :: inside, rest)

/-- **Nothing is lost** between the inside of a quoted span and the text after it. -/
theorem closing_append (mark : Char) (text : Text) :
    (closing mark text).1 ++ (closing mark text).2 = text := by
  induction text with
  | nil => rfl
  | cons c text ih =>
    unfold closing
    by_cases h : c = mark
    · simp [h]
    · simp [h, ih]

theorem length_closing (mark : Char) (text : Text) :
    (closing mark text).2.length ≤ text.length := by
  have := congrArg List.length (closing_append mark text)
  simp only [List.length_append] at this
  omega

/-- The quoted spans of a text that starts at byte `start`, with their marks. -/
def spansFrom (start : Nat) : Text → List Stretch
  | [] => []
  | c :: text =>
    if isMark c then
      let quoted := c :: (closing c text).1
      .starting start quoted :: spansFrom (start + Text.size quoted) (closing c text).2
    else spansFrom (start + c.utf8Size) text
termination_by text => text.length
decreasing_by
  · have := length_closing c text
    simp only [List.length_cons]
    omega
  · simp

/-- The quoted spans of a text, from left to right. -/
def spans (text : Text) : List Stretch :=
  spansFrom 0 text

end Quote
end ScriptUpgrade
