/-
# Suggestions for misspelt names

Names are compared in lower case by their edit distance, the least number of single-character
insertions, deletions and substitutions that lead from one to the other. A name is a plausible
reading of a token if its distance is at most half the token's length plus one. Suggestions are the
plausible names without repetition, the nearest first, and names at the same distance in the order
of texts.

The distance is computed row by row: the row of a text `a` holds the distances between `a` and the
leading parts of `b`, from the empty one to `b` itself.
-/

import ScriptUpgrade.Text.Case

namespace ScriptUpgrade
namespace Suggestion

/-- The cells of a row to the right of `left`, for one more character `x` of the first text, the
characters of the second text and the row above, whose cell above `left` is `corner`. -/
def cells (x : Char) (left corner : Nat) : Text → List Nat → List Nat
  | y :: ys, above :: row =>
    let cell := min (min (left + 1) (above + 1)) (corner + if x = y then 0 else 1)
    cell :: cells x cell above ys row
  | _, _ => []

/-- The row below `row`, for one more character `x` of the first text. -/
def nextRow (b : Text) (row : List Nat) (x : Char) : List Nat :=
  match row with
  | [] => []
  | corner :: row => (corner + 1) :: cells x (corner + 1) corner b row

/-- The least number of insertions, deletions and substitutions that lead from `a` to `b`. -/
def editDistance (a b : Text) : Nat :=
  (a.foldl (nextRow b) (List.range (b.length + 1))).getLastD 0

/-- The edit distance of two names in lower case. -/
def distance (left right : Text) : Nat :=
  editDistance (Text.lower left) (Text.lower right)

/-- The largest distance at which a name is a plausible reading of a token. -/
def threshold (token : Text) : Nat :=
  token.length / 2 + 1

/-- Whether a name at a distance comes before another one. -/
def ranksBefore (left right : Nat × Text) : Bool :=
  left.1 < right.1 || (left.1 == right.1 && Text.precedes left.2 right.2)

/-- The ranking with one more name; a name that is there already is not added again. -/
def insert (name : Nat × Text) : List (Nat × Text) → List (Nat × Text)
  | [] => [name]
  | other :: ranking =>
    if name = other then other :: ranking
    else if ranksBefore name other then name :: other :: ranking
    else other :: insert name ranking

/-- The plausible names for a token, the nearest first. -/
def rank (token : Text) (names : List Text) : List (Nat × Text) :=
  ((names.map fun name => (distance token name, name)).filter fun ranked =>
    ranked.1 ≤ threshold token).foldr insert []

/-- The first `max` suggestions for a token. -/
def suggest (token : Text) (names : List Text) (max : Nat) : List Text :=
  ((rank token names).take max).map Prod.snd

/-- How many suggestions are made unless another number is asked for. -/
def defaultMax : Nat := 3

end Suggestion
end ScriptUpgrade
