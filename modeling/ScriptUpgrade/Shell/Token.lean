/-
# Tokens

The tokens of a line are separated by blanks. A double quote starts or ends a stretch in which
blanks do not separate; the marks themselves are dropped, there are no escapes, and a stretch that
is never closed runs to the end. So `""` is a token with no characters.
-/

import ScriptUpgrade.Text.Blank

namespace ScriptUpgrade
namespace Token

/-- The characters up to the next separating blank without their double quotes, and the text from
that blank on. -/
def read (quoted : Bool) : Text → Text × Text
  | [] => ([], [])
  | c :: text =>
    if c = '"' then read (!quoted) text
    else if Text.isBlank c && !quoted then ([], c :: text)
    else
      let (token, rest) := read quoted text
      (c :: token, rest)

theorem length_read (quoted : Bool) (text : Text) :
    (read quoted text).2.length ≤ text.length := by
  induction text generalizing quoted with
  | nil => simp [read]
  | cons c text ih =>
    unfold read
    split
    · exact Nat.le_succ_of_le (ih _)
    · split
      · exact Nat.le_refl _
      · exact Nat.le_succ_of_le (ih _)

/-- A token that begins at a character other than a blank uses that character up. -/
theorem length_read_cons {c : Char} (text : Text) (h : Text.isBlank c = false) :
    (read false (c :: text)).2.length ≤ text.length := by
  unfold read
  split
  · exact length_read _ _
  · simpa [h] using length_read false text

/-- The tokens of a line, from left to right. -/
def split (line : Text) : List Text :=
  match h : line.dropWhile Text.isBlank with
  | [] => []
  | c :: text => (read false (c :: text)).1 :: split (read false (c :: text)).2
termination_by line.length
decreasing_by
  have hblank : Text.isBlank c = false := by
    have := List.head?_dropWhile_not (p := Text.isBlank) line
    simpa [h] using this
  have hshort := (List.dropWhile_suffix (l := line) Text.isBlank).length_le
  rw [h, List.length_cons] at hshort
  have := length_read_cons text hblank
  omega

end Token
end ScriptUpgrade
