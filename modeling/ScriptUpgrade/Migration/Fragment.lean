/-
# Fragments and edits

A pass over a line yields the line as a list of fragments: characters it keeps, and stretches it
replaces. Read with their old texts, the fragments are the line before the pass; read with their
new texts, they are the line after it. So a pass replaces all its stretches at once, and `edits`
only says where in the old line they stand.
-/

import ScriptUpgrade.Text.Span

namespace ScriptUpgrade
namespace Migration

/-- A character that is kept, or a stretch and what it becomes. -/
inductive Fragment where
  | kept (c : Char)
  | replaced (before after : Text)
deriving DecidableEq, Repr

/-- A stretch of a line and what it becomes. -/
structure Edit where
  span : Span
  before : Text
  after : Text
deriving DecidableEq, Repr

namespace Fragment

/-- The characters before the pass. -/
def before : Fragment → Text
  | .kept c => [c]
  | .replaced before _ => before

/-- The characters after the pass. -/
def after : Fragment → Text
  | .kept c => [c]
  | .replaced _ after => after

/-- The fragments that keep a text. -/
def keep (text : Text) : List Fragment :=
  text.map .kept

/-- The text before the pass. -/
def oldText (fragments : List Fragment) : Text :=
  fragments.flatMap before

/-- The text after the pass. -/
def newText (fragments : List Fragment) : Text :=
  fragments.flatMap after

/-- The edits of fragments of which the first starts at byte `start`. -/
def editsFrom (start : Nat) : List Fragment → List Edit
  | [] => []
  | .kept c :: fragments => editsFrom (start + c.utf8Size) fragments
  | .replaced before after :: fragments =>
    ⟨⟨start, start + Text.size before⟩, before, after⟩ ::
      editsFrom (start + Text.size before) fragments

/-- The edits of a pass, from left to right, with offsets in the text before it. -/
def edits (fragments : List Fragment) : List Edit :=
  editsFrom 0 fragments

@[simp] theorem oldText_keep (text : Text) : oldText (keep text) = text := by
  induction text with
  | nil => rfl
  | cons c text ih =>
    simp only [oldText, keep, List.map_cons, List.flatMap_cons] at ih ⊢
    rw [ih]
    rfl

@[simp] theorem newText_keep (text : Text) : newText (keep text) = text := by
  induction text with
  | nil => rfl
  | cons c text ih =>
    simp only [newText, keep, List.map_cons, List.flatMap_cons] at ih ⊢
    rw [ih]
    rfl

theorem oldText_append (front back : List Fragment) :
    oldText (front ++ back) = oldText front ++ oldText back := by
  simp [oldText]

theorem newText_append (front back : List Fragment) :
    newText (front ++ back) = newText front ++ newText back := by
  simp [newText]

end Fragment
end Migration
end ScriptUpgrade
