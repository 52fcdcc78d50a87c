/-
# The edit distance is the least number of edits

An edit inserts a character, deletes one, or puts one in the place of another. `editDistance` does not
speak of edits: it fills a table row by row and gives its last cell. The two are the same
(`isLeast_editDistance`), in three steps:

| step | statement |
| --- | --- |
| the last cells of the tables of leading parts obey the usual equation | `editDistance_snoc` |
| as many edits as the distance are enough | `edits_editDistance` |
| one edit brings a text nearer by one at most | `near_of_edit` |

The rows grow to the right with the second text, so all of this is told from the ends of the texts.
-/

import Mathlib.Data.List.Basic
import Mathlib.Data.List.Induction
import Mathlib.Order.Bounds.Defs
import ScriptUpgrade.Suggestion

namespace ScriptUpgrade
namespace Suggestion

/-- One insertion, deletion or substitution of a character. -/
inductive Edit : Text → Text → Prop
  | insert (front : Text) (c : Char) (back : Text) : Edit (front ++ back) (front ++ c :: back)
  | delete (front : Text) (c : Char) (back : Text) : Edit (front ++ c :: back) (front ++ back)
  | substitute (front : Text) (c d : Char) (back : Text) :
    Edit (front ++ c :: back) (front ++ d :: back)

/-- So many edits, one after the other, lead from one text to another. -/
inductive Edits : Nat → Text → Text → Prop
  | done (text : Text) : Edits 0 text text
  | step {n : Nat} {first second third : Text} (edit : Edit first second)
    (edits : Edits n second third) : Edits (n + 1) first third

/-! ### The table -/

/-- The row of `a`: the distances between `a` and the leading parts of `b`. -/
def row (a b : Text) : List Nat :=
  a.foldl (nextRow b) (List.range (b.length + 1))

theorem editDistance_eq (a b : Text) : editDistance a b = (row a b).getLastD 0 := rfl

theorem row_snoc (a : Text) (x : Char) (b : Text) : row (a ++ [x]) b = nextRow b (row a b) x := by
  rw [row, List.foldl_append]
  rfl

theorem length_cells (x : Char) (left corner : Nat) (b : Text) (above : List Nat) :
    (cells x left corner b above).length = min b.length above.length := by
  induction b generalizing left corner above with
  | nil => simp [cells]
  | cons y b ih =>
    cases above with
    | nil => simp [cells]
    | cons n above => simp [cells, ih]

theorem length_nextRow (b : Text) (above : List Nat) (x : Char) (h : above.length = b.length + 1) :
    (nextRow b above x).length = b.length + 1 := by
  cases above with
  | nil => simp at h
  | cons corner above =>
    rw [List.length_cons, Nat.add_right_cancel_iff] at h
    rw [nextRow, List.length_cons, length_cells, h, Nat.min_self]

theorem length_row (a b : Text) : (row a b).length = b.length + 1 := by
  induction a using List.reverseRecOn with
  | nil => simp [row]
  | append_singleton a x ih => rw [row_snoc, length_nextRow b _ x ih]

/-- One more character of the second text is one more cell. -/
theorem cells_snoc (x : Char) (left corner : Nat) {b : Text} {above : List Nat} (y : Char) (last : Nat)
    (h : above.length = b.length) :
    cells x left corner (b ++ [y]) (above ++ [last]) =
      cells x left corner b above ++
        [min (min ((cells x left corner b above).getLastD left + 1) (last + 1))
          (above.getLastD corner + if x = y then 0 else 1)] := by
  induction b generalizing left corner above with
  | nil =>
    rw [List.length_nil, List.length_eq_zero_iff] at h
    rw [h]
    rfl
  | cons z b ih =>
    cases above with
    | nil => simp at h
    | cons n above =>
      rw [List.length_cons, List.length_cons, Nat.add_right_cancel_iff] at h
      simp only [List.cons_append, cells, List.getLastD_cons]
      rw [ih _ _ h]

theorem nextRow_snoc {b : Text} {above : List Nat} (x y : Char) (last : Nat)
    (h : above.length = b.length + 1) :
    nextRow (b ++ [y]) (above ++ [last]) x =
      nextRow b above x ++
        [min (min ((nextRow b above x).getLastD 0 + 1) (last + 1))
          (above.getLastD 0 + if x = y then 0 else 1)] := by
  cases above with
  | nil => simp at h
  | cons corner above =>
    rw [List.length_cons, Nat.add_right_cancel_iff] at h
    simp only [List.cons_append, nextRow, List.getLastD_cons]
    rw [cells_snoc x _ _ y last h]

theorem exists_row_append_singleton (a b : Text) (y : Char) :
    ∃ last, row a (b ++ [y]) = row a b ++ [last] := by
  induction a using List.reverseRecOn with
  | nil => exact ⟨b.length + 1, by simp [row, List.range_succ]⟩
  | append_singleton a x ih =>
    obtain ⟨last, ih⟩ := ih
    rw [row_snoc, row_snoc, ih]
    exact ⟨_, nextRow_snoc x y last (length_row a b)⟩

/-- **A row is the row of a shorter text and one more cell.** -/
theorem row_append_singleton (a b : Text) (y : Char) :
    row a (b ++ [y]) = row a b ++ [editDistance a (b ++ [y])] := by
  obtain ⟨last, h⟩ := exists_row_append_singleton a b y
  rw [editDistance_eq, h]
  simp

theorem editDistance_nil_left (b : Text) : editDistance [] b = b.length := by
  simp [editDistance, List.range_succ]

theorem editDistance_nil_right (a : Text) : editDistance a [] = a.length := by
  have hrow : row a [] = [a.length] := by
    induction a using List.reverseRecOn with
    | nil => rfl
    | append_singleton a x ih =>
      rw [row_snoc, ih, List.length_append]
      rfl
  rw [editDistance_eq, hrow]
  rfl

/-- **The distance by the last characters**: the last one of the second text is inserted, that of the first
is deleted, or the one takes the place of the other. -/
theorem editDistance_snoc (a b : Text) (x y : Char) :
    editDistance (a ++ [x]) (b ++ [y]) =
      min (min (editDistance (a ++ [x]) b + 1) (editDistance a (b ++ [y]) + 1))
        (editDistance a b + if x = y then 0 else 1) := by
  rw [editDistance_eq (a ++ [x]) (b ++ [y]), row_snoc, row_append_singleton,
    nextRow_snoc x y _ (length_row a b), ← row_snoc, ← editDistance_eq, ← editDistance_eq]
  simp

/-! ### Enough edits -/

theorem Edits.snoc {n : Nat} {first second third : Text} (h : Edits n first second)
    (edit : Edit second third) : Edits (n + 1) first third := by
  induction h with
  | done text => exact .step edit (.done _)
  | step edit' _ ih => exact .step edit' (ih edit)

theorem Edit.append {first second : Text} (h : Edit first second) (tail : Text) :
    Edit (first ++ tail) (second ++ tail) := by
  cases h with
  | insert front c back => simpa using Edit.insert front c (back ++ tail)
  | delete front c back => simpa using Edit.delete front c (back ++ tail)
  | substitute front c d back => simpa using Edit.substitute front c d (back ++ tail)

theorem Edits.append {n : Nat} {first second : Text} (h : Edits n first second) (tail : Text) :
    Edits n (first ++ tail) (second ++ tail) := by
  induction h with
  | done text => exact .done _
  | step edit _ ih => exact .step (edit.append tail) ih

/-- **As many edits as the distance lead from one text to the other.** -/
theorem edits_editDistance (a b : Text) : Edits (editDistance a b) a b := by
  induction a using List.reverseRecOn generalizing b with
  | nil =>
    rw [editDistance_nil_left]
    induction b using List.reverseRecOn with
    | nil => exact .done []
    | append_singleton b y ih =>
      rw [List.length_append]
      exact ih.snoc (by simpa using Edit.insert b y [])
  | append_singleton a x iha =>
    have hdelete : Edit (a ++ [x]) a := by simpa using Edit.delete a x []
    induction b using List.reverseRecOn with
    | nil =>
      rw [editDistance_nil_right, List.length_append]
      have := iha []
      rw [editDistance_nil_right] at this
      exact .step hdelete this
    | append_singleton b y ihb =>
      have hlast : editDistance (a ++ [x]) (b ++ [y]) = editDistance (a ++ [x]) b + 1 ∨
          editDistance (a ++ [x]) (b ++ [y]) = editDistance a (b ++ [y]) + 1 ∨
          editDistance (a ++ [x]) (b ++ [y]) = editDistance a b + if x = y then 0 else 1 := by
        rw [editDistance_snoc]
        omega
      rcases hlast with h | h | h
      · rw [h]
        exact ihb.snoc (by simpa using Edit.insert b y [])
      · rw [h]
        exact .step hdelete (iha _)
      · rw [h]
        have hfront : Edits (editDistance a b) (a ++ [x]) (b ++ [x]) := (iha b).append [x]
        split
        · rename_i hsame
          rwa [← hsame]
        · exact hfront.snoc (Edit.substitute b x y [])

/-! ### No fewer edits -/

/-- A character at the end of the second text takes one edit at most. -/
theorem editDistance_snoc_right_le (a b : Text) (y : Char) :
    editDistance a (b ++ [y]) ≤ editDistance a b + 1 := by
  rcases List.eq_nil_or_concat' a with rfl | ⟨a, x, rfl⟩
  · simp [editDistance_nil_left]
  · rw [editDistance_snoc]
    omega

/-- A character at the end of the first text takes one edit at most. -/
theorem editDistance_snoc_left_le (a b : Text) (x : Char) :
    editDistance (a ++ [x]) b ≤ editDistance a b + 1 := by
  rcases List.eq_nil_or_concat' b with rfl | ⟨b, y, rfl⟩
  · simp [editDistance_nil_right]
  · rw [editDistance_snoc]
    omega

/-- The first text is from every text at most one edit farther away than the second. -/
def Near (first second : Text) : Prop :=
  ∀ text, editDistance first text ≤ editDistance second text + 1

/-- What is inserted at the end of a text can be deleted. -/
theorem near_insert (front : Text) (c : Char) : Near front (front ++ [c]) := by
  intro text
  induction text using List.reverseRecOn with
  | nil =>
    rw [editDistance_nil_right, editDistance_nil_right, List.length_append]
    omega
  | append_singleton text y ih =>
    have hright := editDistance_snoc_right_le front text y
    rw [editDistance_snoc]
    omega

theorem near_substitute (front : Text) (c d : Char) : Near (front ++ [c]) (front ++ [d]) := by
  intro text
  induction text using List.reverseRecOn with
  | nil => simp [editDistance_nil_right]
  | append_singleton text y ih =>
    rw [editDistance_snoc, editDistance_snoc]
    split <;> split <;> omega

/-- The same character at the end of both texts changes nothing. -/
theorem Near.snoc {first second : Text} (h : Near first second) (x : Char) :
    Near (first ++ [x]) (second ++ [x]) := by
  intro text
  induction text using List.reverseRecOn with
  | nil =>
    have := h []
    simpa [editDistance_nil_right] using this
  | append_singleton text y ih =>
    have hfront := h text
    have hlast := h (text ++ [y])
    rw [editDistance_snoc, editDistance_snoc]
    omega

theorem Near.append {first second : Text} (h : Near first second) (tail : Text) :
    Near (first ++ tail) (second ++ tail) := by
  induction tail using List.reverseRecOn with
  | nil => simpa using h
  | append_singleton tail x ih =>
    rw [← List.append_assoc, ← List.append_assoc]
    exact ih.snoc x

/-- **One edit brings a text nearer by one at most.** -/
theorem near_of_edit {first second : Text} (h : Edit first second) : Near first second := by
  cases h with
  | insert front c back => simpa using (near_insert front c).append back
  | delete front c back =>
    have hnear : Near (front ++ [c]) front := fun text => editDistance_snoc_left_le front text c
    simpa using hnear.append back
  | substitute front c d back => simpa using (near_substitute front c d).append back

theorem editDistance_self (text : Text) : editDistance text text = 0 := by
  induction text using List.reverseRecOn with
  | nil => rfl
  | append_singleton text x ih =>
    rw [editDistance_snoc, ih, if_pos rfl, Nat.min_zero]

theorem editDistance_le_of_edits {n : Nat} {first second : Text} (h : Edits n first second) :
    editDistance first second ≤ n := by
  induction h with
  | done text => exact Nat.le_of_eq (editDistance_self text)
  | step edit _ ih => exact Nat.le_trans (near_of_edit edit _) (Nat.succ_le_succ ih)

/-- **The edit distance is the least number of edits** that lead from one text to the other. -/
theorem isLeast_editDistance (a b : Text) : IsLeast {n | Edits n a b} (editDistance a b) :=
  ⟨edits_editDistance a b, fun _ h => editDistance_le_of_edits h⟩

/-- Only equal texts have no distance. -/
theorem editDistance_eq_zero_iff {a b : Text} : editDistance a b = 0 ↔ a = b := by
  constructor
  · intro h
    have hedits := edits_editDistance a b
    rw [h] at hedits
    cases hedits
    rfl
  · rintro rfl
    exact editDistance_self a

end Suggestion
end ScriptUpgrade
