/-
# Text that no replacement has touched

A line is rewritten by one batch of replacements after the other, and an origin map records them. To say what
the map owes to the rest of the text, every character carries along where it stood at first, until it is
replaced (`Cell`). The map leads untouched text back rightly (`Leads`) if it gives for every stretch of
characters that still carry their places the span of these places.

A batch that is applied to such a line keeps that up unless one of its patches misplaces untouched text
(`leads_rewrite_iff`): what a batch does to the map is in `RecordedRegions`, and here it is put together for
stretches of text and for runs of batches.
-/

import ScriptUpgrade.Proofs.QuotedSpans
import ScriptUpgrade.Proofs.RecordedRegions

namespace ScriptUpgrade
namespace Migration

open Fragment

/-- A character of a line that is rewritten, and the byte at which it stood in the line as it was at first,
unless it was written since. -/
structure Cell where
  char : Char
  first : Option Nat
deriving DecidableEq, Repr

namespace Cell

/-- The characters of cells. -/
def text (cells : List Cell) : Text :=
  cells.map Cell.char

/-- The cells of a text that stood at byte `start` and was never replaced. -/
def original (start : Nat) : Text → List Cell
  | [] => []
  | c :: text => ⟨c, some start⟩ :: original (start + c.utf8Size) text

/-- The cells of a new text. -/
def written (text : Text) : List Cell :=
  text.map fun c => ⟨c, none⟩

/-- The cells up to a number of bytes, and the others. -/
def split (size : Nat) : List Cell → List Cell × List Cell
  | [] => ([], [])
  | cell :: cells =>
    if size = 0 then ([], cell :: cells)
    else (cell :: (split (size - cell.char.utf8Size) cells).1, (split (size - cell.char.utf8Size) cells).2)

/-- The cells from byte `position` on after the patches of a batch, which stand there from left to right. -/
def rewriteFrom (position : Nat) : List Patch → List Cell → List Cell
  | [], cells => cells
  | patch :: batch, cells =>
    (split (patch.1.start - position) cells).1 ++ (written patch.2 ++
      rewriteFrom patch.1.stop batch (split (patch.1.stop - position) cells).2)

/-! ### Cells of a batch -/

theorem text_append (front back : List Cell) : text (front ++ back) = text front ++ text back :=
  List.map_append

theorem text_written (new : Text) : text (written new) = new := by
  induction new with
  | nil => rfl
  | cons c new ih => exact congrArg (c :: ·) ih

theorem split_zero (cells : List Cell) : split 0 cells = ([], cells) := by
  cases cells <;> rfl

theorem split_append (front back : List Cell) :
    split (Text.size (text front)) (front ++ back) = (front, back) := by
  induction front with
  | nil => exact split_zero back
  | cons cell front ih =>
    have hpos := Char.utf8Size_pos cell.char
    have hsize : Text.size (text (cell :: front)) = cell.char.utf8Size + Text.size (text front) := rfl
    rw [hsize, List.cons_append, split, if_neg (by omega), Nat.add_sub_cancel_left, ih]

/-- A cell in front of all patches stays. -/
theorem rewriteFrom_kept {cut : List Fragment} (hsolid : IsSolid cut) (position : Nat) (cell : Cell)
    (cells : List Cell) :
    rewriteFrom position (laid position (.kept cell.char :: cut)) (cell :: cells) =
      cell :: rewriteFrom (position + cell.char.utf8Size)
        (laid (position + cell.char.utf8Size) cut) cells := by
  rw [laid_kept]
  have hpos := Char.utf8Size_pos cell.char
  have hbounds : ∀ patch ∈ laid (position + cell.char.utf8Size) cut,
      position + cell.char.utf8Size ≤ patch.1.start ∧ patch.1.start < patch.1.stop := fun patch hpatch =>
    ⟨(bounds_of_mem_laid hsolid hpatch).1, (bounds_of_mem_laid hsolid hpatch).2.1⟩
  generalize laid (position + cell.char.utf8Size) cut = batch at hbounds
  cases batch with
  | nil => rfl
  | cons patch batch =>
    have hpatch := hbounds patch (List.mem_cons_self ..)
    rw [rewriteFrom, rewriteFrom, split, split, if_neg (by omega), if_neg (by omega), Nat.sub_sub,
      Nat.sub_sub]
    rfl

/-- A patch puts its text in the place of the cells of its span. -/
theorem rewriteFrom_replaced (position : Nat) (inner cells : List Cell) (new : Text)
    (cut : List Fragment) :
    rewriteFrom position (laid position (.replaced (text inner) new :: cut)) (inner ++ cells) =
      written new ++ rewriteFrom (position + Text.size (text inner))
        (laid (position + Text.size (text inner)) cut) cells := by
  rw [laid_replaced, rewriteFrom, Nat.sub_self, split_zero, Nat.add_sub_cancel_left, split_append]
  rfl

theorem exists_of_text_eq_cons {cells : List Cell} {c : Char} {rest : Text} (h : text cells = c :: rest) :
    ∃ cell cells', cells = cell :: cells' ∧ cell.char = c ∧ text cells' = rest :=
  List.map_eq_cons_iff.1 h

theorem exists_of_text_eq_append {cells : List Cell} {front back : Text}
    (h : text cells = front ++ back) :
    ∃ left right, cells = left ++ right ∧ text left = front ∧ text right = back :=
  List.map_eq_append_iff.1 h

theorem text_rewriteFrom {cut : List Fragment} (hsolid : IsSolid cut) (position : Nat) {cells : List Cell}
    (h : text cells = oldText cut) : text (rewriteFrom position (laid position cut) cells) = newText cut := by
  induction cut generalizing position cells with
  | nil => exact h
  | cons fragment cut ih =>
    cases fragment with
    | kept c =>
      obtain ⟨cell, cells, rfl, rfl, hrest⟩ := exists_of_text_eq_cons h
      rw [rewriteFrom_kept hsolid.of_cons]
      exact congrArg (cell.char :: ·) (ih hsolid.of_cons _ hrest)
    | replaced old new =>
      obtain ⟨inner, cells, rfl, rfl, hrest⟩ := exists_of_text_eq_append h
      rw [rewriteFrom_replaced, text_append, text_written, ih hsolid.of_cons _ hrest, newText_replaced]

/-- A kept cell stands behind the new texts of the fragments in front of it. -/
theorem exists_of_kept {left right : List Fragment} (position : Nat) (cell : Cell) {front : List Cell}
    (back : List Cell) (hsolid : IsSolid (left ++ .kept cell.char :: right))
    (hfront : text front = oldText left) :
    ∃ front' back', rewriteFrom position (laid position (left ++ .kept cell.char :: right))
        (front ++ cell :: back) = front' ++ cell :: back' ∧ text front' = newText left := by
  induction left generalizing position front with
  | nil =>
    obtain rfl : front = [] := List.map_eq_nil_iff.1 hfront
    exact ⟨[], _, rewriteFrom_kept hsolid.of_cons position cell back, rfl⟩
  | cons fragment left ih =>
    cases fragment with
    | kept c =>
      obtain ⟨cell', front, rfl, rfl, hrest⟩ := exists_of_text_eq_cons hfront
      have hleft : IsSolid (left ++ .kept cell.char :: right) := hsolid.of_cons
      obtain ⟨front', back', h, htext⟩ := ih (position + cell'.char.utf8Size) hleft hrest
      refine ⟨cell' :: front', back', ?_, congrArg (cell'.char :: ·) htext⟩
      rw [List.cons_append, List.cons_append, rewriteFrom_kept hleft, h, List.cons_append]
    | replaced old new =>
      obtain ⟨inner, front, rfl, rfl, hrest⟩ := exists_of_text_eq_append hfront
      obtain ⟨front', back', h, htext⟩ := ih (position + Text.size (text inner)) hsolid.of_cons hrest
      refine ⟨written new ++ front', back', ?_, ?_⟩
      · rw [List.cons_append, List.append_assoc, rewriteFrom_replaced, h, List.append_assoc]
      · rw [text_append, htext, newText_replaced, text_written]

/-- No cell of a new text is untouched. -/
theorem exists_append_of_written {new : Text} {after front inside back : List Cell}
    (h : written new ++ after = front ++ (inside ++ back)) (hne : inside ≠ [])
    (huntouched : ∀ cell ∈ inside, cell.first.isSome) :
    ∃ front', front = written new ++ front' ∧ after = front' ++ (inside ++ back) := by
  induction new generalizing front with
  | nil => exact ⟨front, rfl, h⟩
  | cons c new ih =>
    cases front with
    | nil =>
      obtain ⟨cell, inside, rfl⟩ := List.exists_cons_of_ne_nil hne
      have hcell : ⟨c, none⟩ = cell := (List.cons.inj h).1
      have := huntouched cell (List.mem_cons_self ..)
      rw [← hcell] at this
      cases this
    | cons cell front =>
      obtain ⟨hcell, hrest⟩ := List.cons.inj h
      obtain ⟨front', rfl, hafter⟩ := ih hrest
      exact ⟨front', by rw [← hcell]; rfl, hafter⟩

/-- **Untouched cells that stand next to each other after a batch did so before it**, and the batch keeps
them. -/
theorem exists_of_untouched {cut : List Fragment} (hsolid : IsSolid cut) (position : Nat)
    {cells front inside back : List Cell} (htext : text cells = oldText cut)
    (h : rewriteFrom position (laid position cut) cells = front ++ (inside ++ back)) (hne : inside ≠ [])
    (huntouched : ∀ cell ∈ inside, cell.first.isSome) :
    ∃ left right front' back', cut = left ++ (keep (text inside) ++ right) ∧
      cells = front' ++ (inside ++ back') ∧ text front' = oldText left ∧ text front = newText left := by
  induction cut generalizing position cells front inside with
  | nil =>
    obtain rfl : cells = [] := List.map_eq_nil_iff.1 htext
    have hnil : front ++ (inside ++ back) = [] := h.symm
    simp [hne] at hnil
  | cons fragment cut ih =>
    cases fragment with
    | kept c =>
      obtain ⟨cell, cells, rfl, rfl, hrest⟩ := exists_of_text_eq_cons htext
      rw [rewriteFrom_kept hsolid.of_cons] at h
      cases front with
      | nil =>
        obtain ⟨first, inside, rfl⟩ := List.exists_cons_of_ne_nil hne
        rw [List.nil_append, List.cons_append, List.cons.injEq] at h
        obtain ⟨rfl, hafter⟩ := h
        by_cases hinside : inside = []
        · subst hinside
          exact ⟨[], cut, [], cells, rfl, rfl, rfl, rfl⟩
        · -- nothing of the batch lies between this cell and the next one
          rw [← List.nil_append (inside ++ back)] at hafter
          obtain ⟨left, right, front', back', hcut, hcells, hfront', hfront⟩ := ih hsolid.of_cons _ hrest
            hafter hinside fun other hother => huntouched other (List.mem_cons_of_mem _ hother)
          have hleft : IsSolid left := (isSolid_append_iff.1 (hcut ▸ hsolid.of_cons)).1
          obtain rfl := hleft.eq_nil_of_newText hfront.symm
          obtain rfl : front' = [] := List.map_eq_nil_iff.1 hfront'
          exact ⟨[], right, [], back', by rw [hcut]; rfl, by rw [hcells]; rfl, rfl, rfl⟩
      | cons first front =>
        obtain ⟨rfl, hafter⟩ := List.cons.inj h
        obtain ⟨left, right, front', back', rfl, rfl, hfront', hfront⟩ :=
          ih hsolid.of_cons _ hrest hafter hne huntouched
        exact ⟨.kept cell.char :: left, right, cell :: front', back', rfl, rfl,
          congrArg (cell.char :: ·) hfront', congrArg (cell.char :: ·) hfront⟩
    | replaced old new =>
      obtain ⟨inner, cells, rfl, rfl, hrest⟩ := exists_of_text_eq_append htext
      rw [rewriteFrom_replaced] at h
      obtain ⟨front, rfl, hafter⟩ := exists_append_of_written h hne huntouched
      obtain ⟨left, right, front', back', rfl, rfl, hfront', hfront⟩ :=
        ih hsolid.of_cons _ hrest hafter hne huntouched
      refine ⟨.replaced (text inner) new :: left, right, inner ++ front', back', rfl,
        (List.append_assoc ..).symm, ?_, ?_⟩
      · rw [text_append, hfront', oldText_replaced]
      · rw [text_append, hfront, newText_replaced, text_written]

theorem original_append (start : Nat) (front back : Text) :
    original start (front ++ back) = original start front ++ original (start + Text.size front) back := by
  induction front generalizing start with
  | nil => rfl
  | cons c front ih => rw [List.cons_append, original, original, ih, Text.size, Nat.add_assoc, List.cons_append]

theorem text_original (start : Nat) (line : Text) : text (original start line) = line := by
  induction line generalizing start with
  | nil => rfl
  | cons c line ih => exact congrArg (c :: ·) (ih _)

theorem exists_of_original_eq_append {start : Nat} {line : Text} {left right : List Cell}
    (h : original start line = left ++ right) :
    ∃ front back, line = front ++ back ∧ left = original start front ∧
      right = original (start + Text.size front) back := by
  have htext := congrArg text h
  rw [text_original, text_append] at htext
  rw [htext, original_append] at h
  have hlength : (original start (text left)).length = left.length := by
    have hlen := congrArg List.length (text_original start (text left))
    simpa [text] using hlen
  obtain ⟨hleft, hright⟩ := List.append_inj h hlength
  exact ⟨text left, text right, htext, hleft.symm, hright.symm⟩

end Cell

/-! ### Batches -/

/-- The patches of a batch stand one after the other, between characters of the text; each replaces something by
something. -/
structure IsBatch (text : Text) (batch : List Patch) : Prop where
  sorted : batch.Pairwise fun left right => left.1.stop ≤ right.1.start
  solid : ∀ patch ∈ batch, patch.1.start < patch.1.stop ∧ patch.2 ≠ []
  fits : ∀ patch ∈ batch, text.IsBoundary patch.1.start ∧ text.IsBoundary patch.1.stop

/-- The rest of a text from a place on that is in front of a boundary. -/
theorem exists_append_of_isBoundary {front rest : Text} {offset : Nat}
    (h : (front ++ rest).IsBoundary offset) (hle : Text.size front ≤ offset) :
    ∃ inside back, rest = inside ++ back ∧ offset = Text.size front + Text.size inside := by
  obtain ⟨front', back, htext, hsize⟩ := h
  rcases hle.lt_or_eq with hlt | heq
  · obtain ⟨inside, -, rfl, rfl⟩ := Text.exists_append_of_size_lt htext (hsize ▸ hlt)
    exact ⟨inside, back, rfl, by rw [← hsize, Text.size_append]⟩
  · exact ⟨[], rest, rfl, heq.symm⟩

/-- **The patches of a batch are those of fragments.** -/
theorem exists_cut_from {front rest : Text} {batch : List Patch} (h : IsBatch (front ++ rest) batch)
    (hlow : ∀ patch ∈ batch, Text.size front ≤ patch.1.start) :
    ∃ cut, IsSolid cut ∧ oldText cut = rest ∧ laid (Text.size front) cut = batch := by
  induction batch generalizing front rest with
  | nil => exact ⟨keep rest, isSolid_keep rest, oldText_keep rest, laid_keep _ rest⟩
  | cons patch batch ih =>
    obtain ⟨hfirst, hrest⟩ := List.pairwise_cons.1 h.sorted
    obtain ⟨hlt, hnew⟩ := h.solid patch (List.mem_cons_self ..)
    obtain ⟨hstart, hstop⟩ := h.fits patch (List.mem_cons_self ..)
    obtain ⟨kept, rest, rfl, hkept⟩ :=
      exists_append_of_isBoundary hstart (hlow patch (List.mem_cons_self ..))
    rw [← List.append_assoc] at h hstop
    obtain ⟨old, rest, rfl, hold⟩ :=
      exists_append_of_isBoundary hstop (by rw [Text.size_append]; omega)
    rw [← List.append_assoc] at h
    rw [Text.size_append] at hold
    obtain ⟨cut, hsolid, hcut, hlaid⟩ := ih
      ⟨hrest, fun other hother => h.solid other (List.mem_cons_of_mem _ hother),
        fun other hother => h.fits other (List.mem_cons_of_mem _ hother)⟩
      fun other hother => by
        rw [Text.size_append, Text.size_append, ← hold]
        exact hfirst other hother
    rw [Text.size_append, Text.size_append, ← hold] at hlaid
    have hne : old ≠ [] := by
      rintro rfl
      rw [Text.size_nil] at hold
      omega
    refine ⟨keep kept ++ .replaced old patch.2 :: cut, ?_, ?_, ?_⟩
    · refine isSolid_append_iff.2 ⟨isSolid_keep kept, fun old' new' hmem => ?_⟩
      rcases List.mem_cons.1 hmem with heq | hmem
      · cases heq
        exact ⟨hne, hnew⟩
      · exact hsolid old' new' hmem
    · rw [oldText_append, oldText_keep, oldText_replaced, hcut]
    · rw [laid_keep_append, laid_replaced, ← hold, ← hkept, hlaid]

theorem IsBatch.exists_cut {text : Text} {batch : List Patch} (h : IsBatch text batch) :
    ∃ cut, IsSolid cut ∧ oldText cut = text ∧ laid 0 cut = batch := by
  have hbatch : IsBatch ([] ++ text) batch := h
  exact exists_cut_from hbatch fun _ _ => Nat.zero_le _

/-! ### Drafts -/

/-- A line that is rewritten, with the origin map that records it. -/
structure Draft where
  cells : List Cell
  origin : Origin
deriving DecidableEq, Repr

namespace Draft

/-- A line that nothing has changed yet. -/
def ofLine (line : Text) : Draft :=
  ⟨Cell.original 0 line, .untouched line⟩

/-- The text of a draft. -/
def text (draft : Draft) : Text :=
  Cell.text draft.cells

/-- A draft after a batch, which is applied and recorded. -/
def rewrite (draft : Draft) (batch : List Patch) : Draft :=
  ⟨Cell.rewriteFrom 0 batch draft.cells, draft.origin.recordBatch batch⟩

/-- A draft to which batches can be applied one after the other. -/
def Accepts : Draft → List (List Patch) → Prop
  | _, [] => True
  | draft, batch :: batches => IsBatch draft.text batch ∧ (draft.rewrite batch).Accepts batches

/-- A byte at which a character stands that was never replaced. -/
def UntouchedAt (draft : Draft) (position : Nat) : Prop :=
  ∃ front cell back, draft.cells = front ++ cell :: back ∧ Text.size (Cell.text front) = position ∧
    cell.first.isSome

/-- The origin map leads every stretch of characters that were never replaced back to the span of these same
characters in the line as it was at first. -/
def Leads (line : Text) (draft : Draft) : Prop :=
  ∀ front inside back, draft.cells = front ++ (inside ++ back) → inside ≠ [] →
    (∀ cell ∈ inside, cell.first.isSome) →
    ∃ lead text tail, line = lead ++ (text ++ tail) ∧ inside = Cell.original (Text.size lead) text ∧
      draft.origin.trace ⟨Text.size (Cell.text front),
          Text.size (Cell.text front) + Text.size (Cell.text inside)⟩ =
        ⟨Text.size lead, Text.size lead + Text.size text⟩

/-- What holds of every draft, whether its origin map leads untouched text back rightly or not. -/
structure IsSound (line : Text) (draft : Draft) : Prop where
  size : draft.origin.size = Text.size line
  ordered : Ordered 0 draft.origin.regions
  apart : ∀ front cell back, draft.cells = front ++ cell :: back → cell.first.isSome →
    ∀ region ∈ draft.origin.regions,
      region.now.Apart ⟨Text.size (Cell.text front), Text.size (Cell.text front) + cell.char.utf8Size⟩
  contiguous : ∀ front inside back, draft.cells = front ++ (inside ++ back) → inside ≠ [] →
    (∀ cell ∈ inside, cell.first.isSome) →
    ∃ lead text tail, line = lead ++ (text ++ tail) ∧ inside = Cell.original (Text.size lead) text

theorem isSound_ofLine (line : Text) : IsSound line (ofLine line) where
  size := rfl
  ordered := trivial
  apart _ _ _ _ _ region hregion := by cases hregion
  contiguous front inside back hcells _ _ := by
    obtain ⟨lead, rest, rfl, -, hrest⟩ := Cell.exists_of_original_eq_append hcells
    obtain ⟨text, tail, rfl, hinside, -⟩ := Cell.exists_of_original_eq_append hrest.symm
    exact ⟨lead, text, tail, rfl, by rw [hinside, Nat.zero_add]⟩

theorem leads_ofLine (line : Text) : Leads line (ofLine line) := by
  intro front inside back hcells hne huntouched
  obtain ⟨lead, rest, rfl, hfront, hrest⟩ := Cell.exists_of_original_eq_append hcells
  obtain ⟨text, tail, rfl, hinside, -⟩ := Cell.exists_of_original_eq_append hrest.symm
  rw [Nat.zero_add] at hinside
  refine ⟨lead, text, tail, rfl, hinside, ?_⟩
  rw [hfront, hinside, Cell.text_original, Cell.text_original]
  unfold ofLine Origin.untouched Origin.trace Origin.startFrom Origin.stopFrom moved
  rw [Text.size_append, Text.size_append]
  dsimp only
  congr 1 <;> omega

variable {line : Text} {draft : Draft} {batch : List Patch}

/-- **A batch keeps a draft sound**, whatever its patches replace. -/
theorem IsSound.rewrite (h : IsSound line draft) (hbatch : IsBatch draft.text batch) :
    IsSound line (draft.rewrite batch) := by
  obtain ⟨cut, hsolid, hcut, rfl⟩ := hbatch.exists_cut
  refine ⟨h.size, ordered_recordBatch h.ordered hsolid, ?_, ?_⟩
  · intro front cell back hcells hsome region hregion
    have hinside : Cell.rewriteFrom 0 (laid 0 cut) draft.cells = front ++ ([cell] ++ back) := hcells
    obtain ⟨left, right, front', back', rfl, hcells', hfront', hfront⟩ :=
      Cell.exists_of_untouched hsolid 0 hcut.symm hinside (by simp) (by simpa using hsome)
    have hapart := h.apart front' cell back' hcells' hsome
    rw [hfront'] at hapart
    rw [hfront]
    exact (trace_recordBatch_iff h.ordered hsolid rfl rfl hapart).1 region hregion
  · intro front inside back hcells hne huntouched
    obtain ⟨_, _, front', back', -, hcells', -, -⟩ :=
      Cell.exists_of_untouched hsolid 0 hcut.symm hcells hne huntouched
    exact h.contiguous front' inside back' hcells' hne huntouched

/-- The text of a draft after a batch is the one with the patches in the place of their spans. -/
theorem text_rewrite (hbatch : IsBatch draft.text batch) :
    (draft.rewrite batch).text = patch batch draft.text := by
  obtain ⟨cut, hsolid, hcut, rfl⟩ := hbatch.exists_cut
  have hpatch := patchFrom_laid 0 hsolid [] (by simp)
  rw [List.nil_append, hcut] at hpatch
  exact (Cell.text_rewriteFrom hsolid 0 hcut.symm).trans hpatch.symm

/-- An origin map that leads stretches back rightly does so for single characters. -/
theorem Leads.trace_cell (h : Leads line draft) {front back : List Cell} {c : Char} {first : Nat}
    (hcells : draft.cells = front ++ ⟨c, some first⟩ :: back) :
    first + c.utf8Size ≤ Text.size line ∧
      draft.origin.trace ⟨Text.size (Cell.text front), Text.size (Cell.text front) + c.utf8Size⟩ =
        ⟨first, first + c.utf8Size⟩ := by
  obtain ⟨lead, text, tail, rfl, hinside, htrace⟩ :=
    h front [⟨c, some first⟩] back hcells (by simp) (by simp)
  have htext := congrArg Cell.text hinside
  rw [Cell.text_original] at htext
  subst htext
  obtain ⟨hcell, -⟩ := List.cons.inj hinside
  cases hcell
  have hsize : Text.size (Cell.text [⟨c, some (Text.size lead)⟩]) = c.utf8Size := Nat.add_zero _
  rw [hsize] at htrace
  refine ⟨?_, htrace⟩
  rw [Text.size_append, Text.size_append, hsize]
  omega

/-- A span is led back by where its first and its last character are led back to. -/
theorem trace_of_ends {origin : Origin} {start stop start' stop' first last first' last' : Nat}
    (hfirst : origin.trace ⟨start, stop'⟩ = ⟨first, last'⟩)
    (hlast : origin.trace ⟨start', stop⟩ = ⟨first', last⟩) (hle : first ≤ first') (hlt : first' < last) :
    origin.trace ⟨start, stop⟩ = ⟨first, last⟩ := by
  unfold Origin.trace at hfirst hlast ⊢
  simp only [Span.mk.injEq] at hfirst hlast ⊢
  omega

/-- A character that no patch takes up is kept. -/
theorem exists_kept_of_apart {cut : List Fragment} {front back : Text} {c : Char} (start : Nat)
    (hcut : oldText cut = front ++ c :: back)
    (h : ∀ patch ∈ laid start cut, patch.1.stop ≤ start + Text.size front ∨
      start + Text.size front < patch.1.start) :
    ∃ left right, cut = left ++ .kept c :: right ∧ oldText left = front := by
  induction cut generalizing start front with
  | nil => simp at hcut
  | cons fragment cut ih =>
    cases fragment with
    | kept c' =>
      cases front with
      | nil =>
        obtain ⟨rfl, -⟩ := List.cons.inj hcut
        exact ⟨[], cut, rfl, rfl⟩
      | cons c'' front =>
        obtain ⟨rfl, hrest⟩ := List.cons.inj hcut
        obtain ⟨left, right, rfl, hleft⟩ := ih (start + c'.utf8Size) hrest (by
          simpa only [laid_kept, Text.size, Nat.add_assoc] using h)
        exact ⟨.kept c' :: left, right, rfl, congrArg (c' :: ·) hleft⟩
    | replaced old new =>
      have hold := h (⟨start, start + Text.size old⟩, new) (by simp)
      dsimp only at hold
      rw [oldText_replaced] at hcut
      rcases Text.append_eq_append_cases hcut.symm with ⟨more, rfl, hrest⟩ | ⟨more, hmore, rfl, -⟩
      · obtain ⟨left, right, rfl, hleft⟩ := ih (start + Text.size old) hrest fun patch hpatch => by
          have hapart := h patch (List.mem_cons_of_mem _ hpatch)
          rwa [Text.size_append, ← Nat.add_assoc] at hapart
        exact ⟨.replaced old new :: left, right, rfl, congrArg (old ++ ·) hleft⟩
      · have hpos := Text.size_pos hmore
        rw [Text.size_append] at hold
        omega

/-- What a batch does to the origin of one untouched character that it keeps. -/
theorem trace_rewrite_iff (hsound : IsSound line draft) (hleads : Leads line draft)
    {left right : List Fragment} {c : Char} (hsolid : IsSolid (left ++ .kept c :: right))
    {front back : List Cell} {first : Nat} (hcells : draft.cells = front ++ ⟨c, some first⟩ :: back)
    (hfront : Cell.text front = oldText left) :
    (draft.rewrite (laid 0 (left ++ .kept c :: right))).origin.trace
        ⟨Text.size (newText left), Text.size (newText left) + c.utf8Size⟩ =
          ⟨first, first + c.utf8Size⟩ ↔
      ¬ ∃ patch, Misplaces draft.origin.regions (laid 0 (left ++ .kept c :: right)) patch
        (Text.size (Cell.text front)) := by
  obtain ⟨hsize, htrace⟩ := hleads.trace_cell hcells
  rw [← hsound.size] at hsize
  exact (trace_recordBatch_iff hsound.ordered hsolid (congrArg Text.size hfront) rfl
    (hsound.apart front _ back hcells rfl)).2 first hsize htrace

/-- A batch that misplaces no untouched text keeps the origin of all stretches of it. -/
theorem trace_rewrite_original (hsound : IsSound line draft) (hleads : Leads line draft)
    {left right : List Fragment} {text : Text} (hne : text ≠ [])
    (hsolid : IsSolid (left ++ (keep text ++ right))) {front back : List Cell} {first : Nat}
    (hcells : draft.cells = front ++ (Cell.original first text ++ back))
    (hfront : Cell.text front = oldText left)
    (hnone : ¬ ∃ patch position, draft.UntouchedAt position ∧
      Misplaces draft.origin.regions (laid 0 (left ++ (keep text ++ right))) patch position) :
    (draft.rewrite (laid 0 (left ++ (keep text ++ right)))).origin.trace
        ⟨Text.size (newText left), Text.size (newText left) + Text.size text⟩ =
      ⟨first, first + Text.size text⟩ := by
  have hcell : ∀ before c after, text = before ++ c :: after →
      (draft.rewrite (laid 0 (left ++ (keep text ++ right)))).origin.trace
          ⟨Text.size (newText left) + Text.size before,
            Text.size (newText left) + Text.size before + c.utf8Size⟩ =
        ⟨first + Text.size before, first + Text.size before + c.utf8Size⟩ := by
    rintro before c after rfl
    have hsplit : left ++ (keep (before ++ c :: after) ++ right) =
        (left ++ keep before) ++ .kept c :: (keep after ++ right) := by
      rw [keep_append, keep_cons, List.append_assoc, List.append_assoc, List.cons_append]
    rw [Cell.original_append, Cell.original, List.append_assoc, ← List.append_assoc,
      List.cons_append] at hcells
    rw [hsplit] at hsolid hnone ⊢
    have htext : Cell.text (front ++ Cell.original first before) = oldText (left ++ keep before) := by
      rw [Cell.text_append, Cell.text_original, oldText_append, oldText_keep, hfront]
    have htrace := (trace_rewrite_iff hsound hleads hsolid hcells htext).2 (by
      rintro ⟨patch, hpatch⟩
      exact hnone ⟨patch, _, ⟨_, _, _, hcells, rfl, rfl⟩, hpatch⟩)
    rwa [newText_append, newText_keep, Text.size_append] at htrace
  obtain ⟨c, after, hfirst⟩ := List.exists_cons_of_ne_nil hne
  have hlast := (List.dropLast_append_getLast hne).symm
  have hsize := congrArg Text.size hlast
  rw [Text.size_append] at hsize
  have hpos : 0 < Text.size [text.getLast hne] := Text.size_pos (List.cons_ne_nil _ _)
  have hend := hcell _ _ [] hlast
  rw [Nat.add_assoc, Nat.add_assoc first] at hend
  rw [hsize]
  exact trace_of_ends (hcell [] c after hfirst) hend (Nat.le_add_right ..) (by omega)

/-- **What one batch preserves.** If the origin map leads untouched text back rightly, then it does so after a
batch exactly if no patch of the batch misplaces untouched text. -/
theorem leads_rewrite_iff (hsound : IsSound line draft) (hleads : Leads line draft)
    (hbatch : IsBatch draft.text batch) :
    Leads line (draft.rewrite batch) ↔ ¬ ∃ patch position, draft.UntouchedAt position ∧
      Misplaces draft.origin.regions batch patch position := by
  obtain ⟨cut, hsolid, hcut, rfl⟩ := hbatch.exists_cut
  constructor
  · rintro hafter ⟨patch, position, ⟨front, ⟨c, first⟩, back, hcells, rfl, hsome⟩, hmisplaces⟩
    obtain ⟨first, rfl⟩ := Option.isSome_iff_exists.1 hsome
    obtain ⟨left, right, rfl, hleft⟩ := exists_kept_of_apart 0
      (hcut.trans ((congrArg Cell.text hcells).trans (Cell.text_append ..))) fun other hother => by
        have hlast := hmisplaces.last other hother
        have hbehind := hmisplaces.behind
        rw [Nat.zero_add]
        omega
    obtain ⟨front', back', hcells', hfront'⟩ :=
      Cell.exists_of_kept 0 ⟨c, some first⟩ back hsolid hleft.symm
    rw [← hcells] at hcells'
    have htrace := (hafter.trace_cell hcells').2
    rw [hfront'] at htrace
    exact (trace_rewrite_iff hsound hleads hsolid hcells hleft.symm).1 htrace ⟨patch, hmisplaces⟩
  · intro hnone front inside back hcells hne huntouched
    obtain ⟨left, right, front', back', rfl, hcells', hfront', hfront⟩ :=
      Cell.exists_of_untouched hsolid 0 hcut.symm hcells hne huntouched
    obtain ⟨lead, text, tail, hline, rfl⟩ := hsound.contiguous front' inside back' hcells' hne huntouched
    have hnil : text ≠ [] := by
      rintro rfl
      exact hne rfl
    rw [Cell.text_original] at hsolid hnone ⊢
    rw [hfront]
    exact ⟨lead, text, tail, hline, rfl,
      trace_rewrite_original hsound hleads hnil hsolid hcells' hfront' hnone⟩

/-- A draft after the first of its batches is sound. -/
theorem isSound_foldl {front back : List (List Patch)} (hsound : IsSound line draft)
    (haccepts : draft.Accepts (front ++ back)) :
    IsSound line (front.foldl rewrite draft) ∧ (front.foldl rewrite draft).Accepts back := by
  induction front generalizing draft with
  | nil => exact ⟨hsound, haccepts⟩
  | cons batch front ih => exact ih (hsound.rewrite haccepts.1) haccepts.2

/-! ### Batches that take regions whole -/

/-- No patch of a batch begins or ends inside a region. -/
def Aligned (regions : List Region) (batch : List Patch) : Prop :=
  ∀ patch ∈ batch, ∀ region ∈ regions, region.now.Apart patch.1 ∨ region.now.Within patch.1

/-- A place outside of the regions of a history lies between two of its fragments. -/
theorem splits_of_outside {history : List Fragment} {front back : Text} (first now : Nat)
    (htext : newText history = front ++ back)
    (h : ∀ region ∈ regionsFrom first now history,
      now + Text.size front ≤ region.now.start ∨ region.now.stop ≤ now + Text.size front) :
    Splits history front := by
  induction history generalizing front first now with
  | nil =>
    obtain ⟨rfl, -⟩ := List.append_eq_nil_iff.1 htext.symm
    exact ⟨[], [], rfl, rfl⟩
  | cons fragment history ih =>
    by_cases hfront : front = []
    · exact ⟨[], fragment :: history, rfl, hfront.symm⟩
    have hpos := Text.size_pos hfront
    cases fragment with
    | kept c =>
      obtain ⟨c', front, rfl⟩ := List.exists_cons_of_ne_nil hfront
      obtain ⟨rfl, hrest⟩ := List.cons.inj htext
      rw [Text.size, ← Nat.add_assoc] at h
      obtain ⟨left, right, rfl, hleft⟩ := ih (first + c.utf8Size) (now + c.utf8Size) hrest h
      exact ⟨.kept c :: left, right, rfl, congrArg (c :: ·) hleft⟩
    | replaced old new =>
      have hnew := h _ (List.mem_cons_self ..)
      dsimp only at hnew
      rw [newText_replaced] at htext
      rcases Text.append_eq_append_cases htext.symm with ⟨more, rfl, hrest⟩ | ⟨more, hmore, rfl, -⟩
      · rw [Text.size_append, ← Nat.add_assoc] at h
        obtain ⟨left, right, rfl, hleft⟩ := ih (first + Text.size old) (now + Text.size new) hrest
          fun region hregion => h region (List.mem_cons_of_mem _ hregion)
        exact ⟨.replaced old new :: left, right, rfl, congrArg (new ++ ·) hleft⟩
      · have := Text.size_pos hmore
        rw [Text.size_append] at hnew
        omega

/-- A draft whose origin map is that of a history. -/
structure HasHistory (line : Text) (draft : Draft) (history : List Fragment) : Prop where
  solid : IsSolid history
  first : oldText history = line
  text_eq : draft.text = newText history
  origin_eq : draft.origin = originOf history

theorem hasHistory_ofLine (line : Text) : HasHistory line (ofLine line) (keep line) where
  solid := isSolid_keep line
  first := oldText_keep line
  text_eq := by
    rw [newText_keep]
    exact Cell.text_original 0 line
  origin_eq := (originOf_keep line).symm

/-- A batch that takes regions whole cuts between the fragments of the history. -/
theorem HasHistory.splits {history cut : List Fragment} (h : HasHistory line draft history)
    (hsolid : IsSolid cut) (hcut : oldText cut = draft.text)
    (haligned : Aligned draft.origin.regions (laid 0 cut)) {left right : List Fragment} {old new : Text}
    (hsplit : cut = left ++ .replaced old new :: right) :
    Splits history (oldText left) ∧ Splits history (oldText left ++ old) := by
  subst hsplit
  have hpos := Text.size_pos (hsolid old new (by simp)).1
  have hmem : (⟨Text.size (oldText left), Text.size (oldText left) + Text.size old⟩, new) ∈
      laid 0 (left ++ .replaced old new :: right) := by
    rw [laid_append, laid_replaced, Nat.zero_add]
    simp
  have hregion : ∀ region ∈ regionsFrom 0 0 history,
      region.now.Apart ⟨Text.size (oldText left), Text.size (oldText left) + Text.size old⟩ ∨
        region.now.Within ⟨Text.size (oldText left), Text.size (oldText left) + Text.size old⟩ := by
    have hregions := haligned _ hmem
    rwa [h.origin_eq] at hregions
  have htext : newText history = oldText left ++ (old ++ oldText right) := by
    rw [← h.text_eq, ← hcut, oldText_append, oldText_replaced]
  constructor
  · refine splits_of_outside 0 0 htext fun region hmem => ?_
    have hcase := hregion region hmem
    unfold Span.Apart Span.Within at hcase
    dsimp only at hcase
    omega
  · refine splits_of_outside 0 0 (htext.trans (List.append_assoc ..).symm) fun region hmem => ?_
    have hcase := hregion region hmem
    unfold Span.Apart Span.Within at hcase
    dsimp only at hcase
    rw [Text.size_append]
    omega

theorem HasHistory.exists_rewrite {history : List Fragment} (h : HasHistory line draft history)
    (hbatch : IsBatch draft.text batch) (haligned : Aligned draft.origin.regions batch) :
    ∃ history', HasHistory line (draft.rewrite batch) history' := by
  obtain ⟨cut, hsolid, hcut, rfl⟩ := hbatch.exists_cut
  obtain ⟨blocks, rfl, rfl⟩ := exists_blocks h.solid (hcut.trans h.text_eq)
    fun _ _ _ _ hsplit => h.splits hsolid hcut haligned hsplit
  refine ⟨later blocks, isSolid_later h.solid hsolid, (oldText_later blocks).trans h.first, ?_, ?_⟩
  · rw [newText_later]
    exact Cell.text_rewriteFrom hsolid 0 hcut.symm
  · rw [← record_cut h.solid, ← h.origin_eq]
    unfold rewrite Origin.recordBatch laid
    rw [List.map_map]
    rfl

/-- **A batch that takes regions whole misplaces nothing.** -/
theorem HasHistory.not_misplaces {history : List Fragment} (h : HasHistory line draft history)
    (hbatch : IsBatch draft.text batch) (haligned : Aligned draft.origin.regions batch) (patch : Patch)
    (position : Nat) : ¬ Misplaces draft.origin.regions batch patch position := by
  intro hmisplaces
  rcases hmisplaces.wrong with ⟨region, hregion, hstart, hstop⟩ | hwrong
  · have hpatch := (hbatch.solid patch hmisplaces.mem).1
    rcases haligned patch hmisplaces.mem region hregion with hapart | hwithin
    · unfold Span.Apart at hapart
      omega
    · unfold Span.Within at hwithin
      omega
  · obtain ⟨cut, hsolid, hcut, rfl⟩ := hbatch.exists_cut
    obtain ⟨left, old, new, right, hsplit, rfl⟩ := exists_of_mem_laid hmisplaces.mem
    obtain ⟨hfront, hback⟩ := h.splits hsolid hcut haligned hsplit
    obtain ⟨before, rest, rfl, hbefore⟩ := hfront
    rw [← hbefore] at hback
    obtain ⟨inner, after, rfl, hinner⟩ := hback.right h.solid
    -- the start and the end are led back to the two sides of what `inner` was at first
    obtain ⟨hsolidBefore, hsolidRest⟩ := isSolid_append_iff.1 h.solid
    have hstart := startFrom_regionsFrom 0 0 hsolidBefore hsolidRest
    have hstop := stopFrom_regionsFrom 0 0 after
      (isSolid_append_iff.2 ⟨hsolidBefore, (isSolid_append_iff.1 hsolidRest).1⟩)
    rw [List.append_assoc, newText_append, oldText_append, Text.size_append, Text.size_append, hbefore,
      hinner] at hstop
    rw [hbefore] at hstart
    rw [h.origin_eq] at hwrong
    simp only [Nat.zero_add, Int.sub_self, originOf] at hstart hstop hwrong
    rw [hstart, hstop] at hwrong
    omega

/-- A draft whose batches have taken regions whole has a history. -/
theorem exists_hasHistory_foldl {front back : List (List Patch)} {history : List Fragment}
    (h : HasHistory line draft history) (haccepts : draft.Accepts (front ++ back))
    (haligned : ∀ before batch after, front = before ++ batch :: after →
      Aligned (before.foldl rewrite draft).origin.regions batch) :
    ∃ history', HasHistory line (front.foldl rewrite draft) history' := by
  induction front generalizing draft history with
  | nil => exact ⟨history, h⟩
  | cons batch front ih =>
    obtain ⟨history', h'⟩ := h.exists_rewrite haccepts.1 (haligned [] batch front rfl)
    exact ih h' haccepts.2 fun before other after hsplit =>
      haligned (batch :: before) other after (by rw [hsplit, List.cons_append])

/-- **When the origin map tracks untouched text.** For every line and all batches that are applied to it and
recorded one after the other: if no patch begins or ends inside a region, the origin map leads untouched text
back rightly at every moment; and in general it does so at every moment if and only if no patch of any batch
misplaces untouched text. -/
theorem leads_iff_none_misplaced (line : Text) (batches : List (List Patch))
    (haccepts : (ofLine line).Accepts batches) :
    ((∀ front batch back, batches = front ++ batch :: back →
        Aligned (front.foldl rewrite (ofLine line)).origin.regions batch) →
      ∀ front back, batches = front ++ back → Leads line (front.foldl rewrite (ofLine line))) ∧
    ((∀ front back, batches = front ++ back → Leads line (front.foldl rewrite (ofLine line))) ↔
      ∀ front batch back, batches = front ++ batch :: back →
        ¬ ∃ patch position, (front.foldl rewrite (ofLine line)).UntouchedAt position ∧
          Misplaces (front.foldl rewrite (ofLine line)).origin.regions batch patch position) := by
  have hstep : ∀ front batch back, batches = front ++ batch :: back →
      Leads line (front.foldl rewrite (ofLine line)) →
        (Leads line ((front ++ [batch]).foldl rewrite (ofLine line)) ↔
          ¬ ∃ patch position, (front.foldl rewrite (ofLine line)).UntouchedAt position ∧
            Misplaces (front.foldl rewrite (ofLine line)).origin.regions batch patch position) := by
    rintro front batch back rfl hleads
    obtain ⟨hsound, hbatch, -⟩ := isSound_foldl (isSound_ofLine line) haccepts
    rw [List.foldl_append]
    exact leads_rewrite_iff hsound hleads hbatch
  have hrun : (∀ front batch back, batches = front ++ batch :: back →
      ¬ ∃ patch position, (front.foldl rewrite (ofLine line)).UntouchedAt position ∧
        Misplaces (front.foldl rewrite (ofLine line)).origin.regions batch patch position) →
      ∀ front back, batches = front ++ back → Leads line (front.foldl rewrite (ofLine line)) := by
    intro hnone front
    induction front using List.reverseRecOn with
    | nil => exact fun _ _ => leads_ofLine line
    | append_singleton front batch ih =>
      intro back hsplit
      rw [List.append_assoc, List.singleton_append] at hsplit
      exact (hstep front batch back hsplit (ih _ hsplit)).2 (hnone front batch back hsplit)
  refine ⟨fun haligned => hrun ?_, fun hleads front batch back hsplit => ?_, hrun⟩
  · rintro front batch back rfl ⟨patch, position, -, hmisplaces⟩
    obtain ⟨_, hbatch, -⟩ := isSound_foldl (isSound_ofLine line) haccepts
    obtain ⟨history, hhistory⟩ := exists_hasHistory_foldl (hasHistory_ofLine line) haccepts
      fun before other after hsplit => haligned before other (after ++ batch :: back) (by
        rw [hsplit, List.append_assoc, List.cons_append])
    exact hhistory.not_misplaces hbatch (haligned front batch back rfl) patch position hmisplaces
  · refine (hstep front batch back hsplit (hleads front _ hsplit)).1 (hleads _ back ?_)
    rw [hsplit, List.append_assoc, List.singleton_append]

/-- A second batch that takes the region of the first one whole, and one that leaves an end of it standing in
front of untouched text. -/
theorem leads_iff_none_misplaced_severed_region :
    let line := "ab".toList
    let whole : List (List Patch) := [[(⟨0, 1⟩, "xyz".toList)], [(⟨0, 3⟩, "w".toList)]]
    let severed : List (List Patch) := [[(⟨0, 1⟩, "xyz".toList)], [(⟨1, 2⟩, "w".toList)]]
    (ofLine line).Accepts whole ∧ (ofLine line).Accepts severed ∧
      (∀ front back, whole = front ++ back → Leads line (front.foldl rewrite (ofLine line))) ∧
      ¬ ∀ front back, severed = front ++ back → Leads line (front.foldl rewrite (ofLine line)) := by
  intro line whole severed
  have hwhole : (ofLine line).Accepts whole := by
    refine ⟨⟨by simp, by simp, ?_⟩, ⟨by simp, by simp, ?_⟩, trivial⟩
    · intro patch hpatch
      rw [List.mem_singleton.1 hpatch]
      exact ⟨⟨[], ['a', 'b'], rfl, rfl⟩, ⟨['a'], ['b'], rfl, rfl⟩⟩
    · intro patch hpatch
      rw [List.mem_singleton.1 hpatch]
      exact ⟨⟨[], ['x', 'y', 'z', 'b'], rfl, rfl⟩, ⟨['x', 'y', 'z'], ['b'], rfl, rfl⟩⟩
  have hsevered : (ofLine line).Accepts severed := by
    refine ⟨hwhole.1, ⟨by simp, by simp, ?_⟩, trivial⟩
    intro patch hpatch
    rw [List.mem_singleton.1 hpatch]
    exact ⟨⟨['x'], ['y', 'z', 'b'], rfl, rfl⟩, ⟨['x', 'y'], ['z', 'b'], rfl, rfl⟩⟩
  have hregions : ((ofLine line).rewrite [(⟨0, 1⟩, "xyz".toList)]).origin.regions = [⟨⟨0, 1⟩, ⟨0, 3⟩⟩] := by
    decide
  refine ⟨hwhole, hsevered, (leads_iff_none_misplaced line whole hwhole).1 ?_, fun h => ?_⟩
  · intro front batch back hsplit patch hpatch region hregion
    rcases front with _ | ⟨first, _ | ⟨second, front⟩⟩
    · cases hregion
    · obtain ⟨rfl, rfl, -⟩ : [(⟨0, 1⟩, "xyz".toList)] = first ∧ [(⟨0, 3⟩, "w".toList)] = batch ∧ [] = back := by
        simpa [whole] using hsplit
      rw [List.mem_singleton.1 hpatch]
      rw [List.foldl_cons, List.foldl_nil, hregions] at hregion
      rw [List.mem_singleton.1 hregion]
      exact .inr ⟨le_rfl, le_rfl⟩
    · simp [whole] at hsplit
  · refine (leads_iff_none_misplaced line severed hsevered).2.1 h [_] _ [] rfl
      ⟨(⟨1, 2⟩, "w".toList), 3, ⟨Cell.written "xyz".toList, ⟨'b', some 1⟩, [], rfl, rfl, rfl⟩, ?_⟩
    rw [List.foldl_cons, List.foldl_nil, hregions]
    exact ⟨by simp, by simp, by simp, by simp, .inl ⟨_, List.mem_singleton_self _, by simp, by simp⟩⟩

end Draft

end Migration
end ScriptUpgrade
