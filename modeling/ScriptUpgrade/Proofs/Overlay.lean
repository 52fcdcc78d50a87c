/-
# Changes laid over a line

Every change says where in the line as it was at first its text stood. So a list of changes can be laid
over that line: of changes that lie one within the other only the last one shows (`outermost`), and the
line with the texts of those in the place of their spans is the line they make (`patch`).

A history is a line in which what shows has been replaced. The changes of a pass and those before it are
told apart by the blocks of both:

| block | shows before the pass | the pass adds | shows after it |
| --- | --- | --- | --- |
| `kept c` | nothing | nothing | nothing |
| `survives first now` | `now` | nothing | `now` |
| `absorbs inner new` | what `inner` has replaced | `new` | `new` |

The changes that show before the pass and do not show after it are those inside a block that absorbs
(`filter_laid`), and what shows after it is what the new history has replaced (`Recounts.append`).
-/

import Mathlib.Data.List.Pairwise
import Mathlib.Data.List.Perm.Basic
import ScriptUpgrade.Migration.Line
import ScriptUpgrade.Proofs.Layers

namespace ScriptUpgrade

/-- Whether a span lies within another one. -/
def Span.Within (inner outer : Span) : Prop :=
  outer.start ≤ inner.start ∧ inner.stop ≤ outer.stop

instance (inner outer : Span) : Decidable (inner.Within outer) :=
  inferInstanceAs (Decidable (_ ∧ _))

/-- Two spans that share no byte. -/
def Span.Apart (left right : Span) : Prop :=
  left.stop ≤ right.start ∨ right.stop ≤ left.start

/-- A byte offset of a text at which a character begins or the text ends. -/
def Text.IsBoundary (text : Text) (offset : Nat) : Prop :=
  ∃ front back, text = front ++ back ∧ Text.size front = offset

namespace Migration

open Fragment

/-- A text and the span in the place of which it is put. -/
abbrev Patch := Span × Text

/-- What a change puts in the place of its span. -/
def Change.patch (change : Change) : Patch :=
  (change.span, change.after)

/-- The changes without those that lie within a later one. -/
def outermost : List Change → List Change
  | [] => []
  | change :: later =>
    if later.any fun other => decide (change.span.Within other.span) then outermost later
    else change :: outermost later

/-- The rest of a line from byte `position` on, with every patch that begins there put in the place of
its span. -/
def patchFrom (patches : List Patch) (position : Nat) : Text → Text
  | [] => []
  | c :: text =>
    (patches.filter fun patch => patch.1.start == position).flatMap Prod.snd ++
      (if patches.any fun patch => patch.1.start ≤ position && position < patch.1.stop then []
        else [c]) ++
      patchFrom patches (position + c.utf8Size) text

/-- A line with patches in the place of their spans. -/
def patch (patches : List Patch) (line : Text) : Text :=
  patchFrom patches 0 line

/-! ### The patches of a history -/

/-- The patches of fragments of which the first starts at byte `start`. -/
def laid (start : Nat) (fragments : List Fragment) : List Patch :=
  (editsFrom start fragments).map fun edit => (edit.span, edit.after)

@[simp] theorem laid_nil (start : Nat) : laid start [] = [] := rfl

@[simp] theorem laid_kept (start : Nat) (c : Char) (fragments : List Fragment) :
    laid start (.kept c :: fragments) = laid (start + c.utf8Size) fragments := rfl

@[simp] theorem laid_replaced (start : Nat) (old new : Text) (fragments : List Fragment) :
    laid start (.replaced old new :: fragments) =
      (⟨start, start + Text.size old⟩, new) :: laid (start + Text.size old) fragments := rfl

theorem laid_append (start : Nat) (left right : List Fragment) :
    laid start (left ++ right) = laid start left ++ laid (start + Text.size (oldText left)) right := by
  rw [laid, editsFrom_append, List.map_append]
  rfl

theorem laid_keep (start : Nat) (text : Text) : laid start (keep text) = [] := by
  induction text generalizing start with
  | nil => rfl
  | cons c text ih => rw [keep_cons, laid_kept, ih]

/-- **A patch of a history stands where one of its fragments stood at first.** -/
theorem exists_of_mem_laid {start : Nat} {fragments : List Fragment} {patch : Patch}
    (h : patch ∈ laid start fragments) :
    ∃ left old new right, fragments = left ++ .replaced old new :: right ∧
      patch = (⟨start + Text.size (oldText left), start + Text.size (oldText left) + Text.size old⟩,
        new) := by
  obtain ⟨edit, hedit, rfl⟩ := List.mem_map.1 h
  obtain ⟨left, right, hfragments, hspan⟩ := exists_of_mem_editsFrom hedit
  exact ⟨left, edit.before, edit.after, right, hfragments, by rw [hspan]⟩

/-- The bounds of a patch. -/
theorem bounds_of_mem_laid {start : Nat} {fragments : List Fragment} {patch : Patch}
    (hsolid : IsSolid fragments) (h : patch ∈ laid start fragments) :
    start ≤ patch.1.start ∧ patch.1.start < patch.1.stop ∧
      patch.1.stop ≤ start + Text.size (oldText fragments) := by
  obtain ⟨left, old, new, right, rfl, rfl⟩ := exists_of_mem_laid h
  have hpos := Text.size_pos (hsolid old new (by simp)).1
  rw [oldText_append, oldText_replaced, Text.size_append, Text.size_append]
  dsimp only
  omega

/-- **The patches of a history stand one after the other.** -/
theorem pairwise_laid (start : Nat) {fragments : List Fragment} (hsolid : IsSolid fragments) :
    (laid start fragments).Pairwise fun left right => left.1.stop ≤ right.1.start := by
  induction fragments generalizing start with
  | nil => exact List.Pairwise.nil
  | cons fragment fragments ih =>
    cases fragment with
    | kept c => exact ih (start + c.utf8Size) hsolid.of_cons
    | replaced old new =>
      rw [laid_replaced, List.pairwise_cons]
      exact ⟨fun patch hpatch => (bounds_of_mem_laid hsolid.of_cons hpatch).1,
        ih (start + Text.size old) hsolid.of_cons⟩

/-! ### Patching a line -/

/-- The order of patches of which no two begin at one place does not matter. -/
theorem patchFrom_perm {patches patches' : List Patch} (h : patches.Perm patches')
    (hstarts : patches'.Pairwise fun left right => left.1.start ≠ right.1.start) (position : Nat)
    (text : Text) : patchFrom patches position text = patchFrom patches' position text := by
  induction text generalizing position with
  | nil => rfl
  | cons c text ih =>
    have hbegun : patches.filter (fun patch => patch.1.start == position) =
        patches'.filter fun patch => patch.1.start == position := by
      have hperm := h.filter fun patch => patch.1.start == position
      have hpairs := hstarts.filter fun patch => patch.1.start == position
      have hmem : ∀ patch ∈ patches'.filter (fun patch => patch.1.start == position),
          patch.1.start = position := by
        intro patch hpatch
        simpa using (List.mem_filter.1 hpatch).2
      generalize patches'.filter (fun patch => patch.1.start == position) = begun at hperm hpairs hmem
      match begun with
      | [] => exact hperm.eq_nil
      | [patch] => exact hperm.eq_singleton
      | left :: right :: _ =>
        have hne := (List.pairwise_cons.1 hpairs).1 right (by simp)
        exact absurd ((hmem left (by simp)).trans (hmem right (by simp)).symm) hne
    have hcovered : patches.any (fun patch => patch.1.start ≤ position && position < patch.1.stop) =
        patches'.any fun patch => patch.1.start ≤ position && position < patch.1.stop := by
      rw [Bool.eq_iff_iff, List.any_eq_true, List.any_eq_true]
      simp only [h.mem_iff]
    rw [patchFrom, patchFrom, hbegun, hcovered, ih]

/-- What stands inside a patch and is the beginning of none falls away. -/
theorem patchFrom_covered {patches : List Patch} {position : Nat} {text : Text} (rest : Text)
    (hcovered : ∃ patch ∈ patches, patch.1.start < position ∧
      position + Text.size text ≤ patch.1.stop)
    (hbegun : ∀ patch ∈ patches, patch.1.start < position ∨ position + Text.size text ≤ patch.1.start) :
    patchFrom patches position (text ++ rest) =
      patchFrom patches (position + Text.size text) rest := by
  induction text generalizing position with
  | nil => rfl
  | cons c text ih =>
    have hpos := Char.utf8Size_pos c
    rw [Text.size] at hcovered hbegun
    obtain ⟨patch, hpatch, hstart, hstop⟩ := hcovered
    have hnone : patches.filter (fun patch => patch.1.start == position) = [] := by
      rw [List.filter_eq_nil_iff]
      intro other hother
      have := hbegun other hother
      simp only [beq_iff_eq]
      omega
    have hany : (patches.any fun patch => patch.1.start ≤ position && position < patch.1.stop) = true := by
      rw [List.any_eq_true]
      refine ⟨patch, hpatch, ?_⟩
      simp only [Bool.and_eq_true, decide_eq_true_eq]
      omega
    rw [List.cons_append, patchFrom, hnone, hany, if_pos rfl, Text.size,
      ih ⟨patch, hpatch, by omega, by omega⟩ fun other hother => by have := hbegun other hother; omega,
      Nat.add_assoc]
    rfl

/-- A character that no patch touches stays. -/
theorem patchFrom_cons_of_away {patches : List Patch} {position : Nat}
    (h : ∀ patch ∈ patches, patch.1.start < patch.1.stop ∧
      (patch.1.stop ≤ position ∨ position < patch.1.start)) (c : Char) (text : Text) :
    patchFrom patches position (c :: text) =
      c :: patchFrom patches (position + c.utf8Size) text := by
  have hnone : patches.filter (fun patch => patch.1.start == position) = [] := by
    rw [List.filter_eq_nil_iff]
    intro patch hpatch
    have := h patch hpatch
    simp only [beq_iff_eq]
    omega
  have hany : (patches.any fun patch => patch.1.start ≤ position && position < patch.1.stop) = false := by
    rw [List.any_eq_false]
    intro patch hpatch
    have := h patch hpatch
    simp only [Bool.and_eq_true, decide_eq_true_eq]
    omega
  rw [patchFrom, hnone, hany]
  rfl

/-- Where one patch alone begins, its text stands in the place of its span. -/
theorem patchFrom_of_begun {past patches : List Patch} {position : Nat} {old : Text} (hne : old ≠ [])
    (hpast : ∀ patch ∈ past, patch.1.start < position)
    (hpatches : ∀ patch ∈ patches, position + Text.size old ≤ patch.1.start) (new rest : Text) :
    patchFrom (past ++ (⟨position, position + Text.size old⟩, new) :: patches) position (old ++ rest) =
      new ++ patchFrom (past ++ (⟨position, position + Text.size old⟩, new) :: patches)
        (position + Text.size old) rest := by
  obtain ⟨c, old, rfl⟩ := List.exists_cons_of_ne_nil hne
  have hpos := Char.utf8Size_pos c
  have hsize : Text.size (c :: old) = c.utf8Size + Text.size old := rfl
  generalize hall : past ++ (⟨position, position + Text.size (c :: old)⟩, new) :: patches = all
  have hmem : (⟨position, position + Text.size (c :: old)⟩, new) ∈ all := by
    rw [← hall]
    simp
  have hone : all.filter (fun patch => patch.1.start == position) =
      [(⟨position, position + Text.size (c :: old)⟩, new)] := by
    have hleft : past.filter (fun patch => patch.1.start == position) = [] := by
      rw [List.filter_eq_nil_iff]
      intro patch hpatch
      have := hpast patch hpatch
      simp only [beq_iff_eq]
      omega
    have hright : patches.filter (fun patch => patch.1.start == position) = [] := by
      rw [List.filter_eq_nil_iff]
      intro patch hpatch
      have := hpatches patch hpatch
      simp only [beq_iff_eq]
      omega
    rw [← hall, List.filter_append, List.filter_cons_of_pos (by simp), hleft, hright]
    rfl
  have hany : (all.any fun patch => patch.1.start ≤ position && position < patch.1.stop) = true := by
    rw [List.any_eq_true]
    refine ⟨_, hmem, ?_⟩
    simp only [Bool.and_eq_true, decide_eq_true_eq]
    omega
  have hrest : patchFrom all (position + c.utf8Size) (old ++ rest) =
      patchFrom all (position + c.utf8Size + Text.size old) rest := by
    refine patchFrom_covered rest ⟨_, hmem, by dsimp only; omega, by dsimp only; omega⟩ fun patch hpatch => ?_
    rw [← hall, List.mem_append, List.mem_cons] at hpatch
    rcases hpatch with hpatch | rfl | hpatch
    · exact Or.inl (Nat.lt_add_right _ (hpast patch hpatch))
    · exact Or.inl (Nat.lt_add_of_pos_right hpos)
    · have := hpatches patch hpatch
      omega
  rw [List.cons_append, patchFrom, hone, hany, hrest, Text.size, ← Nat.add_assoc]
  simp

/-- **A line with the patches of a history is what the history reads now.** `past` are patches that
stand before it. -/
theorem patchFrom_laid (start : Nat) {fragments : List Fragment} (hsolid : IsSolid fragments)
    (past : List Patch) (hpast : ∀ patch ∈ past, patch.1.start < patch.1.stop ∧ patch.1.stop ≤ start) :
    patchFrom (past ++ laid start fragments) start (oldText fragments) = newText fragments := by
  induction fragments generalizing start past with
  | nil => rfl
  | cons fragment fragments ih =>
    cases fragment with
    | kept c =>
      have hpos := Char.utf8Size_pos c
      rw [laid_kept, oldText_kept, newText_kept, patchFrom_cons_of_away, ih _ hsolid.of_cons past]
      · intro patch hpatch
        have := hpast patch hpatch
        omega
      · intro patch hpatch
        rcases List.mem_append.1 hpatch with hpatch | hpatch
        · exact ⟨(hpast patch hpatch).1, Or.inl (hpast patch hpatch).2⟩
        · have hbounds := bounds_of_mem_laid hsolid.of_cons hpatch
          exact ⟨hbounds.2.1, Or.inr (by omega)⟩
    | replaced old new =>
      have hne := (hsolid old new (by simp)).1
      have hpos := Text.size_pos hne
      have hih := ih (start + Text.size old) hsolid.of_cons
        (past ++ [(⟨start, start + Text.size old⟩, new)]) fun patch hpatch => by
          rcases List.mem_append.1 hpatch with hpatch | hpatch
          · have := hpast patch hpatch
            omega
          · rw [List.mem_singleton.1 hpatch]
            dsimp only
            omega
      rw [List.append_assoc, List.singleton_append] at hih
      rw [laid_replaced, oldText_replaced, newText_replaced, patchFrom_of_begun hne, hih]
      · intro patch hpatch
        have := hpast patch hpatch
        omega
      · intro patch hpatch
        exact (bounds_of_mem_laid hsolid.of_cons hpatch).1

/-! ### Blocks -/

/-- What shows of the passes so far after the next pass. -/
def Block.lasting : Block → List Fragment
  | .kept c => [.kept c]
  | .survives first now => [.replaced first now]
  | .absorbs inner _ => keep (oldText inner)

/-- What the next pass adds, in the line as it was at first. -/
def Block.fresh : Block → List Fragment
  | .kept c => [.kept c]
  | .survives first _ => keep first
  | .absorbs inner new => [.replaced (oldText inner) new]

/-- What shows of the passes so far after the next pass. -/
def lasting (blocks : List Block) : List Fragment :=
  blocks.flatMap Block.lasting

/-- What the next pass adds, in the line as it was at first. -/
def fresh (blocks : List Block) : List Fragment :=
  blocks.flatMap Block.fresh

theorem lasting_cons (block : Block) (blocks : List Block) :
    lasting (block :: blocks) = block.lasting ++ lasting blocks := rfl

theorem fresh_cons (block : Block) (blocks : List Block) :
    fresh (block :: blocks) = block.fresh ++ fresh blocks := rfl

theorem oldText_fresh (blocks : List Block) : oldText (fresh blocks) = oldText (earlier blocks) := by
  induction blocks with
  | nil => rfl
  | cons block blocks ih =>
    rw [fresh_cons, earlier_cons, oldText_append, oldText_append, ih]
    cases block <;> simp [Block.fresh, Block.earlier]

theorem laid_keep_append (start : Nat) (text : Text) (fragments : List Fragment) :
    laid start (keep text ++ fragments) = laid (start + Text.size text) fragments := by
  rw [laid_append, laid_keep, oldText_keep, List.nil_append]

/-- The replacements of the next pass are its patches. -/
theorem map_replacementsFrom (first now : Nat) (blocks : List Block) :
    (replacementsFrom first now blocks).map Prod.snd = laid first (fresh blocks) := by
  induction blocks generalizing first now with
  | nil => rfl
  | cons block blocks ih =>
    cases block with
    | kept c => exact ih _ _
    | survives old new =>
      rw [replacementsFrom, ih, fresh_cons, Block.fresh, laid_keep_append]
    | absorbs inner new =>
      rw [replacementsFrom, List.map_cons, ih]
      rfl

/-- **After the next pass what lasts and what it adds shows.** -/
theorem laid_later_perm (start : Nat) (blocks : List Block) :
    (laid start (lasting blocks) ++ laid start (fresh blocks)).Perm (laid start (later blocks)) := by
  induction blocks generalizing start with
  | nil => rfl
  | cons block blocks ih =>
    rw [lasting_cons, fresh_cons, later_cons]
    cases block with
    | kept c => exact ih _
    | survives first now =>
      rw [Block.lasting, Block.fresh, Block.later, laid_keep_append]
      exact (ih _).cons _
    | absorbs inner new =>
      rw [Block.lasting, Block.fresh, Block.later, laid_keep_append]
      exact List.perm_middle.trans ((ih _).cons _)

theorem isSolid_keep (text : Text) : IsSolid (keep text) := by
  intro old new hmem
  simp [keep] at hmem

theorem isSolid_fresh {blocks : List Block} (h : IsSolid (later blocks)) : IsSolid (fresh blocks) := by
  induction blocks with
  | nil => exact h
  | cons block blocks ih =>
    rw [later_cons, isSolid_append_iff] at h
    rw [fresh_cons, isSolid_append_iff]
    refine ⟨?_, ih h.2⟩
    cases block with
    | kept c => exact h.1
    | survives first now => exact isSolid_keep first
    | absorbs inner new => exact h.1

/-- **The patches inside a block that absorbs are those that no longer show.** `past` are patches of the
next pass that stand before the blocks. -/
theorem filter_laid (start : Nat) {blocks : List Block} (hearlier : IsSolid (earlier blocks))
    (hlater : IsSolid (later blocks)) (past : List Patch) (hpast : ∀ patch ∈ past, patch.1.stop ≤ start) :
    (laid start (earlier blocks)).filter
        (fun patch => !(past ++ laid start (fresh blocks)).any fun other =>
          decide (patch.1.Within other.1)) =
      laid start (lasting blocks) := by
  induction blocks generalizing start past with
  | nil => rfl
  | cons block blocks ih =>
    rw [earlier_cons, isSolid_append_iff] at hearlier
    rw [later_cons, isSolid_append_iff] at hlater
    rw [earlier_cons, fresh_cons, lasting_cons]
    cases block with
    | kept c =>
      have hpast' : ∀ patch ∈ past, patch.1.stop ≤ start + c.utf8Size := fun patch hpatch =>
        Nat.le_add_right_of_le (hpast patch hpatch)
      exact ih (start + c.utf8Size) hearlier.2 hlater.2 past hpast'
    | survives first now =>
      have hpos := Text.size_pos (hearlier.1 first now (by simp [Block.earlier])).1
      have hpast' : ∀ patch ∈ past, patch.1.stop ≤ start + Text.size first := fun patch hpatch =>
        Nat.le_add_right_of_le (hpast patch hpatch)
      have hshows : (past ++ laid (start + Text.size first) (fresh blocks)).any (fun other =>
          decide (Span.Within ⟨start, start + Text.size first⟩ other.1)) = false := by
        rw [List.any_eq_false]
        intro other hother
        rw [decide_eq_true_eq]
        rintro ⟨hstart, hstop⟩
        dsimp only at hstart hstop
        rcases List.mem_append.1 hother with hother | hother
        · have := hpast other hother
          omega
        · have := bounds_of_mem_laid (isSolid_fresh hlater.2) hother
          omega
      rw [Block.earlier, Block.fresh, Block.lasting, laid_keep_append, List.singleton_append,
        List.singleton_append, laid_replaced, laid_replaced, List.filter_cons_of_pos (by simpa using hshows),
        ih _ hearlier.2 hlater.2 past hpast']
    | absorbs inner new =>
      have hpast' : ∀ patch ∈ past ++ [(⟨start, start + Text.size (oldText inner)⟩, new)],
          patch.1.stop ≤ start + Text.size (oldText inner) := by
        intro patch hpatch
        rcases List.mem_append.1 hpatch with hpatch | hpatch
        · exact Nat.le_add_right_of_le (hpast patch hpatch)
        · rw [List.mem_singleton.1 hpatch]
      have hih := ih _ hearlier.2 hlater.2 _ hpast'
      rw [List.append_assoc, List.singleton_append] at hih
      have hhidden : (laid start inner).filter (fun patch =>
          !(past ++ (⟨start, start + Text.size (oldText inner)⟩, new) ::
            laid (start + Text.size (oldText inner)) (fresh blocks)).any fun other =>
              decide (patch.1.Within other.1)) = [] := by
        rw [List.filter_eq_nil_iff]
        intro patch hpatch
        have hbounds := bounds_of_mem_laid hearlier.1 hpatch
        have hwithin : patch.1.Within ⟨start, start + Text.size (oldText inner)⟩ :=
          ⟨hbounds.1, hbounds.2.2⟩
        simp [hwithin]
      rw [Block.earlier, Block.fresh, Block.lasting, laid_keep_append, List.singleton_append,
        laid_replaced, laid_append, List.filter_append, hhidden, List.nil_append, hih]

/-! ### What shows -/

/-- Of changes before others, those show that show among themselves and lie within none of the others. -/
theorem outermost_append (left : List Change) {right : List Change}
    (hright : right.Pairwise fun change other => ¬ change.span.Within other.span) :
    outermost (left ++ right) =
      (outermost left).filter (fun change =>
        !right.any fun other => decide (change.span.Within other.span)) ++ right := by
  induction left with
  | nil =>
    induction right with
    | nil => rfl
    | cons change right ih =>
      rw [List.pairwise_cons] at hright
      have hnone : (right.any fun other => decide (change.span.Within other.span)) = false := by
        rw [List.any_eq_false]
        intro other hother
        simpa using hright.1 other hother
      have hih := ih hright.2
      simp only [List.nil_append, outermost, List.filter_nil] at hih ⊢
      rw [hnone, hih]
      rfl
  | cons change left ih =>
    rw [List.cons_append, outermost, outermost, List.any_append]
    by_cases hleft : (left.any fun other => decide (change.span.Within other.span)) = true
    · rw [hleft, Bool.true_or, if_pos rfl, if_pos rfl, ih]
    · rw [Bool.not_eq_true] at hleft
      rw [hleft, Bool.false_or, if_neg Bool.false_ne_true]
      by_cases hother : (right.any fun other => decide (change.span.Within other.span)) = true
      · rw [if_pos hother, ih, List.filter_cons_of_neg (by simp [hother])]
      · rw [if_neg hother, ih, List.filter_cons_of_pos (by simpa using hother), List.cons_append]

theorem outermost_sublist (changes : List Change) : (outermost changes).Sublist changes := by
  induction changes with
  | nil => exact List.Sublist.refl []
  | cons change changes ih =>
    rw [outermost]
    split
    · exact ih.cons change
    · exact ih.cons_cons change

/-- A history recounts changes of a line if what shows of them is what it has replaced. -/
structure Recounts (line : Text) (history : List Fragment) (changes : List Change) : Prop where
  first : oldText history = line
  solid : IsSolid history
  shows : ((outermost changes).map Change.patch).Perm (laid 0 history)

/-- **The changes of the next pass are recounted by the new history.** -/
theorem Recounts.append {line : Text} {blocks : List Block} {changes new : List Change}
    (h : Recounts line (earlier blocks) changes) (hcut : IsSolid (cut blocks))
    (hnew : new.map Change.patch = laid 0 (fresh blocks)) :
    Recounts line (later blocks) (changes ++ new) where
  first := (oldText_later blocks).trans h.first
  solid := isSolid_later h.solid hcut
  shows := by
    have hlater := isSolid_later h.solid hcut
    have hfresh := isSolid_fresh hlater
    have hpairs : new.Pairwise fun change other => ¬ change.span.Within other.span := by
      have hlaid := pairwise_laid 0 hfresh
      rw [← hnew, List.pairwise_map] at hlaid
      refine hlaid.imp_of_mem fun {change other} hchange _ hstop hwithin => ?_
      have hmem : change.patch ∈ laid 0 (fresh blocks) := hnew ▸ List.mem_map_of_mem hchange
      have hbounds := bounds_of_mem_laid hfresh hmem
      have hstart := hwithin.1
      dsimp only [Change.patch] at hstop hbounds
      omega
    have hfilter : ((outermost changes).filter fun change =>
        !new.any fun other => decide (change.span.Within other.span)).map Change.patch =
          ((outermost changes).map Change.patch).filter fun patch =>
            !(laid 0 (fresh blocks)).any fun other => decide (patch.1.Within other.1) := by
      rw [List.filter_map, ← hnew]
      simp only [List.any_map]
      rfl
    have hlasting := filter_laid 0 h.solid hlater [] (by simp)
    rw [List.nil_append] at hlasting
    rw [outermost_append changes hpairs, List.map_append, hfilter, hnew]
    refine List.Perm.trans ?_ (laid_later_perm 0 blocks)
    rw [← hlasting]
    exact (h.shows.filter _).append_right _

/-- **What shows of recounted changes stands apart.** -/
theorem Recounts.pairwise {line : Text} {history : List Fragment} {changes : List Change}
    (h : Recounts line history changes) :
    (outermost changes).Pairwise fun left right => left.span.Apart right.span := by
  have hlaid : (laid 0 history).Pairwise fun left right => left.1.Apart right.1 :=
    (pairwise_laid 0 h.solid).imp Or.inl
  have hsymm : ∀ {left right : Patch}, left.1.Apart right.1 → right.1.Apart left.1 := Or.symm
  have hmap := (h.shows.pairwise_iff hsymm).2 hlaid
  rwa [List.pairwise_map] at hmap

/-- **A line with what shows of recounted changes is what the history reads now.** -/
theorem Recounts.patch_eq {line : Text} {history : List Fragment} {changes : List Change}
    (h : Recounts line history changes) :
    patch ((outermost changes).map Change.patch) line = newText history := by
  have hstarts : (laid 0 history).Pairwise fun left right => left.1.start ≠ right.1.start := by
    refine (pairwise_laid 0 h.solid).imp_of_mem fun hleft _ hstop => ?_
    have := bounds_of_mem_laid h.solid hleft
    omega
  unfold patch
  rw [patchFrom_perm h.shows hstarts, ← h.first]
  exact patchFrom_laid 0 h.solid [] (by simp)

/-! ### Passes -/

/-- **A pass lays its changes over the line as it was at first.** -/
theorem pass_eq {keyword : Text} {rule : Rule} {blocks : List Block} (changes : List Change)
    (hsolid : IsSolid (earlier blocks))
    (hcut : cut blocks = fragments keyword rule (newText (earlier blocks))) :
    ∃ new, new.map Change.patch = laid 0 (fresh blocks) ∧ (∀ change ∈ new, change.rule = rule) ∧
      pass keyword ⟨newText (earlier blocks), originOf (earlier blocks), changes⟩ rule =
        ⟨newText (later blocks), originOf (later blocks), changes ++ new⟩ := by
  refine ⟨(edits (cut blocks)).map fun edit =>
    ⟨rule, edit.before, edit.after, (originOf (earlier blocks)).trace edit.span⟩, ?_, ?_, ?_⟩
  · rw [← map_replacementsFrom 0 0, List.map_map]
    have htrace := congrArg (List.map Prod.snd) (trace_cut [] blocks hsolid)
    rw [List.map_map] at htrace
    exact htrace
  · intro change hchange
    obtain ⟨edit, _, rfl⟩ := List.mem_map.1 hchange
    rfl
  · unfold pass
    rw [newText_later, ← record_cut hsolid, hcut]

end Migration
end ScriptUpgrade
