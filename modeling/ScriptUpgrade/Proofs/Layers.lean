/-
# One pass on top of others

What the passes so far have made of a line is again a list of fragments: read with their old texts they
are the line as it was at first, read with their new texts they are the line as it is now. The next
pass cuts the line of now. If no stretch that it replaces begins or ends inside a stretch that was
replaced before, the two lists can be read as one list of blocks:

| block | before | the next pass | together |
| --- | --- | --- | --- |
| `kept c` | keeps `c` | keeps `c` | keeps `c` |
| `survives first now` | has replaced `first` by `now` | keeps `now` | has replaced `first` by `now` |
| `absorbs inner new` | is `inner` | replaces what `inner` reads now by `new` | has replaced what `inner` read at first by `new` |

The origin map of a line holds the regions of that history (`regionsFrom`). It leads the stretches of
the next pass back to where they stood at first (`trace_cut`), and after recording them it is the
origin map of the new history (`record_cut`).
-/

import Mathlib.Data.List.TakeDrop
import ScriptUpgrade.Migration.Origin
import ScriptUpgrade.Proofs.Replacement

namespace ScriptUpgrade
namespace Text

@[simp] theorem size_nil : size [] = 0 := rfl

theorem size_pos {text : Text} (h : text ≠ []) : 0 < size text := by
  obtain ⟨c, text, rfl⟩ := List.exists_cons_of_ne_nil h
  have := Char.utf8Size_pos c
  rw [size]
  omega

end Text

namespace Migration

open Fragment

/-- Fragments that replace something by something. -/
def IsSolid (fragments : List Fragment) : Prop :=
  ∀ old new, .replaced old new ∈ fragments → old ≠ [] ∧ new ≠ []

theorem IsSolid.of_cons {fragment : Fragment} {fragments : List Fragment}
    (h : IsSolid (fragment :: fragments)) : IsSolid fragments :=
  fun old new hmem => h old new (List.mem_cons_of_mem _ hmem)

theorem isSolid_append_iff {left right : List Fragment} :
    IsSolid (left ++ right) ↔ IsSolid left ∧ IsSolid right := by
  constructor
  · intro h
    exact ⟨fun old new hmem => h old new (List.mem_append_left _ hmem),
      fun old new hmem => h old new (List.mem_append_right _ hmem)⟩
  · rintro ⟨hleft, hright⟩ old new hmem
    rcases List.mem_append.1 hmem with hmem | hmem
    · exact hleft old new hmem
    · exact hright old new hmem

theorem IsSolid.eq_nil_of_newText {fragments : List Fragment} (h : IsSolid fragments)
    (hnew : newText fragments = []) : fragments = [] := by
  cases fragments with
  | nil => rfl
  | cons fragment fragments =>
    cases fragment with
    | kept c => simp at hnew
    | replaced old new =>
      rw [newText_replaced, List.append_eq_nil_iff] at hnew
      exact absurd hnew.1 (h old new (by simp)).2

/-! ### Blocks -/

/-- A piece of a line at which the passes so far and the next pass can be told apart. -/
inductive Block where
  | kept (c : Char)
  | survives (first now : Text)
  | absorbs (inner : List Fragment) (new : Text)
deriving DecidableEq, Repr

namespace Block

/-- What the passes so far have made of the block. -/
def earlier : Block → List Fragment
  | .kept c => [.kept c]
  | .survives first now => [.replaced first now]
  | .absorbs inner _ => inner

/-- What the next pass makes of it. -/
def cut : Block → List Fragment
  | .kept c => [.kept c]
  | .survives _ now => keep now
  | .absorbs inner new => [.replaced (newText inner) new]

/-- What all of them together make of it. -/
def later : Block → List Fragment
  | .kept c => [.kept c]
  | .survives first now => [.replaced first now]
  | .absorbs inner new => [.replaced (oldText inner) new]

end Block

/-- What the passes so far have made of a line. -/
def earlier (blocks : List Block) : List Fragment :=
  blocks.flatMap Block.earlier

/-- What the next pass makes of the line of now. -/
def cut (blocks : List Block) : List Fragment :=
  blocks.flatMap Block.cut

/-- What all passes together make of a line. -/
def later (blocks : List Block) : List Fragment :=
  blocks.flatMap Block.later

theorem earlier_cons (block : Block) (blocks : List Block) :
    earlier (block :: blocks) = block.earlier ++ earlier blocks := rfl

theorem cut_cons (block : Block) (blocks : List Block) :
    cut (block :: blocks) = block.cut ++ cut blocks := rfl

theorem later_cons (block : Block) (blocks : List Block) :
    later (block :: blocks) = block.later ++ later blocks := rfl

theorem earlier_append (left right : List Block) :
    earlier (left ++ right) = earlier left ++ earlier right := by
  simp [earlier]

theorem cut_append (left right : List Block) : cut (left ++ right) = cut left ++ cut right := by
  simp [cut]

theorem later_append (left right : List Block) :
    later (left ++ right) = later left ++ later right := by
  simp [later]

/-- **The next pass cuts the line that the passes so far have made.** -/
theorem oldText_cut (blocks : List Block) : oldText (cut blocks) = newText (earlier blocks) := by
  induction blocks with
  | nil => rfl
  | cons block blocks ih =>
    rw [cut_cons, earlier_cons, oldText_append, newText_append, ih]
    cases block <;> simp [Block.cut, Block.earlier]

/-- **All passes together begin with the line as it was at first.** -/
theorem oldText_later (blocks : List Block) : oldText (later blocks) = oldText (earlier blocks) := by
  induction blocks with
  | nil => rfl
  | cons block blocks ih =>
    rw [later_cons, earlier_cons, oldText_append, oldText_append, ih]
    cases block <;> simp [Block.later, Block.earlier]

/-- **All passes together end with what the next pass makes.** -/
theorem newText_later (blocks : List Block) : newText (later blocks) = newText (cut blocks) := by
  induction blocks with
  | nil => rfl
  | cons block blocks ih =>
    rw [later_cons, cut_cons, newText_append, newText_append, ih]
    cases block <;> simp [Block.later, Block.cut]

theorem IsSolid.oldText_ne_nil {fragments : List Fragment} (h : IsSolid fragments)
    (hne : fragments ≠ []) : oldText fragments ≠ [] := by
  cases fragments with
  | nil => exact absurd rfl hne
  | cons fragment fragments =>
    cases fragment with
    | kept c => simp
    | replaced old new => simp [(h old new (by simp)).1]

/-- The new history replaces something by something. -/
theorem isSolid_later {blocks : List Block} (hearlier : IsSolid (earlier blocks))
    (hcut : IsSolid (cut blocks)) : IsSolid (later blocks) := by
  induction blocks with
  | nil => exact hearlier
  | cons block blocks ih =>
    rw [earlier_cons, isSolid_append_iff] at hearlier
    rw [cut_cons, isSolid_append_iff] at hcut
    rw [later_cons, isSolid_append_iff]
    refine ⟨?_, ih hearlier.2 hcut.2⟩
    cases block with
    | kept c => exact hearlier.1
    | survives first now => exact hearlier.1
    | absorbs inner new =>
      have hnew := hcut.1 (newText inner) new (by simp [Block.cut])
      have hinner : inner ≠ [] := by
        rintro rfl
        exact hnew.1 rfl
      intro old new' hmem
      simp only [Block.later, List.mem_singleton, replaced.injEq] at hmem
      rw [hmem.1, hmem.2]
      exact ⟨hearlier.1.oldText_ne_nil hinner, hnew.2⟩

/-! ### Regions -/

/-- The regions of a history of which the first fragment stood at `first` and stands at `now`. -/
def regionsFrom (first now : Nat) : List Fragment → List Region
  | [] => []
  | .kept c :: fragments => regionsFrom (first + c.utf8Size) (now + c.utf8Size) fragments
  | .replaced old new :: fragments =>
    ⟨⟨first, first + Text.size old⟩, ⟨now, now + Text.size new⟩⟩ ::
      regionsFrom (first + Text.size old) (now + Text.size new) fragments

theorem le_start_of_mem_regionsFrom {first now : Nat} {fragments : List Fragment} {region : Region}
    (h : region ∈ regionsFrom first now fragments) : now ≤ region.now.start := by
  induction fragments generalizing first now with
  | nil => simp [regionsFrom] at h
  | cons fragment fragments ih =>
    cases fragment with
    | kept c => exact le_trans (Nat.le_add_right _ _) (ih h)
    | replaced old new =>
      rcases List.mem_cons.1 h with rfl | h
      · exact le_rfl
      · exact le_trans (Nat.le_add_right _ _) (ih h)

theorem regionsFrom_append (first now : Nat) (left right : List Fragment) :
    regionsFrom first now (left ++ right) = regionsFrom first now left ++
      regionsFrom (first + Text.size (oldText left)) (now + Text.size (newText left)) right := by
  induction left generalizing first now with
  | nil => rfl
  | cons fragment left ih =>
    cases fragment with
    | kept c =>
      rw [List.cons_append, regionsFrom, regionsFrom, ih, oldText_kept, newText_kept, Text.size,
        Text.size, ← Nat.add_assoc, ← Nat.add_assoc]
    | replaced old new =>
      rw [List.cons_append, regionsFrom, regionsFrom, ih, oldText_replaced, newText_replaced,
        Text.size_append, Text.size_append, ← Nat.add_assoc, ← Nat.add_assoc, List.cons_append]

/-! ### Leading back -/

theorem moved_sub (first now : Nat) : moved now ((first : Int) - now) = first := by
  unfold moved
  omega

/-- A start in front of all regions has moved as far as the text here. -/
theorem startFrom_of_lt {position : Nat} {shift : Int} {regions : List Region}
    (h : ∀ region ∈ regions, position < region.now.start) :
    Origin.startFrom position shift regions = moved position shift := by
  cases regions with
  | nil => rfl
  | cons region regions => rw [Origin.startFrom, if_pos (h region (List.mem_cons_self ..))]

/-- An end in front of all regions, or right before the first one, has moved as far as the text
here. -/
theorem stopFrom_of_le {position : Nat} {shift : Int} {regions : List Region}
    (h : ∀ region ∈ regions, position ≤ region.now.start) :
    Origin.stopFrom position shift regions = moved position shift := by
  cases regions with
  | nil => rfl
  | cons region regions => rw [Origin.stopFrom, if_pos (h region (List.mem_cons_self ..))]

/-- **A start between two fragments is led back** to the place between their old texts. -/
theorem startFrom_regionsFrom (first now : Nat) {left right : List Fragment} (hleft : IsSolid left)
    (hright : IsSolid right) :
    Origin.startFrom (now + Text.size (newText left)) ((first : Int) - now)
      (regionsFrom first now (left ++ right)) = first + Text.size (oldText left) := by
  induction left generalizing first now with
  | nil =>
    cases right with
    | nil => exact moved_sub first now
    | cons fragment right =>
      cases fragment with
      | kept c =>
        rw [List.nil_append, regionsFrom]
        refine (startFrom_of_lt fun region hregion => ?_).trans (moved_sub first now)
        have hstart := le_start_of_mem_regionsFrom hregion
        have hpos := Char.utf8Size_pos c
        simp only [newText_nil, Text.size_nil]
        omega
      | replaced old new =>
        have hpos := Text.size_pos (hright old new (by simp)).2
        rw [List.nil_append, regionsFrom, Origin.startFrom, if_neg (by simp), if_pos (by simpa using hpos)]
        rfl
  | cons fragment left ih =>
    cases fragment with
    | kept c =>
      have hih := ih (first + c.utf8Size) (now + c.utf8Size) hleft.of_cons
      rw [List.cons_append, regionsFrom, newText_kept, oldText_kept, Text.size, Text.size,
        ← Nat.add_assoc, ← Nat.add_assoc, ← hih]
      congr 1
      omega
    | replaced old new =>
      have hih := ih (first + Text.size old) (now + Text.size new) hleft.of_cons
      rw [List.cons_append, regionsFrom, newText_replaced, oldText_replaced, Text.size_append,
        Text.size_append, ← Nat.add_assoc, ← Nat.add_assoc, Origin.startFrom,
        if_neg (by dsimp only; omega), if_neg (by dsimp only; omega), ← hih]
      rfl

/-- **An end between two fragments is led back** to the place between their old texts. -/
theorem stopFrom_regionsFrom (first now : Nat) {left : List Fragment} (right : List Fragment)
    (hleft : IsSolid left) :
    Origin.stopFrom (now + Text.size (newText left)) ((first : Int) - now)
      (regionsFrom first now (left ++ right)) = first + Text.size (oldText left) := by
  induction left generalizing first now with
  | nil =>
    refine (stopFrom_of_le fun region hregion => ?_).trans (moved_sub first now)
    exact le_start_of_mem_regionsFrom hregion
  | cons fragment left ih =>
    cases fragment with
    | kept c =>
      have hih := ih (first + c.utf8Size) (now + c.utf8Size) hleft.of_cons
      rw [List.cons_append, regionsFrom, newText_kept, oldText_kept, Text.size, Text.size,
        ← Nat.add_assoc, ← Nat.add_assoc, ← hih]
      congr 1
      omega
    | replaced old new =>
      have hpos := Text.size_pos (hleft old new (by simp)).2
      rw [List.cons_append, regionsFrom, newText_replaced, oldText_replaced, Text.size_append,
        Text.size_append, ← Nat.add_assoc, ← Nat.add_assoc, Origin.stopFrom,
        if_neg (by dsimp only; omega)]
      by_cases hnew : newText left = []
      · -- the end of the last region
        rw [hleft.of_cons.eq_nil_of_newText hnew, newText_nil, oldText_nil, Text.size_nil,
          if_pos (by dsimp only; omega)]
        rfl
      · have := Text.size_pos hnew
        have hih := ih (first + Text.size old) (now + Text.size new) hleft.of_cons
        rw [if_neg (by dsimp only; omega), ← hih]
        rfl

/-- The origin map of a history. -/
def originOf (history : List Fragment) : Origin :=
  ⟨Text.size (oldText history), regionsFrom 0 0 history⟩

theorem regionsFrom_keep (first now : Nat) (text : Text) : regionsFrom first now (keep text) = [] := by
  induction text generalizing first now with
  | nil => rfl
  | cons c text ih => rw [keep_cons, regionsFrom, ih]

theorem originOf_keep (line : Text) : originOf (keep line) = Origin.untouched line := by
  rw [originOf, oldText_keep, regionsFrom_keep]
  rfl

/-- **What stands between two places of the line of now stood between the same places at first.** -/
theorem trace_originOf {left inner right : List Fragment} (h : IsSolid (left ++ (inner ++ right))) :
    (originOf (left ++ (inner ++ right))).trace
        ⟨Text.size (newText left), Text.size (newText left) + Text.size (newText inner)⟩ =
      ⟨Text.size (oldText left), Text.size (oldText left) + Text.size (oldText inner)⟩ := by
  obtain ⟨hleft, hrest⟩ := isSolid_append_iff.1 h
  have hstart := startFrom_regionsFrom 0 0 hleft hrest
  have hlead : IsSolid (left ++ inner) :=
    isSolid_append_iff.2 ⟨hleft, (isSolid_append_iff.1 hrest).1⟩
  have hstop := stopFrom_regionsFrom 0 0 right hlead
  rw [List.append_assoc, newText_append, oldText_append, Text.size_append, Text.size_append] at hstop
  simp only [Nat.zero_add, Int.sub_self] at hstart hstop
  unfold Origin.trace originOf
  dsimp only
  rw [hstart, hstop, oldText_append, oldText_append, Text.size_append, Text.size_append]
  congr 1 <;> omega

/-! ### Recording a pass -/

/-- A replacement in front of which regions stand leaves them as they are but for the shift. -/
theorem merge_append {shift : Int} {replacements : List (Span × Span × Nat)} {left right : List Region}
    (h : ∀ replacement ∈ replacements, ∀ region ∈ left, region.now.stop ≤ replacement.1.start) :
    Origin.merge shift replacements (left ++ right) =
      left.map (·.moved shift) ++ Origin.merge shift replacements right := by
  cases replacements with
  | nil => simp [Origin.merge]
  | cons replacement replacements =>
    obtain ⟨span, first, size⟩ := replacement
    have hleft : ∀ region ∈ left, decide (region.now.stop ≤ span.start) = true := fun region hregion =>
      decide_eq_true (h _ (List.mem_cons_self ..) region hregion)
    rw [Origin.merge, Origin.merge]
    simp only [List.span_eq_takeWhile_dropWhile, List.takeWhile_append_of_pos hleft,
      List.dropWhile_append_of_pos hleft, List.map_append, List.append_assoc]

theorem span_eq_nil {regions : List Region} {p : Region → Bool} (h : ∀ region ∈ regions, p region = false) :
    regions.span p = ([], regions) := by
  cases regions with
  | nil => simp [List.span_eq_takeWhile_dropWhile]
  | cons region regions => simp [List.span_eq_takeWhile_dropWhile, h region (List.mem_cons_self ..)]

theorem dropWhile_eq_self {regions : List Region} {p : Region → Bool}
    (h : ∀ region ∈ regions, p region = false) : regions.dropWhile p = regions := by
  cases regions with
  | nil => rfl
  | cons region regions => simp [h region (List.mem_cons_self ..)]

/-- A replacement takes up the regions that it covers, and those behind it stay. -/
theorem merge_covering {shift : Int} {span first : Span} {size : Nat}
    {replacements : List (Span × Span × Nat)} {inside after : List Region}
    (hstop : ∀ region ∈ inside ++ after, span.start < region.now.stop)
    (hinside : ∀ region ∈ inside, region.now.start < span.stop)
    (hafter : ∀ region ∈ after, span.stop ≤ region.now.start) :
    Origin.merge shift ((span, first, size) :: replacements) (inside ++ after) =
      ⟨first, ⟨moved span.start shift, moved span.start shift + size⟩⟩ ::
        Origin.merge (shift + (size - span.size : Int)) replacements after := by
  have hleft : (inside ++ after).span (fun region => decide (region.now.stop ≤ span.start)) =
      ([], inside ++ after) :=
    span_eq_nil fun region hregion => decide_eq_false (Nat.not_le.2 (hstop region hregion))
  have hmet : ∀ region ∈ inside, decide (region.now.start < span.stop) = true := fun region hregion =>
    decide_eq_true (hinside region hregion)
  have hkept : ∀ region ∈ after, decide (region.now.start < span.stop) = false := fun region hregion =>
    decide_eq_false (Nat.not_lt.2 (hafter region hregion))
  rw [Origin.merge]
  simp only [hleft, List.map_nil, List.nil_append]
  rw [List.dropWhile_append_of_pos hmet, dropWhile_eq_self hkept]

/-- The replacements of the next pass: where they stand now, where that stood at first and the new
text. -/
def replacementsFrom (first now : Nat) : List Block → List (Span × Span × Text)
  | [] => []
  | .kept c :: blocks => replacementsFrom (first + c.utf8Size) (now + c.utf8Size) blocks
  | .survives old new :: blocks =>
    replacementsFrom (first + Text.size old) (now + Text.size new) blocks
  | .absorbs inner new :: blocks =>
    (⟨now, now + Text.size (newText inner)⟩, ⟨first, first + Text.size (oldText inner)⟩, new) ::
      replacementsFrom (first + Text.size (oldText inner)) (now + Text.size (newText inner)) blocks

theorem le_start_of_mem_replacementsFrom {first now : Nat} {blocks : List Block}
    {replacement : Span × Span × Text} (h : replacement ∈ replacementsFrom first now blocks) :
    now ≤ replacement.1.start := by
  induction blocks generalizing first now with
  | nil => simp [replacementsFrom] at h
  | cons block blocks ih =>
    cases block with
    | kept c => exact le_trans (Nat.le_add_right _ _) (ih h)
    | survives old new => exact le_trans (Nat.le_add_right _ _) (ih h)
    | absorbs inner new =>
      rcases List.mem_cons.1 h with rfl | h
      · exact le_rfl
      · exact le_trans (Nat.le_add_right _ _) (ih h)

theorem stop_le_of_mem_regionsFrom {first now : Nat} {fragments : List Fragment} {region : Region}
    (hsolid : IsSolid fragments) (h : region ∈ regionsFrom first now fragments) :
    region.now.start < region.now.stop ∧ region.now.stop ≤ now + Text.size (newText fragments) := by
  induction fragments generalizing first now with
  | nil => simp [regionsFrom] at h
  | cons fragment fragments ih =>
    cases fragment with
    | kept c =>
      have := ih hsolid.of_cons h
      rw [newText_kept, Text.size]
      omega
    | replaced old new =>
      have hpos := Text.size_pos (hsolid old new (by simp)).2
      rw [newText_replaced, Text.size_append]
      rcases List.mem_cons.1 h with rfl | h
      · dsimp only
        omega
      · have := ih hsolid.of_cons h
        omega

theorem moved_add {now : Nat} {shift : Int} (h : 0 ≤ now + shift) (n : Nat) :
    moved (now + n) shift = moved now shift + n := by
  unfold moved
  omega

/-- A replacement with the size of its new text, as the origin map takes it. -/
def sized (replacement : Span × Span × Text) : Span × Span × Nat :=
  (replacement.1, replacement.2.1, Text.size replacement.2.2)

/-- **The regions after recording a pass are those of the new history.** -/
theorem merge_regionsFrom (first now : Nat) (shift : Int) (hshift : 0 ≤ now + shift)
    {blocks : List Block} (hsolid : IsSolid (earlier blocks)) :
    Origin.merge shift ((replacementsFrom first now blocks).map sized)
        (regionsFrom first now (earlier blocks)) =
      regionsFrom first (moved now shift) (later blocks) := by
  induction blocks generalizing first now shift with
  | nil => rfl
  | cons block blocks ih =>
    rw [earlier_cons, isSolid_append_iff] at hsolid
    cases block with
    | kept c =>
      have hih := ih (first + c.utf8Size) (now + c.utf8Size) shift (by omega) hsolid.2
      rw [moved_add hshift] at hih
      exact hih
    | survives old new =>
      have hih := ih (first + Text.size old) (now + Text.size new) shift (by omega) hsolid.2
      rw [moved_add hshift] at hih
      have hstops : ∀ replacement ∈
          (replacementsFrom (first + Text.size old) (now + Text.size new) blocks).map sized,
          ∀ region ∈ [(⟨⟨first, first + Text.size old⟩, ⟨now, now + Text.size new⟩⟩ : Region)],
            region.now.stop ≤ replacement.1.start := by
        intro replacement hreplacement region hregion
        obtain ⟨_, hmem, rfl⟩ := List.mem_map.1 hreplacement
        rw [List.mem_singleton.1 hregion]
        exact le_start_of_mem_replacementsFrom hmem
      have hmerge : Origin.merge shift
          ((replacementsFrom (first + Text.size old) (now + Text.size new) blocks).map sized)
          ([⟨⟨first, first + Text.size old⟩, ⟨now, now + Text.size new⟩⟩] ++
            regionsFrom (first + Text.size old) (now + Text.size new) (earlier blocks)) = _ :=
        merge_append hstops
      refine hmerge.trans ?_
      rw [hih]
      simp only [List.map_cons, List.map_nil, Region.moved, moved_add hshift]
      rfl
    | absorbs inner new =>
      have hih := ih (first + Text.size (oldText inner)) (now + Text.size (newText inner))
        (shift + (Text.size new - Text.size (newText inner) : Int)) (by omega) hsolid.2
      have hmoved : moved (now + Text.size (newText inner))
          (shift + (Text.size new - Text.size (newText inner) : Int)) =
            moved now shift + Text.size new := by
        unfold moved
        omega
      rw [hmoved] at hih
      have hsize : (Span.mk now (now + Text.size (newText inner))).size = Text.size (newText inner) :=
        Nat.add_sub_cancel_left ..
      rw [earlier_cons, replacementsFrom, List.map_cons, sized, Block.earlier, regionsFrom_append,
        merge_covering, hsize, hih]
      · rfl
      · -- no region ends before the new one
        intro region hregion
        rw [← regionsFrom_append] at hregion
        have hstart := le_start_of_mem_regionsFrom hregion
        have hstop := (stop_le_of_mem_regionsFrom (isSolid_append_iff.2 hsolid) hregion).1
        dsimp only
        omega
      · intro region hregion
        have hinner : IsSolid inner := hsolid.1
        have hstop := stop_le_of_mem_regionsFrom hinner hregion
        dsimp only
        omega
      · intro region hregion
        exact le_start_of_mem_regionsFrom hregion

theorem editsFrom_keep_append (start : Nat) (text : Text) (fragments : List Fragment) :
    editsFrom start (keep text ++ fragments) = editsFrom (start + Text.size text) fragments := by
  induction text generalizing start with
  | nil => rfl
  | cons c text ih =>
    rw [keep_cons, List.cons_append, editsFrom, ih, Text.size, Nat.add_assoc]

theorem editsFrom_append (start : Nat) (left right : List Fragment) :
    editsFrom start (left ++ right) =
      editsFrom start left ++ editsFrom (start + Text.size (oldText left)) right := by
  induction left generalizing start with
  | nil => rfl
  | cons fragment left ih =>
    cases fragment with
    | kept c => rw [List.cons_append, editsFrom, editsFrom, ih, oldText_kept, Text.size, Nat.add_assoc]
    | replaced old new =>
      rw [List.cons_append, editsFrom, editsFrom, ih, oldText_replaced, Text.size_append, Nat.add_assoc,
        List.cons_append]

/-- **An edit stands where its old text stands**, behind the old texts in front of it. -/
theorem exists_of_mem_editsFrom {start : Nat} {fragments : List Fragment} {edit : Edit}
    (h : edit ∈ editsFrom start fragments) :
    ∃ left right, fragments = left ++ .replaced edit.before edit.after :: right ∧
      edit.span = ⟨start + Text.size (oldText left),
        start + Text.size (oldText left) + Text.size edit.before⟩ := by
  induction fragments generalizing start with
  | nil => cases h
  | cons fragment fragments ih =>
    cases fragment with
    | kept c =>
      obtain ⟨left, right, rfl, hspan⟩ := ih h
      exact ⟨.kept c :: left, right, rfl, by rw [hspan, oldText_kept, Text.size, Nat.add_assoc start]⟩
    | replaced old new =>
      rcases List.mem_cons.1 h with rfl | h
      · exact ⟨[], fragments, rfl, rfl⟩
      · obtain ⟨left, right, rfl, hspan⟩ := ih h
        exact ⟨.replaced old new :: left, right, rfl,
          by rw [hspan, oldText_replaced, Text.size_append, Nat.add_assoc start]⟩

/-- **The origin map leads every stretch of the next pass back** to where the text of its block stood
at first. -/
theorem trace_cut (left right : List Block) (h : IsSolid (earlier (left ++ right))) :
    (editsFrom (Text.size (newText (earlier left))) (cut right)).map
        (fun edit => (edit.span, (originOf (earlier (left ++ right))).trace edit.span, edit.after)) =
      replacementsFrom (Text.size (oldText (earlier left))) (Text.size (newText (earlier left))) right := by
  induction right generalizing left with
  | nil => rfl
  | cons block right ih =>
    have hstep := ih (left ++ [block]) (by rwa [List.append_assoc])
    simp only [List.append_assoc, List.singleton_append, earlier_append left [block], newText_append,
      oldText_append, Text.size_append] at hstep
    cases block with
    | kept c => exact hstep
    | survives old new =>
      have hnew : newText (earlier [.survives old new]) = new := by
        simp [earlier, Block.earlier]
      have hold : oldText (earlier [.survives old new]) = old := by
        simp [earlier, Block.earlier]
      rw [hnew, hold] at hstep
      rw [cut_cons, Block.cut, editsFrom_keep_append, hstep]
      rfl
    | absorbs inner new =>
      have hinner : earlier [.absorbs inner new] = inner := by
        simp [earlier, Block.earlier]
      rw [hinner] at hstep
      rw [cut_cons, Block.cut, List.singleton_append, editsFrom, List.map_cons, hstep, replacementsFrom]
      have hsplit : earlier (left ++ .absorbs inner new :: right) =
          earlier left ++ (inner ++ earlier right) := by
        rw [earlier_append, earlier_cons, Block.earlier]
      rw [hsplit] at h ⊢
      rw [trace_originOf h]

/-- **After recording the next pass the origin map is that of the new history.** -/
theorem record_cut {blocks : List Block} (h : IsSolid (earlier blocks)) :
    (originOf (earlier blocks)).record
        ((edits (cut blocks)).map fun edit => (edit.span, Text.size edit.after)) =
      originOf (later blocks) := by
  have hlist : ((edits (cut blocks)).map fun edit => (edit.span, Text.size edit.after)).map
      (fun edit => (edit.1, (originOf (earlier blocks)).trace edit.1, edit.2)) =
        (replacementsFrom 0 0 blocks).map sized := by
    have htrace := congrArg (List.map sized) (trace_cut [] blocks h)
    rw [List.map_map] at htrace ⊢
    exact htrace
  have hmerge := merge_regionsFrom 0 0 0 (by simp) h
  unfold Origin.record
  rw [hlist]
  unfold originOf
  rw [hmerge, oldText_later]
  rfl

end Migration
end ScriptUpgrade
