/-
# Recording a batch in an origin map

A batch of replacements is recorded in an origin map whatever the map held before: a replacement may lie
between regions, around them, or across the end of one. The regions stay in order (`ordered_merge`), and a place
that the batch leaves alone stays outside of them (`exists_merge_eq_append`).

Where text between two regions is led back to depends on the last region before it alone (`trace_eq_iff`).
After a batch that is either a region of before, and then nothing has changed, or the last replacement in
front of the text. The end of that replacement is led back by the map of before, and this is what can go wrong
(`Misplaces`):

| the last replacement in front | its end is led back to | text behind it |
| --- | --- | --- |
| ends outside all regions, or with one | where it stood, unless its start is led back behind that | is right |
| ends inside a region | where the whole region ended | moves by what is left of the region |

`trace_recordBatch_iff` says that nothing else goes wrong.
-/

import ScriptUpgrade.Proofs.Overlay

namespace ScriptUpgrade
namespace Migration

open Fragment

/-! ### Regions in order -/

/-- Regions that hold something now and stand one after the other, none of them before byte `low`. -/
def Ordered : (low : Nat) → List Region → Prop
  | _, [] => True
  | low, region :: regions =>
    low ≤ region.now.start ∧ region.now.start < region.now.stop ∧ Ordered region.now.stop regions

theorem Ordered.mono {low low' : Nat} {regions : List Region} (h : Ordered low' regions)
    (hle : low ≤ low') : Ordered low regions := by
  cases regions with
  | nil => trivial
  | cons region regions => exact ⟨hle.trans h.1, h.2⟩

theorem Ordered.tail {low : Nat} {region : Region} {regions : List Region}
    (h : Ordered low (region :: regions)) : Ordered low regions :=
  h.2.2.mono (h.1.trans h.2.1.le)

theorem Ordered.bounds {low : Nat} {regions : List Region} (h : Ordered low regions) {region : Region}
    (hmem : region ∈ regions) : low ≤ region.now.start ∧ region.now.start < region.now.stop := by
  induction regions with
  | nil => cases hmem
  | cons first regions ih =>
    rcases List.mem_cons.1 hmem with rfl | hmem
    · exact ⟨h.1, h.2.1⟩
    · exact ih h.tail hmem

theorem Ordered.left {low : Nat} {left right : List Region} (h : Ordered low (left ++ right)) :
    Ordered low left := by
  induction left generalizing low with
  | nil => trivial
  | cons region left ih => exact ⟨h.1, h.2.1, ih h.2.2⟩

theorem Ordered.right {low : Nat} {left right : List Region} (h : Ordered low (left ++ right)) :
    Ordered low right := by
  induction left with
  | nil => exact h
  | cons region left ih => exact ih h.tail

theorem Ordered.append {low middle : Nat} {left right : List Region} (hleft : Ordered low left)
    (hright : Ordered middle right) (hle : low ≤ middle)
    (hstop : ∀ region ∈ left, region.now.stop ≤ middle) : Ordered low (left ++ right) := by
  induction left generalizing low with
  | nil => exact hright.mono hle
  | cons region left ih =>
    exact ⟨hleft.1, hleft.2.1, ih hleft.2.2 (hstop region (List.mem_cons_self ..))
      fun other hother => hstop other (List.mem_cons_of_mem _ hother)⟩

/-- Regions of which each has a property or starts behind a place are split there. -/
theorem Ordered.exists_split {low place : Nat} {regions : List Region} {P : Region → Prop}
    (h : Ordered low regions) (hcase : ∀ region ∈ regions, P region ∨ place ≤ region.now.start) :
    ∃ left right, regions = left ++ right ∧ (∀ region ∈ left, P region) ∧ Ordered place right := by
  induction regions with
  | nil => exact ⟨[], [], rfl, by simp, trivial⟩
  | cons region regions ih =>
    rcases hcase region (List.mem_cons_self ..) with hP | hplace
    · obtain ⟨left, right, rfl, hleft, hright⟩ :=
        ih h.tail fun other hother => hcase other (List.mem_cons_of_mem _ hother)
      exact ⟨region :: left, right, rfl, List.forall_mem_cons.2 ⟨hP, hleft⟩, hright⟩
    · exact ⟨[], region :: regions, rfl, by simp, hplace, h.2⟩

theorem moved_mono {position position' : Nat} (shift : Int) (h : position ≤ position') :
    moved position shift ≤ moved position' shift := by
  unfold moved
  omega

theorem Ordered.map_moved {low : Nat} {shift : Int} {regions : List Region} (h : Ordered low regions)
    (hshift : 0 ≤ low + shift) : Ordered (moved low shift) (regions.map (·.moved shift)) := by
  induction regions generalizing low with
  | nil => trivial
  | cons region regions ih =>
    obtain ⟨hlow, hlt, hrest⟩ := h
    refine ⟨moved_mono shift hlow, ?_, ih hrest (by omega)⟩
    unfold Region.moved moved
    dsimp only
    omega

theorem Ordered.dropWhile {low : Nat} {regions : List Region} (h : Ordered low regions) (place : Nat) :
    Ordered place (regions.dropWhile fun region => decide (region.now.start < place)) := by
  induction regions with
  | nil => trivial
  | cons region regions ih =>
    rw [List.dropWhile_cons]
    split
    · exact ih h.tail
    · next hplace =>
      rw [decide_eq_true_eq, Nat.not_lt] at hplace
      exact ⟨hplace, h.2⟩

/-! ### Leading back -/

/-- How far text behind regions has to be moved to get back to where it stood at first; `shift` if there are
none. -/
def lastBack (shift : Int) (regions : List Region) : Int :=
  regions.foldl (fun _ region => region.back) shift

theorem lastBack_append (shift : Int) (left right : List Region) :
    lastBack shift (left ++ right) = lastBack (lastBack shift left) right :=
  List.foldl_append

theorem lastBack_of_ne_nil {regions : List Region} (h : regions ≠ []) (shift shift' : Int) :
    lastBack shift regions = lastBack shift' regions := by
  obtain ⟨region, regions, rfl⟩ := List.exists_cons_of_ne_nil h
  rfl

theorem lastBack_map_moved {shift : Int} {regions : List Region}
    (h : ∀ region ∈ regions, 0 ≤ region.now.stop + shift) (start : Int) :
    lastBack (start - shift) (regions.map (·.moved shift)) = lastBack start regions - shift := by
  induction regions generalizing start with
  | nil => rfl
  | cons region regions ih =>
    have hback : (region.moved shift).back = region.back - shift := by
      have hstop := h region (List.mem_cons_self ..)
      unfold Region.back Region.moved moved
      dsimp only
      omega
    have hih := ih (fun other hother => h other (List.mem_cons_of_mem _ hother)) region.back
    rw [← hback] at hih
    exact hih

/-- Text behind regions is not led back to before the line. -/
theorem nonneg_lastBack {position : Nat} {regions : List Region}
    (h : ∀ region ∈ regions, region.now.stop ≤ position) {shift : Int} (hshift : 0 ≤ position + shift) :
    0 ≤ position + lastBack shift regions := by
  induction regions generalizing shift with
  | nil => exact hshift
  | cons region regions ih =>
    have hback : 0 ≤ position + region.back := by
      have hstop := h region (List.mem_cons_self ..)
      unfold Region.back
      omega
    exact ih (fun other hother => h other (List.mem_cons_of_mem _ hother)) hback

/-- The region that a place lies in is the last one that starts before it. -/
theorem Ordered.lastBack_eq {low place : Nat} {regions : List Region} (h : Ordered low regions)
    {region : Region} (hmem : region ∈ regions) (hstop : place ≤ region.now.stop)
    (hstart : ∀ other ∈ regions, other.now.start < place) (shift : Int) :
    lastBack shift regions = region.back := by
  induction regions generalizing low shift with
  | nil => cases hmem
  | cons first regions ih =>
    have hrest : ∀ other ∈ regions, other.now.start < place := fun other hother =>
      hstart other (List.mem_cons_of_mem _ hother)
    rcases List.mem_cons.1 hmem with rfl | hmem
    · cases regions with
      | nil => rfl
      | cons next regions =>
        have hnext := hrest next (List.mem_cons_self ..)
        have hle := h.2.2.1
        omega
    · exact ih h.2.2 hmem hrest first.back

theorem startFrom_eq {position : Nat} {left right : List Region} {low : Nat} (hleft : Ordered low left)
    (hstop : ∀ region ∈ left, region.now.stop ≤ position)
    (hright : ∀ region ∈ right, position < region.now.start) (shift : Int) :
    Origin.startFrom position shift (left ++ right) = moved position (lastBack shift left) := by
  induction left generalizing low shift with
  | nil => exact startFrom_of_lt hright
  | cons region left ih =>
    have hregion := hstop region (List.mem_cons_self ..)
    have hlt := hleft.2.1
    rw [List.cons_append, Origin.startFrom, if_neg (by omega), if_neg (by omega),
      ih hleft.2.2 (fun other hother => hstop other (List.mem_cons_of_mem _ hother))]
    rfl

theorem stopFrom_eq {position : Nat} {left right : List Region} {low : Nat} (hleft : Ordered low left)
    (hstop : ∀ region ∈ left, region.now.stop ≤ position)
    (hright : ∀ region ∈ right, position ≤ region.now.start) (shift : Int) :
    Origin.stopFrom position shift (left ++ right) = moved position (lastBack shift left) := by
  induction left generalizing low shift with
  | nil => exact stopFrom_of_le hright
  | cons region left ih =>
    have hregion := hstop region (List.mem_cons_self ..)
    have hlt := hleft.2.1
    rw [List.cons_append, Origin.stopFrom, if_neg (by omega)]
    by_cases hend : position ≤ region.now.stop
    · -- a region that ends here is the last one
      have hback := hleft.lastBack_eq (List.mem_cons_self ..) hend (fun other hother =>
        (hleft.bounds hother).2.trans_le (hstop other hother)) shift
      rw [if_pos hend, hback, Region.back, moved]
      omega
    · rw [if_neg hend, ih hleft.2.2 fun other hother => hstop other (List.mem_cons_of_mem _ hother)]
      rfl

/-- The end of a span inside a region is led back to the end of what the region came from. -/
theorem stopFrom_of_inside {position low : Nat} {regions : List Region} (h : Ordered low regions)
    {region : Region} (hmem : region ∈ regions) (hstart : region.now.start < position)
    (hstop : position ≤ region.now.stop) (shift : Int) :
    Origin.stopFrom position shift regions = region.first.stop := by
  induction regions generalizing low shift with
  | nil => cases hmem
  | cons first regions ih =>
    rw [Origin.stopFrom]
    rcases List.mem_cons.1 hmem with rfl | hmem
    · rw [if_neg (by omega), if_pos hstop]
    · have hle := (h.2.2.bounds hmem).1
      have hlt := h.2.1
      rw [if_neg (by omega), if_neg (by omega), ih h.2.2 hmem]

/-- **Text between regions is led back by the last region before it.** -/
theorem trace_eq_iff {origin : Origin} {left right : List Region} (hregions : origin.regions = left ++ right)
    {low : Nat} (hordered : Ordered low left) {position size first : Nat}
    (hleft : ∀ region ∈ left, region.now.stop ≤ position) (hright : Ordered (position + size) right)
    (hpos : 0 < size) (hsize : first + size ≤ origin.size) :
    origin.trace ⟨position, position + size⟩ = ⟨first, first + size⟩ ↔
      position + lastBack 0 left = first := by
  have hnonneg := nonneg_lastBack hleft (by omega : (0 : Int) ≤ position + 0)
  have hstart := startFrom_eq hordered hleft (fun region hregion => by
    have := (hright.bounds hregion).1
    omega) 0
  have hstop := stopFrom_eq hordered (fun region hregion => Nat.le_add_right_of_le (hleft region hregion))
    (fun region hregion => (hright.bounds hregion).1) 0
  rw [moved_add hnonneg] at hstop
  have hmoved : (moved position (lastBack 0 left) : Int) = position + lastBack 0 left :=
    Int.toNat_of_nonneg hnonneg
  unfold Origin.trace
  rw [hregions, hstart, hstop, Span.mk.injEq]
  omega

theorem apart_of_mem_append {left right : List Region} {position size : Nat}
    (hleft : ∀ region ∈ left, region.now.stop ≤ position) (hright : Ordered (position + size) right) :
    ∀ region ∈ left ++ right, region.now.Apart ⟨position, position + size⟩ := by
  intro region hregion
  rcases List.mem_append.1 hregion with hregion | hregion
  · exact .inl (hleft region hregion)
  · exact .inr (hright.bounds hregion).1

/-! ### The regions of a batch -/

/-- The replacements of fragments of which the first starts at byte `start`, as the origin map takes them;
`lead` says where a span stood at first. -/
def replacements (lead : Span → Span) (start : Nat) (cut : List Fragment) : List (Span × Span × Nat) :=
  (laid start cut).map fun patch => (patch.1, lead patch.1, Text.size patch.2)

/-- One replacement takes up the regions that it meets. -/
theorem merge_replaced (lead : Span → Span) (start now : Nat) (old new : Text) (cut : List Fragment)
    (regions : List Region) :
    Origin.merge ((now : Int) - start) (replacements lead start (.replaced old new :: cut)) regions =
      (regions.takeWhile fun region => decide (region.now.stop ≤ start)).map
          (·.moved ((now : Int) - start)) ++
        ⟨lead ⟨start, start + Text.size old⟩, ⟨now, now + Text.size new⟩⟩ ::
          Origin.merge (((now + Text.size new : Nat) : Int) - (start + Text.size old : Nat))
            (replacements lead (start + Text.size old) cut)
            ((regions.dropWhile fun region => decide (region.now.stop ≤ start)).dropWhile
              fun region => decide (region.now.start < start + Text.size old)) := by
  have hshift : (now : Int) - start + ((Text.size new : Int) - (Text.size old : Nat)) =
      ((now + Text.size new : Nat) : Int) - (start + Text.size old : Nat) := by
    omega
  unfold replacements
  rw [laid_replaced, List.map_cons, Origin.merge]
  simp only [List.span_eq_takeWhile_dropWhile, moved_sub, Span.size, Nat.add_sub_cancel_left, hshift]

theorem replacements_kept (lead : Span → Span) (start : Nat) (c : Char) (cut : List Fragment) :
    replacements lead start (.kept c :: cut) = replacements lead (start + c.utf8Size) cut := rfl

theorem shift_add (now start size : Nat) :
    ((now + size : Nat) : Int) - (start + size : Nat) = (now : Int) - start := by
  omega

/-- What a replacement leaves in front of it ends there. -/
theorem stop_le_of_mem_map_moved {start now : Nat} {regions : List Region} {region : Region}
    (h : region ∈ (regions.takeWhile fun region => decide (region.now.stop ≤ start)).map
      (·.moved ((now : Int) - start))) : region.now.stop ≤ now := by
  obtain ⟨before, hmem, rfl⟩ := List.mem_map.1 h
  have hstop := List.mem_takeWhile_imp hmem
  rw [decide_eq_true_eq] at hstop
  have hmono := moved_mono ((now : Int) - start) hstop
  rwa [moved_sub] at hmono

/-- **The regions stay in order.** -/
theorem ordered_merge (lead : Span → Span) {low start now : Nat} {cut : List Fragment} (hsolid : IsSolid cut)
    {regions : List Region} (h : Ordered low regions) (hle : low ≤ start)
    (hshift : 0 ≤ (low : Int) + (now - start)) :
    Ordered (moved low (now - start))
      (Origin.merge ((now : Int) - start) (replacements lead start cut) regions) := by
  induction cut generalizing low start now regions with
  | nil => exact h.map_moved hshift
  | cons fragment cut ih =>
    cases fragment with
    | kept c =>
      have hih := ih hsolid.of_cons h (hle.trans (Nat.le_add_right start c.utf8Size))
        (by rwa [shift_add now start] :
          0 ≤ (low : Int) + ((now + c.utf8Size : Nat) - (start + c.utf8Size : Nat)))
      rwa [shift_add] at hih
    | replaced old new =>
      have hpos := Text.size_pos (hsolid old new (by simp)).2
      rw [merge_replaced]
      have hleft : Ordered low (regions.takeWhile fun region => decide (region.now.stop ≤ start)) := by
        rw [← List.takeWhile_append_dropWhile (p := fun region => decide (region.now.stop ≤ start))
          (l := regions)] at h
        exact h.left
      have hright : Ordered low (regions.dropWhile fun region => decide (region.now.stop ≤ start)) := by
        rw [← List.takeWhile_append_dropWhile (p := fun region => decide (region.now.stop ≤ start))
          (l := regions)] at h
        exact h.right
      have hih := ih hsolid.of_cons (hright.dropWhile (start + Text.size old)) le_rfl
        (by omega : 0 ≤ ((start + Text.size old : Nat) : Int) +
          ((now + Text.size new : Nat) - (start + Text.size old : Nat)))
      rw [moved_sub] at hih
      refine (hleft.map_moved hshift).append ⟨le_rfl, by dsimp only; omega, hih⟩ ?_
        fun region => stop_le_of_mem_map_moved
      have hmono := moved_mono ((now : Int) - start) hle
      rwa [moved_sub] at hmono

theorem dropWhile_append_of_neg {left right : List Region} {p : Region → Bool}
    (h : ∀ region ∈ right, p region = false) :
    (left ++ right).dropWhile p = left.dropWhile p ++ right := by
  rw [List.dropWhile_append]
  split
  · next hempty => rw [dropWhile_eq_self h, List.isEmpty_iff.1 hempty, List.nil_append]
  · rfl

/-- **The regions after a replacement**: those in front of it, its own, and what the rest of the batch makes
of the regions that start behind it. -/
theorem exists_merge_eq (lead : Span → Span) (start now : Nat) (left : List Fragment) (old new : Text)
    (right : List Fragment) {before rest : List Region}
    (hbefore : ∀ region ∈ before,
      region.now.start < start + Text.size (oldText left) + Text.size old)
    (hrest : Ordered (start + Text.size (oldText left) + Text.size old) rest) :
    ∃ front, (∀ region ∈ front, region.now.stop ≤ now + Text.size (newText left)) ∧
      Origin.merge ((now : Int) - start)
          (replacements lead start (left ++ .replaced old new :: right)) (before ++ rest) =
        front ++
          ⟨lead ⟨start + Text.size (oldText left), start + Text.size (oldText left) + Text.size old⟩,
            ⟨now + Text.size (newText left), now + Text.size (newText left) + Text.size new⟩⟩ ::
          Origin.merge (((now + Text.size (newText left) + Text.size new : Nat) : Int) -
              (start + Text.size (oldText left) + Text.size old : Nat))
            (replacements lead (start + Text.size (oldText left) + Text.size old) right) rest := by
  -- no region of the rest ends in front of a replacement on the left or is met by it
  have hstay : ∀ place ≤ start + Text.size (oldText left) + Text.size old, ∀ region ∈ rest,
      decide (region.now.start < place) = false ∧ decide (region.now.stop ≤ place) = false := by
    intro place hplace region hregion
    have hbounds := hrest.bounds hregion
    rw [decide_eq_false_iff_not, decide_eq_false_iff_not]
    omega
  induction left generalizing start now before with
  | nil =>
    refine ⟨((before ++ rest).takeWhile fun region => decide (region.now.stop ≤ start)).map
      (·.moved ((now : Int) - start)), fun region => stop_le_of_mem_map_moved, ?_⟩
    rw [List.nil_append, merge_replaced]
    simp only [oldText_nil, newText_nil, Text.size_nil, Nat.add_zero] at hbefore hstay ⊢
    rw [dropWhile_append_of_neg fun region hregion => (hstay _ (Nat.le_add_right ..) region hregion).2,
      List.dropWhile_append_of_pos, dropWhile_eq_self fun region hregion =>
        (hstay _ le_rfl region hregion).1]
    intro region hregion
    exact decide_eq_true (hbefore region ((List.dropWhile_suffix _).subset hregion))
  | cons fragment left ih =>
    cases fragment with
    | kept c =>
      rw [oldText_kept, Text.size, ← Nat.add_assoc] at hbefore hrest hstay ⊢
      obtain ⟨front, hfront, hmerge⟩ := ih (start + c.utf8Size) (now + c.utf8Size) hbefore hrest hstay
      rw [newText_kept, Text.size, ← Nat.add_assoc]
      rw [shift_add] at hmerge
      exact ⟨front, hfront, hmerge⟩
    | replaced old' new' =>
      rw [oldText_replaced, Text.size_append, ← Nat.add_assoc] at hbefore hrest hstay ⊢
      rw [newText_replaced, Text.size_append, ← Nat.add_assoc, List.cons_append, merge_replaced,
        dropWhile_append_of_neg fun region hregion => (hstay start (by omega) region hregion).2,
        dropWhile_append_of_neg fun region hregion => (hstay _ (by omega) region hregion).1]
      obtain ⟨front, hfront, hmerge⟩ := ih (start + Text.size old') (now + Text.size new')
        (fun region hregion => hbefore region
          ((List.dropWhile_suffix _).subset ((List.dropWhile_suffix _).subset hregion))) hrest hstay
      rw [hmerge]
      refine ⟨((before ++ rest).takeWhile fun region => decide (region.now.stop ≤ start)).map
          (·.moved ((now : Int) - start)) ++
        ⟨lead ⟨start, start + Text.size old'⟩, ⟨now, now + Text.size new'⟩⟩ :: front, ?_,
        by rw [List.append_assoc, List.cons_append]⟩
      intro region hregion
      rcases List.mem_append.1 hregion with hregion | hregion
      · have := stop_le_of_mem_map_moved hregion
        omega
      · rcases List.mem_cons.1 hregion with rfl | hregion
        · exact Nat.le_add_right ..
        · exact hfront region hregion

/-- **A place that a batch leaves alone stays outside of the regions**: behind it everything stands behind it
still. -/
theorem exists_merge_eq_append (lead : Span → Span) (now : Nat) {place size low : Nat} {right : List Fragment}
    (hsolid : IsSolid right) {regions : List Region} (h : Ordered low regions)
    (hapart : ∀ region ∈ regions, region.now.Apart ⟨place, place + size⟩) :
    ∃ left high after, regions = left ++ high ∧ (∀ region ∈ left, region.now.stop ≤ place) ∧
      Ordered (place + size) high ∧ Ordered (now + size) after ∧
      Origin.merge ((now : Int) - place) (replacements lead (place + size) right) regions =
        left.map (·.moved ((now : Int) - place)) ++ after := by
  obtain ⟨left, high, rfl, hleft, hhigh⟩ := h.exists_split hapart
  refine ⟨left, high, _, rfl, hleft, hhigh, ?_, merge_append ?_⟩
  · have hordered := ordered_merge lead hsolid hhigh le_rfl
      (by omega : 0 ≤ ((place + size : Nat) : Int) + ((now + size : Nat) - (place + size : Nat)))
    rwa [moved_sub, shift_add] at hordered
  · intro replacement hreplacement region hregion
    obtain ⟨patch, hpatch, rfl⟩ := List.mem_map.1 hreplacement
    have hstart := (bounds_of_mem_laid hsolid hpatch).1
    have hstop : region.now.stop ≤ place := hleft region hregion
    dsimp only
    omega

/-! ### Misplaced text -/

/-- An origin map after a batch of patches. -/
def Origin.recordBatch (origin : Origin) (batch : List Patch) : Origin :=
  origin.record (batch.map fun patch => (patch.1, Text.size patch.2))

theorem regions_recordBatch (origin : Origin) (cut : List Fragment) :
    (origin.recordBatch (laid 0 cut)).regions =
      Origin.merge ((0 : Nat) - (0 : Nat) : Int) (replacements origin.trace 0 cut) origin.regions := by
  unfold Origin.recordBatch Origin.record replacements
  rw [List.map_map]
  rfl

/-- A patch of a batch misplaces the text at `position`: it is the last to be replaced in front of that
text, by this batch or an earlier one, and it ends inside a region, or its start is led back behind its end. -/
structure Misplaces (regions : List Region) (batch : List Patch) (patch : Patch) (position : Nat) :
    Prop where
  mem : patch ∈ batch
  behind : patch.1.stop ≤ position
  last : ∀ other ∈ batch, other.1.stop ≤ patch.1.stop ∨ position < other.1.start
  bare : ∀ region ∈ regions, region.now.start < patch.1.stop ∨ position < region.now.start
  wrong : (∃ region ∈ regions, region.now.start < patch.1.stop ∧ patch.1.stop < region.now.stop) ∨
    Origin.stopFrom patch.1.stop 0 regions < Origin.startFrom patch.1.start 0 regions

/-- **When the end of a replacement is led back as far as the text behind it.** -/
theorem stop_trace_iff {origin : Origin} {before high : List Region}
    (hregions : origin.regions = before ++ high) (hordered : Ordered 0 origin.regions)
    (start : Nat) {stop position first : Nat} (hstart : ∀ region ∈ before, region.now.start < stop)
    (hstop : ∀ region ∈ before, region.now.stop ≤ position)
    (hhigh : ∀ region ∈ high, stop ≤ region.now.start)
    (hfirst : position + lastBack 0 before = first) (hsize : first < origin.size) (hle : stop ≤ position) :
    (origin.trace ⟨start, stop⟩).stop = stop + lastBack 0 before ↔
      ¬ ((∃ region ∈ origin.regions, region.now.start < stop ∧ stop < region.now.stop) ∨
        Origin.stopFrom stop 0 origin.regions < Origin.startFrom start 0 origin.regions) := by
  have hbefore : Ordered 0 before := (hregions ▸ hordered).left
  unfold Origin.trace
  dsimp only
  generalize Origin.startFrom start 0 origin.regions = led
  by_cases hcut : ∃ region ∈ origin.regions, region.now.start < stop ∧ stop < region.now.stop
  · -- what is left of the region comes on top
    obtain ⟨region, hmem, hlow, hend⟩ := hcut
    have hmem' : region ∈ before := by
      rw [hregions] at hmem
      rcases List.mem_append.1 hmem with hmem | hmem
      · exact hmem
      · have := hhigh region hmem
        omega
    have hposition := hstop region hmem'
    have hback := hbefore.lastBack_eq hmem' hend.le hstart 0
    rw [stopFrom_of_inside hordered hmem hlow hend.le, hback]
    rw [hback] at hfirst
    unfold Region.back at hfirst ⊢
    have hnot : ¬ ¬ ((∃ region ∈ origin.regions, region.now.start < stop ∧ stop < region.now.stop) ∨
        region.first.stop < led) := fun h => h (.inl ⟨region, hmem, hlow, hend⟩)
    refine ⟨fun h => ?_, fun h => absurd h hnot⟩
    omega
  · have hstop' : ∀ region ∈ before, region.now.stop ≤ stop := by
      intro region hmem
      by_contra hlt
      exact hcut ⟨region, hregions ▸ List.mem_append_left _ hmem, hstart region hmem, by omega⟩
    have hnonneg := nonneg_lastBack hstop' (by omega : (0 : Int) ≤ stop + 0)
    have hmoved : (moved stop (lastBack 0 before) : Int) = stop + lastBack 0 before :=
      Int.toNat_of_nonneg hnonneg
    have hled := stopFrom_eq hbefore hstop' hhigh 0
    rw [← hregions] at hled
    rw [hled]
    simp only [hcut, false_or]
    omega

/-- Fragments end with text that they keep, behind the last one that replaces something. -/
theorem exists_keep_or_replaced (fragments : List Fragment) :
    (∃ text, fragments = keep text) ∨
      ∃ left old new text, fragments = left ++ .replaced old new :: keep text := by
  induction fragments with
  | nil => exact .inl ⟨[], rfl⟩
  | cons fragment fragments ih =>
    rcases ih with ⟨text, rfl⟩ | ⟨left, old, new, text, rfl⟩
    · cases fragment with
      | kept c => exact .inl ⟨c :: text, rfl⟩
      | replaced old new => exact .inr ⟨[], old, new, text, rfl⟩
    · exact .inr ⟨fragment :: left, old, new, text, rfl⟩

theorem replacements_keep_append (lead : Span → Span) (start : Nat) (text : Text) (cut : List Fragment) :
    replacements lead start (keep text ++ cut) = replacements lead (start + Text.size text) cut := by
  rw [replacements, laid_keep_append]
  rfl

theorem map_moved_zero (regions : List Region) : regions.map (·.moved 0) = regions := by
  have hmoved : ∀ region : Region, region.moved 0 = region := by
    intro region
    simp [Region.moved, moved]
  simp [hmoved]

theorem ordered_recordBatch {origin : Origin} (h : Ordered 0 origin.regions) {cut : List Fragment}
    (hsolid : IsSolid cut) : Ordered 0 (origin.recordBatch (laid 0 cut)).regions := by
  have hmerge : Ordered (moved 0 _) _ := ordered_merge origin.trace hsolid h le_rfl
    (by omega : 0 ≤ ((0 : Nat) : Int) + ((0 : Nat) - (0 : Nat) : Int))
  rwa [moved_sub, ← regions_recordBatch] at hmerge

/-- **In front of all replacements text is led back as before.** -/
theorem trace_recordBatch_keep {origin : Origin} (hordered : Ordered 0 origin.regions) (text : Text)
    (c : Char) {right : List Fragment} (hsolid : IsSolid right)
    (hapart : ∀ region ∈ origin.regions,
      region.now.Apart ⟨Text.size text, Text.size text + c.utf8Size⟩) :
    let recorded := origin.recordBatch (laid 0 (keep text ++ .kept c :: right))
    let span : Span := ⟨Text.size text, Text.size text + c.utf8Size⟩
    (∀ region ∈ recorded.regions, region.now.Apart span) ∧
      ∀ first, first + c.utf8Size ≤ origin.size →
        (recorded.trace span = ⟨first, first + c.utf8Size⟩ ↔
          origin.trace span = ⟨first, first + c.utf8Size⟩) := by
  intro recorded span
  obtain ⟨left, high, after, hregions, hleft, hhigh, hafter, hmerge⟩ :=
    exists_merge_eq_append origin.trace (Text.size text) hsolid hordered hapart
  have hrecorded : recorded.regions = left ++ after := by
    rw [regions_recordBatch, replacements_keep_append, replacements_kept, Nat.zero_add, Int.sub_self]
    rwa [Int.sub_self, map_moved_zero] at hmerge
  have hordered' : Ordered 0 left := (hregions ▸ hordered).left
  refine ⟨by rw [hrecorded]; exact apart_of_mem_append hleft hafter, fun first hfirst => ?_⟩
  rw [trace_eq_iff hrecorded hordered' hleft hafter (Char.utf8Size_pos c) hfirst,
    trace_eq_iff hregions hordered' hleft hhigh (Char.utf8Size_pos c) hfirst]

/-- A patch stands in front of a replacement, is that replacement, or stands behind the character that is kept
after it. -/
theorem cases_of_mem_laid {left right : List Fragment} {old new text : Text} {c : Char}
    (hsolid : IsSolid (left ++ .replaced old new :: (keep text ++ .kept c :: right))) {patch : Patch}
    (hmem : patch ∈ laid 0 (left ++ .replaced old new :: (keep text ++ .kept c :: right))) :
    patch.1.stop ≤ Text.size (oldText left) ∨
      patch = (⟨Text.size (oldText left), Text.size (oldText left) + Text.size old⟩, new) ∨
      Text.size (oldText left) + Text.size old + Text.size text < patch.1.start := by
  obtain ⟨hleft, hrest⟩ := isSolid_append_iff.1 hsolid
  rw [laid_append, laid_replaced, laid_keep_append, laid_kept, Nat.zero_add] at hmem
  rcases List.mem_append.1 hmem with hmem | hmem
  · have hbounds := bounds_of_mem_laid hleft hmem
    exact .inl (by omega)
  · rcases List.mem_cons.1 hmem with rfl | hmem
    · exact .inr (.inl rfl)
    · have hright : IsSolid right := (isSolid_append_iff.1 hrest.of_cons).2.of_cons
      have hbounds := bounds_of_mem_laid hright hmem
      have hpos := Char.utf8Size_pos c
      exact .inr (.inr (by omega))

/-- Which patch misplaces a place that a batch leaves alone: the last one in front of it, if no region stands
in between. -/
theorem exists_misplaces_iff {regions : List Region} {left right : List Fragment} {old new text : Text}
    {c : Char} (hsolid : IsSolid (left ++ .replaced old new :: (keep text ++ .kept c :: right)))
    {start stop place : Nat} (hstart : start = Text.size (oldText left)) (hstop : stop = start + Text.size old)
    (hplace : place = stop + Text.size text) :
    (∃ patch, Misplaces regions (laid 0 (left ++ .replaced old new :: (keep text ++ .kept c :: right)))
        patch place) ↔
      (∀ region ∈ regions, region.now.start < stop ∨ place < region.now.start) ∧
        ((∃ region ∈ regions, region.now.start < stop ∧ stop < region.now.stop) ∨
          Origin.stopFrom stop 0 regions < Origin.startFrom start 0 regions) := by
  subst hstart hstop hplace
  have hold := Text.size_pos (hsolid old new (by simp)).1
  have hmem : (⟨Text.size (oldText left), Text.size (oldText left) + Text.size old⟩, new) ∈
      laid 0 (left ++ .replaced old new :: (keep text ++ .kept c :: right)) := by
    rw [laid_append, laid_replaced, Nat.zero_add]
    simp
  constructor
  · rintro ⟨patch, h⟩
    have hlast := h.last _ hmem
    have hbehind := h.behind
    have hbounds := bounds_of_mem_laid hsolid h.mem
    dsimp only at hlast
    rcases cases_of_mem_laid hsolid h.mem with hcase | rfl | hcase
    · omega
    · exact ⟨h.bare, h.wrong⟩
    · omega
  · rintro ⟨hbare, hwrong⟩
    refine ⟨_, hmem, Nat.le_add_right .., fun other hother => ?_, hbare, hwrong⟩
    rcases cases_of_mem_laid hsolid hother with hcase | rfl | hcase
    · exact .inl (hcase.trans (Nat.le_add_right ..))
    · exact .inl le_rfl
    · exact .inr hcase

/-- The region of a replacement in front of a kept character, and around it the regions of before that end in
front of that character and the ones behind it. -/
theorem exists_regions_recordBatch {origin : Origin} (hordered : Ordered 0 origin.regions)
    {left right : List Fragment} {old new text : Text} {c : Char}
    (hsolid : IsSolid (left ++ .replaced old new :: (keep text ++ .kept c :: right)))
    {start stop place begin now : Nat} (hstart : start = Text.size (oldText left))
    (hstop : stop = start + Text.size old) (hplace : place = stop + Text.size text)
    (hbegin : begin = Text.size (newText left)) (hnow : now = begin + Text.size new + Text.size text)
    (hapart : ∀ region ∈ origin.regions, region.now.Apart ⟨place, place + c.utf8Size⟩) :
    ∃ before middle high front after, origin.regions = before ++ middle ++ high ∧
      (∀ region ∈ before, region.now.start < stop) ∧ Ordered stop (middle ++ high) ∧
      (∀ region ∈ before ++ middle, region.now.stop ≤ place) ∧ Ordered (place + c.utf8Size) high ∧
      (∀ region ∈ front, region.now.stop ≤ begin) ∧ Ordered (now + c.utf8Size) after ∧
      (origin.recordBatch (laid 0 (left ++ .replaced old new :: (keep text ++ .kept c :: right)))).regions =
        front ++ ⟨origin.trace ⟨start, stop⟩, ⟨begin, begin + Text.size new⟩⟩ ::
          middle.map (·.moved ((now : Int) - place)) ++ after := by
  subst hstart hstop hbegin
  have hright : IsSolid right :=
    (isSolid_append_iff.1 (isSolid_append_iff.1 hsolid).2.of_cons).2.of_cons
  have hshift : ((Text.size (newText left) + Text.size new : Nat) : Int) -
      (Text.size (oldText left) + Text.size old : Nat) = now - place := by
    rw [hnow, hplace, shift_add]
  obtain ⟨before, rest, hsplit, hbefore, hrest⟩ := hordered.exists_split
    fun region _ => Nat.lt_or_ge region.now.start (Text.size (oldText left) + Text.size old)
  obtain ⟨middle, high, after, rfl, hmiddle, hhigh, hafter, hmerge⟩ :=
    exists_merge_eq_append origin.trace now hright hrest fun region hregion =>
      hapart region (hsplit ▸ List.mem_append_right _ hregion)
  obtain ⟨front, hfront, hlast⟩ := exists_merge_eq origin.trace 0 0 left old new
    (keep text ++ .kept c :: right) (by simpa using hbefore) (by simpa using hrest)
  simp only [Nat.zero_add] at hfront hlast
  rw [hshift, replacements_keep_append, replacements_kept, ← hplace, hmerge, ← hsplit,
    ← regions_recordBatch] at hlast
  refine ⟨before, middle, high, front, after, by rw [hsplit, List.append_assoc], hbefore, hrest, ?_, hhigh,
    hfront, hafter, by rw [hlast, List.append_assoc, List.cons_append]⟩
  intro region hregion
  rcases List.mem_append.1 hregion with hregion | hregion
  · have hlt := hbefore region hregion
    rcases hapart region (hsplit ▸ List.mem_append_left _ hregion) with hle | hle
    · exact hle
    · dsimp only at hle
      omega
  · exact hmiddle region hregion

/-- **Whether the last replacement or region in front of a place has its end where it should**: `before` are the
regions that start in front of the end of the replacement, `middle` those between it and the place. -/
theorem lastBack_trace_iff {origin : Origin} {before middle high : List Region}
    (hregions : origin.regions = before ++ middle ++ high) (hordered : Ordered 0 origin.regions)
    (start : Nat) {stop place size first : Nat} (hle : stop ≤ place)
    (hbefore : ∀ region ∈ before, region.now.start < stop) (hmiddle : Ordered stop (middle ++ high))
    (hends : ∀ region ∈ before ++ middle, region.now.stop ≤ place) (hhigh : Ordered (place + size) high)
    (hpos : 0 < size) (hfirst : first + size ≤ origin.size)
    (hback : place + lastBack 0 (before ++ middle) = first) :
    place + lastBack ((origin.trace ⟨start, stop⟩).stop - stop) middle = first ↔
      ¬ ((∀ region ∈ origin.regions, region.now.start < stop ∨ place < region.now.start) ∧
        ((∃ region ∈ origin.regions, region.now.start < stop ∧ stop < region.now.stop) ∨
          Origin.stopFrom stop 0 origin.regions < Origin.startFrom start 0 origin.regions)) := by
  by_cases hnil : middle = []
  · subst hnil
    rw [List.append_nil] at hregions hends hback
    have hbare : ∀ region ∈ origin.regions, region.now.start < stop ∨ place < region.now.start := by
      intro region hregion
      rw [hregions] at hregion
      rcases List.mem_append.1 hregion with hregion | hregion
      · exact .inl (hbefore region hregion)
      · have := (hhigh.bounds hregion).1
        exact .inr (by omega)
    have hiff := stop_trace_iff hregions hordered start hbefore hends
      (fun region hregion => (hmiddle.bounds hregion).1) hback (by omega) hle
    rw [and_iff_right hbare, ← hiff, lastBack, List.foldl_nil]
    omega
  · -- a region in between has the last word
    obtain ⟨region, hregion⟩ := List.exists_mem_of_ne_nil middle hnil
    have hlow := hmiddle.left.bounds hregion
    have hend := hends region (List.mem_append_right _ hregion)
    rw [lastBack_append] at hback
    rw [lastBack_of_ne_nil hnil _ (lastBack 0 before)]
    refine iff_of_true hback fun h => ?_
    have hmem : region ∈ origin.regions := by
      rw [hregions]
      exact List.mem_append_left _ (List.mem_append_right _ hregion)
    have := h.1 region hmem
    omega

/-- **Behind a replacement text is led back rightly unless the replacement misplaces it.** -/
theorem trace_recordBatch_replaced {origin : Origin} (hordered : Ordered 0 origin.regions)
    {left right : List Fragment} {old new text : Text} {c : Char}
    (hsolid : IsSolid (left ++ .replaced old new :: (keep text ++ .kept c :: right)))
    {start stop place begin now : Nat} (hstart : start = Text.size (oldText left))
    (hstop : stop = start + Text.size old) (hplace : place = stop + Text.size text)
    (hbegin : begin = Text.size (newText left)) (hnow : now = begin + Text.size new + Text.size text)
    (hapart : ∀ region ∈ origin.regions, region.now.Apart ⟨place, place + c.utf8Size⟩) :
    let batch := laid 0 (left ++ .replaced old new :: (keep text ++ .kept c :: right))
    let recorded := origin.recordBatch batch
    (∀ region ∈ recorded.regions, region.now.Apart ⟨now, now + c.utf8Size⟩) ∧
      ∀ first, first + c.utf8Size ≤ origin.size →
        origin.trace ⟨place, place + c.utf8Size⟩ = ⟨first, first + c.utf8Size⟩ →
        (recorded.trace ⟨now, now + c.utf8Size⟩ = ⟨first, first + c.utf8Size⟩ ↔
          ¬ ∃ patch, Misplaces origin.regions batch patch place) := by
  intro batch recorded
  have hpos := Char.utf8Size_pos c
  obtain ⟨before, middle, high, front, after, hregions, hbefore, hmiddle, hends, hhigh, hfront, hafter,
    hrecorded⟩ := exists_regions_recordBatch hordered hsolid hstart hstop hplace hbegin hnow hapart
  have hends' : ∀ region ∈ front ++ ⟨origin.trace ⟨start, stop⟩, ⟨begin, begin + Text.size new⟩⟩ ::
      middle.map (·.moved ((now : Int) - place)), region.now.stop ≤ now := by
    intro region hregion
    rcases List.mem_append.1 hregion with hregion | hregion
    · have := hfront region hregion
      omega
    · rcases List.mem_cons.1 hregion with rfl | hregion
      · dsimp only
        omega
      · obtain ⟨region, hmem, rfl⟩ := List.mem_map.1 hregion
        have hmono := moved_mono ((now : Int) - place) (hends region (List.mem_append_right _ hmem))
        rwa [moved_sub] at hmono
  refine ⟨by rw [hrecorded]; exact apart_of_mem_append hends' hafter, fun first hfirst htrace => ?_⟩
  have hordered' := ordered_recordBatch hordered hsolid
  rw [hrecorded] at hordered'
  have hback : lastBack 0 (front ++ ⟨origin.trace ⟨start, stop⟩, ⟨begin, begin + Text.size new⟩⟩ ::
      middle.map (·.moved ((now : Int) - place))) =
        lastBack ((origin.trace ⟨start, stop⟩).stop - stop) middle - (now - place) := by
    have hlow : ∀ region ∈ middle, 0 ≤ region.now.stop + ((now : Int) - place) := by
      intro region hregion
      have := hmiddle.left.bounds hregion
      omega
    have hled : ((origin.trace ⟨start, stop⟩).stop : Int) - (begin + Text.size new : Nat) =
        (origin.trace ⟨start, stop⟩).stop - stop - (now - place) := by
      omega
    rw [lastBack_append, ← lastBack_map_moved hlow, ← hled]
    rfl
  rw [trace_eq_iff hregions (hregions ▸ hordered).left hends hhigh hpos hfirst] at htrace
  rw [trace_eq_iff hrecorded hordered'.left hends' hafter hpos hfirst, hback,
    exists_misplaces_iff hsolid hstart hstop hplace,
    ← lastBack_trace_iff hregions hordered start (by omega) hbefore hmiddle hends hhigh hpos hfirst htrace]
  omega

/-- **After a batch text that it keeps is led back rightly unless a patch misplaces it**, and it stands outside
of the regions. -/
theorem trace_recordBatch_iff {origin : Origin} (hordered : Ordered 0 origin.regions)
    {left right : List Fragment} {c : Char} (hsolid : IsSolid (left ++ .kept c :: right)) {place now : Nat}
    (hplace : place = Text.size (oldText left)) (hnow : now = Text.size (newText left))
    (hapart : ∀ region ∈ origin.regions, region.now.Apart ⟨place, place + c.utf8Size⟩) :
    let batch := laid 0 (left ++ .kept c :: right)
    let recorded := origin.recordBatch batch
    (∀ region ∈ recorded.regions, region.now.Apart ⟨now, now + c.utf8Size⟩) ∧
      ∀ first, first + c.utf8Size ≤ origin.size →
        origin.trace ⟨place, place + c.utf8Size⟩ = ⟨first, first + c.utf8Size⟩ →
        (recorded.trace ⟨now, now + c.utf8Size⟩ = ⟨first, first + c.utf8Size⟩ ↔
          ¬ ∃ patch, Misplaces origin.regions batch patch place) := by
  rcases exists_keep_or_replaced left with ⟨text, rfl⟩ | ⟨left, old, new, text, rfl⟩
  · rw [oldText_keep] at hplace
    rw [newText_keep] at hnow
    subst hplace hnow
    have hright : IsSolid right := (isSolid_append_iff.1 hsolid).2.of_cons
    obtain ⟨hapart', htrace⟩ := trace_recordBatch_keep hordered text c hright hapart
    refine ⟨hapart', fun first hfirst hbefore => ?_⟩
    have hnone : ¬ ∃ patch, Misplaces origin.regions (laid 0 (keep text ++ .kept c :: right)) patch
        (Text.size text) := by
      rintro ⟨patch, h⟩
      have hmem := h.mem
      rw [laid_keep_append, laid_kept] at hmem
      have hbounds := bounds_of_mem_laid hright hmem
      have hbehind := h.behind
      omega
    exact iff_of_true ((htrace first hfirst).2 hbefore) hnone
  · rw [List.append_assoc, List.cons_append] at hsolid ⊢
    rw [oldText_append, oldText_replaced, oldText_keep, Text.size_append, Text.size_append,
      ← Nat.add_assoc] at hplace
    rw [newText_append, newText_replaced, newText_keep, Text.size_append, Text.size_append,
      ← Nat.add_assoc] at hnow
    exact trace_recordBatch_replaced hordered hsolid rfl rfl hplace rfl hnow hapart

end Migration
end ScriptUpgrade
