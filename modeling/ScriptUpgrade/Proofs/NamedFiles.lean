/-
# Files that are named more than once

Arguments may name a file more than once, by a pattern and by a path, say, or with a `./` in front. Two
paths count as one if they have the same components, and then they lead to the same file
(`Tree.resolve_congr`); but a `./` in front is a component, so that `a.sh` and `./a.sh` are two paths to
one file. All scripts are read before the first is written. When a script that is to change is met for
the second time, there is a new file in its place, and the writing is refused.

So the rewriting of files that can be read and written succeeds exactly if no file that is to change is
named by paths that have different components (`write_named_files`). The loop is followed with a list of
the locations where there is a new file (`Since`): a file at any other location is what was read, and a
file at one of them is younger than anything that was read.
-/

import Mathlib.Data.List.Nodup
import Mathlib.Data.List.Pairwise
import Mathlib.Data.Set.List
import ScriptUpgrade.Proofs.CleanFailure
import ScriptUpgrade.Proofs.LostUpdate

namespace ScriptUpgrade
namespace Files

/-! ### The paths that arguments name -/

/-- The paths that arguments name, one after the other. -/
def named (tree : Tree) (arguments : List Text) : List Text :=
  arguments.flatMap fun argument => (expandOne tree argument).toOption.getD []

variable {tree : Tree} {path : Text} {paths : List Text}

theorem mem_of_mem_addPath {new : Text} (h : path ∈ addPath paths new) : path ∈ paths ∨ path = new := by
  unfold addPath at h
  split at h
  · exact .inl h
  · simpa using h

theorem mem_components_addPath {new : Text} {components : List Path.Component} :
    components ∈ (addPath paths new).map Path.components ↔
      components ∈ paths.map Path.components ∨ components = Path.components new := by
  unfold addPath
  split
  · rename_i hany
    have hnew : Path.components new ∈ paths.map Path.components := by
      obtain ⟨other, hother, heq⟩ := List.any_eq_true.1 hany
      exact List.mem_map.2 ⟨other, hother, by simpa using heq⟩
    constructor
    · exact .inl
    · rintro (h | rfl)
      · exact h
      · exact hnew
  · simp

theorem nodup_addPath {new : Text} (h : (paths.map Path.components).Nodup) :
    ((addPath paths new).map Path.components).Nodup := by
  unfold addPath
  split
  · exact h
  · rename_i hany
    have hnew : Path.components new ∉ paths.map Path.components := by
      intro hmem
      obtain ⟨other, hother, heq⟩ := List.mem_map.1 hmem
      exact hany (List.any_eq_true.2 ⟨other, hother, by simpa using heq⟩)
    rw [List.map_append, List.map_singleton]
    exact List.nodup_append.2 ⟨h, List.nodup_singleton _, by simpa using hnew⟩

theorem length_addPath_le (new : Text) : (addPath paths new).length ≤ paths.length + 1 := by
  unfold addPath
  split
  · exact Nat.le_succ _
  · simp

/-- Paths that are kept were given. -/
theorem mem_of_mem_foldl_addPath {given : List Text} (h : path ∈ given.foldl addPath paths) :
    path ∈ paths ∨ path ∈ given := by
  induction given generalizing paths with
  | nil => exact .inl h
  | cons new given ih =>
    rcases ih h with h | h
    · rcases mem_of_mem_addPath h with h | rfl
      · exact .inl h
      · exact .inr List.mem_cons_self
    · exact .inr (List.mem_cons_of_mem _ h)

/-- Of the paths that are given, one with the same components is kept. -/
theorem mem_components_foldl_addPath {given : List Text} {components : List Path.Component} :
    components ∈ (given.foldl addPath paths).map Path.components ↔
      components ∈ paths.map Path.components ∨ components ∈ given.map Path.components := by
  induction given generalizing paths with
  | nil => simp
  | cons new given ih =>
    rw [List.foldl_cons, ih, mem_components_addPath, List.map_cons, List.mem_cons, or_assoc]

/-- No two paths that are kept have the same components. -/
theorem nodup_foldl_addPath {given : List Text} (h : (paths.map Path.components).Nodup) :
    ((given.foldl addPath paths).map Path.components).Nodup := by
  induction given generalizing paths with
  | nil => exact h
  | cons new given ih => exact ih (nodup_addPath h)

theorem length_foldl_addPath_le (given : List Text) :
    (given.foldl addPath paths).length ≤ paths.length + given.length := by
  induction given generalizing paths with
  | nil => exact le_rfl
  | cons new given ih =>
    have hrest := @ih (addPath paths new)
    have hnew := @length_addPath_le paths new
    rw [List.foldl_cons, List.length_cons]
    omega

/-- **Arguments that each name something stand for the paths they name**, without those that have the
components of an earlier one. -/
theorem expand_of_named {arguments : List Text} (hne : arguments ≠ [])
    (h : ∀ argument ∈ arguments, ∃ paths, expandOne tree argument = .ok paths ∧ paths ≠ []) :
    expand tree arguments = .ok ((named tree arguments).foldl addPath []) := by
  have hmapM : arguments.mapM (expandOne tree) =
      .ok (arguments.map fun argument => (expandOne tree argument).toOption.getD []) := by
    rw [mapM_eq_ok_iff, List.forall₂_map_right_iff, List.forall₂_same]
    intro argument hmem
    obtain ⟨paths, hpaths, -⟩ := h argument hmem
    rw [hpaths]
    rfl
  have hkept : (named tree arguments).foldl addPath [] ≠ [] := by
    obtain ⟨argument, hmem⟩ := List.exists_mem_of_ne_nil arguments hne
    obtain ⟨paths, hpaths, hpaths_ne⟩ := h argument hmem
    obtain ⟨path, hpath⟩ := List.exists_mem_of_ne_nil paths hpaths_ne
    have hnamed : path ∈ named tree arguments := by
      refine List.mem_flatMap.2 ⟨argument, hmem, ?_⟩
      rw [hpaths]
      exact hpath
    intro hnil
    have hcovered : Path.components path ∈
        ((named tree arguments).foldl addPath []).map Path.components :=
      mem_components_foldl_addPath.2 (.inr (List.mem_map_of_mem hnamed))
    rw [hnil] at hcovered
    cases hcovered
  rw [expand, bind_eq_ok_iff]
  refine ⟨_, hmapM, ?_⟩
  rw [← List.flatMap_def]
  split
  · rename_i hnil
    exact absurd hnil hkept
  · rfl

/-! ### Room for temporary files -/

theorem utf8Size_digitChar : ∀ n < 10, (Nat.digitChar n).utf8Size = 1 := by
  decide

theorem size_lastDigits (count n : Nat) : Text.size (lastDigits count n) = count := by
  induction count generalizing n with
  | zero => rfl
  | succ count ih =>
    rw [lastDigits, Text.size_append, ih]
    simp [Text.size, utf8Size_digitChar _ (Nat.mod_lt n (by decide))]

/-- How long the name of a temporary file is does not depend on the time. -/
theorem size_temporaryName (name : Text) (time time' number : Nat) :
    Text.size (temporaryName name time number) = Text.size (temporaryName name time' number) := by
  simp only [temporaryName, Text.size_append, size_lastDigits]

theorem isTooLong_temporaryName (path name : Text) (time time' number : Nat) :
    isTooLong path (temporaryName name time number) =
      isTooLong path (temporaryName name time' number) := by
  have hrelative : ∀ time, Path.isAbsolute (temporaryName name time number) = false := fun _ => rfl
  have hsize := size_temporaryName name time time' number
  have hjoin : Text.size (Path.join (Path.parent path) (temporaryName name time number)) =
      Text.size (Path.join (Path.parent path) (temporaryName name time' number)) := by
    simp only [Path.join, hrelative, Bool.or_false]
    split
    · exact hsize
    · split <;> simp only [Text.size_append, Text.size, hsize]
  rw [isTooLong, isTooLong, hsize, hjoin]

/-- The first name that is tried for a temporary file is free for some time to come. -/
def FreeNames (tree : Tree) (duration : Nat) : Prop :=
  ∀ directory name time, tree.clock ≤ time → time < tree.clock + duration →
    tree.get? (directory ++ [temporaryName name time 0]) = none

/-- In a tree without hidden entries the names of temporary files are free. -/
theorem freeNames_of_visible (h : ∀ pair ∈ tree.entries, (pair.1.getLastD []).head? ≠ some '.')
    (duration : Nat) : FreeNames tree duration := by
  intro directory name time _ _
  rw [Tree.get?, Option.map_eq_none_iff, List.find?_eq_none]
  intro pair hmem heq
  refine h pair hmem ?_
  rw [beq_iff_eq.1 heq, List.getLastD_concat]
  rfl

/-- There is room for a temporary file if the first name that is tried is free and not too long. -/
theorem hasRoom_iff {location : Location}
    (hfree : tree.get? (location.dropLast ++ [temporaryName (location.getLastD []) tree.clock 0]) =
      none) :
    HasRoom tree path location ↔
      isTooLong path (temporaryName (location.getLastD []) 0 0) = false := by
  have hname : freeName? tree location = some (temporaryName (location.getLastD []) tree.clock 0) := by
    rw [freeName?, List.range_succ_eq_map, List.map_cons, List.find?_cons_of_pos]
    rw [hfree, Option.isNone_none]
  rw [HasRoom, hname, isTooLong_temporaryName _ _ 0 tree.clock]
  simp

end Files

namespace Request

open Digest (Bytes)
open Files (Source Tree Location File)

/-! ### Targets -/

/-- A file that is to be converted: a path that ends at no link names it, it holds a text, and nobody
has locked it. -/
structure Target (tree : Tree) where
  path : Text
  location : Location
  file : File
  text : Text
  names : tree.Names path location file
  decode_eq : Utf8.decode file.bytes = .ok text
  unlocked : file.id ∉ tree.locks

namespace Target

variable {tree : Tree}

/-- A target as it is read. -/
def source (target : Target tree) : Source :=
  ⟨some (target.path, target.file.guard), target.text⟩

/-- The conversion of a target reads differently. -/
def Changes (target : Target tree) : Prop :=
  (Script.process {} target.text).text ≠ target.text

instance (target : Target tree) : Decidable target.Changes :=
  inferInstanceAs (Decidable (_ ≠ _))

/-- The owner may write a target, and the name of a temporary file next to it is not too long. -/
structure Replaceable (target : Target tree) : Prop where
  writable : Tree.writable target.file.mode = true
  room : Files.isTooLong target.path
    (Files.temporaryName (target.location.getLastD []) 0 0) = false

/-- One location has one file and one text. -/
theorem file_eq {target target' : Target tree} (h : target.location = target'.location) :
    target.file = target'.file ∧ target.text = target'.text := by
  have hnames' : tree.Names target'.path target.location target'.file := h ▸ target'.names
  have hfile : target.file = target'.file := target.names.unique hnames'
  have htext := target.decode_eq
  rw [hfile, target'.decode_eq] at htext
  exact ⟨hfile, (Except.ok.inj htext).symm⟩

theorem changes_congr {target target' : Target tree} (h : target.location = target'.location) :
    target.Changes ↔ target'.Changes := by
  rw [Changes, Changes, (file_eq h).2]

/-- A target is determined by its path. -/
theorem eq_of_path {target target' : Target tree} (h : target.path = target'.path) :
    target = target' := by
  have hresolve : tree.resolve false target.path = .ok target'.location :=
    h ▸ target'.names.resolve_eq
  have hlocation : target.location = target'.location :=
    Except.ok.inj (target.names.resolve_eq.symm.trans hresolve)
  obtain ⟨hfile, htext⟩ := file_eq hlocation
  cases target
  cases target'
  subst h hlocation hfile htext
  rfl

/-- Paths with the same components name the same target. -/
theorem location_eq_of_components {target target' : Target tree}
    (h : Path.components target.path = Path.components target'.path) :
    target.location = target'.location :=
  Tree.resolve_congr h target.names.resolve_eq target'.names.resolve_eq
    target.names.not_isDirectory target'.names.not_isDirectory

end Target

/-! ### The loop -/

/-- What the loop has done to a tree: at some locations there are new files, and all else is as it
was. -/
structure Since (before tree : Tree) (written : List Location) : Prop where
  frame : Tree.SameFrame before tree
  locks : tree.locks = before.locks
  clock : tree.clock = before.clock + written.length
  kept : ∀ location, location ∉ written → tree.get? location = before.get? location
  young : ∀ location ∈ written, ∀ entry, tree.get? location = some entry → before.clock ≤ entry.id

namespace Since

variable {before tree after : Tree} {written : List Location}

theorem nil (tree : Tree) : Since tree tree [] :=
  ⟨⟨rfl, fun _ => rfl⟩, rfl, rfl, fun _ _ => rfl, by simp⟩

/-- A target that was not written is what it was. -/
theorem names (h : Since before tree written) (target : Target before)
    (hlocation : target.location ∉ written) :
    tree.Names target.path target.location target.file :=
  target.names.mono h.frame.within (by rw [h.kept _ hlocation, target.names.get?_eq])

/-- A location where a file is replaced is one more. -/
theorem cons (h : Since before tree written) {path : Text} {location : Location} {file : File}
    {bytes : Bytes} (hnames : tree.Names path location file)
    (hreplaces : Files.Replaces tree after location (.file bytes file.mode)) :
    Since before after (location :: written) := by
  have hframe : Tree.SameFrame tree after := by
    refine ⟨hreplaces.here, fun other => ?_⟩
    rw [hreplaces.get?_eq]
    split
    · rename_i hother
      rw [hother, hnames.get?_eq]
      rfl
    · rfl
  refine ⟨h.frame.trans hframe, hreplaces.locks.trans h.locks, ?_, fun other hother => ?_,
    fun other hother entry hentry => ?_⟩
  · rw [hreplaces.clock, h.clock, List.length_cons, Nat.add_assoc]
  · rw [List.mem_cons, not_or] at hother
    rw [hreplaces.get?_eq, if_neg hother.1, h.kept other hother.2]
  · rw [hreplaces.get?_eq] at hentry
    split at hentry
    · cases hentry
      rw [h.clock]
      exact Nat.le_add_right _ _
    · rename_i hne
      exact h.young other ((List.mem_cons.1 hother).resolve_left hne) entry hentry

/-- The first name for a temporary file is still free. -/
theorem get?_temporary (h : Since before tree written) {duration : Nat}
    (hfree : Files.FreeNames before duration) (hlength : written.length < duration)
    (directory : Location) (name : Text) :
    tree.get? (directory ++ [Files.temporaryName name tree.clock 0]) = none := by
  have hbefore := hfree directory name tree.clock (by rw [h.clock]; omega) (by rw [h.clock]; omega)
  have hframe := h.frame.frame_eq (directory ++ [Files.temporaryName name tree.clock 0])
  rw [hbefore, Option.map_none, Option.map_eq_none_iff] at hframe
  exact hframe

/-- **What the loop does with one target.** One that does not change is left alone; one that changes
is written exactly if it was not written before, it may be written, and there is room. -/
theorem writeBack (h : Since before tree written) (hsound : before.Sound) {duration : Nat}
    (hfree : Files.FreeNames before duration) (hlength : written.length < duration)
    (target : Target before) (hreadable : Tree.readable target.file.mode = true) :
    (¬ target.Changes ∧ ∃ outcome,
      Files.writeBack tree target.source (reportOn target.source).text = (.ok outcome, tree)) ∨
    (target.Changes ∧ target.location ∉ written ∧ target.Replaceable ∧ ∃ outcome after,
      Files.writeBack tree target.source (reportOn target.source).text = (.ok outcome, after) ∧
      Since before after (target.location :: written)) ∨
    (target.Changes ∧ ¬ (target.location ∉ written ∧ target.Replaceable) ∧ ∃ failure,
      Files.writeBack tree target.source (reportOn target.source).text = (.error failure, tree)) := by
  by_cases hchanges : target.Changes
  · right
    have hroom : Files.HasRoom tree target.path target.location ↔ _ := Files.hasRoom_iff
      (h.get?_temporary hfree hlength target.location.dropLast (target.location.getLastD []))
    rcases Files.writeBack_cases tree target.source (reportOn target.source).text with
      ⟨failure, heq⟩ | ⟨-, hsame, -⟩ | ⟨-, path, guard, location, file, after, heq, horigin, hover⟩
    · refine .inr ⟨hchanges, ?_, failure, heq⟩
      rintro ⟨hlocation, hreplaceable⟩
      have hadmits : Files.Admits tree target.file.guard target.file :=
        ⟨rfl, hreadable, hreplaceable.writable, by rw [h.locks]; exact target.unlocked⟩
      have horigin : target.source.origin = some (target.path, target.file.guard) := rfl
      obtain ⟨after, hwritten, -⟩ := Files.writeBack_written horigin hchanges
        (h.names target hlocation) hadmits (hroom.2 hreplaceable.room)
      have hok := congrArg Prod.fst (heq.symm.trans hwritten)
      cases hok
    · exact absurd hsame hchanges
    · cases horigin
      obtain rfl : target.location = location := by
        have hresolve := h.frame.resolve_iff.1 hover.names.resolve_eq
        exact Except.ok.inj (target.names.resolve_eq.symm.trans hresolve)
      have hid : target.file.id = file.id :=
        congrArg (fun guard => guard.stamp.id) hover.admits.guard_eq
      have hlocation : target.location ∉ written := by
        -- A new file is younger than what was read.
        intro hmem
        have hyoung : before.clock ≤ file.id := h.young _ hmem _ hover.names.get?_eq
        have hold : target.file.id < before.clock := hsound.id_lt _ _ target.names.get?_eq
        omega
      obtain rfl : target.file = file := (h.names target hlocation).unique hover.names
      exact .inl ⟨hchanges, hlocation, ⟨hover.admits.writable, hroom.1 hover.room⟩, .written, after,
        heq, h.cons hover.names hover.replaces⟩
  · refine .inl ⟨hchanges, .unchanged, ?_⟩
    have hsame : (reportOn target.source).text = target.source.text := not_not.1 hchanges
    rw [hsame]
    exact Files.writeBack_unchanged rfl (locate_of_sameFrame h.frame.symm target.names.locate_eq)

end Since

/-- **When the loop succeeds**: every target that changes can be replaced, and none of them was replaced
before, by the loop so far or on behalf of an earlier target. -/
theorem writeBackAll_ok_iff {before tree : Tree} {written : List Location} (hsound : before.Sound)
    {duration : Nat} (hfree : Files.FreeNames before duration) {targets : List (Target before)}
    (hreadable : ∀ target ∈ targets, Tree.readable target.file.mode = true)
    (h : Since before tree written) (hlength : written.length + targets.length ≤ duration) :
    (∃ files, (writeBackAll tree (targets.map Target.source)).1 = .ok files) ↔
      (∀ target ∈ targets, target.Changes → target.Replaceable) ∧
      (∀ target ∈ targets, target.Changes → target.location ∉ written) ∧
      targets.Pairwise fun target target' => target.Changes → target.location ≠ target'.location := by
  induction targets generalizing tree written with
  | nil => exact ⟨fun _ => by simp, fun _ => ⟨[], rfl⟩⟩
  | cons target targets ih =>
    have hreadable' := fun other hother => hreadable other (List.mem_cons_of_mem target hother)
    rw [List.length_cons] at hlength
    simp only [List.map_cons, writeBackAll, List.forall_mem_cons, List.pairwise_cons]
    rcases h.writeBack hsound hfree (by omega) target (hreadable target List.mem_cons_self) with
      ⟨hchanges, outcome, heq⟩ | ⟨hchanges, hlocation, hreplaceable, outcome, after, heq, hafter⟩ |
        ⟨hchanges, hnot, failure, heq⟩
    · simp only [heq, Files.exists_map_eq_ok_iff, ih hreadable' h (by omega), hchanges,
        false_implies, true_and, implies_true]
    · have hlength' : (target.location :: written).length + targets.length ≤ duration := by
        rw [List.length_cons]
        omega
      simp only [heq, Files.exists_map_eq_ok_iff, ih hreadable' hafter hlength']
      constructor
      · rintro ⟨hall, hout, hpairwise⟩
        refine ⟨⟨fun _ => hreplaceable, hall⟩, ⟨fun _ => hlocation, ?_⟩, ?_, hpairwise⟩
        · intro other hother hother_changes hmem
          exact hout other hother hother_changes (List.mem_cons_of_mem _ hmem)
        · intro other hother _ hsame
          refine hout other hother ((Target.changes_congr hsame).1 hchanges) ?_
          rw [hsame]
          exact List.mem_cons_self
      · rintro ⟨⟨-, hall⟩, ⟨-, hout⟩, hfirst, hpairwise⟩
        refine ⟨hall, fun other hother hother_changes hmem => ?_, hpairwise⟩
        rcases List.mem_cons.1 hmem with hsame | hmem
        · exact hfirst other hother hchanges hsame.symm
        · exact hout other hother hother_changes hmem
    · simp only [heq]
      constructor
      · rintro ⟨files, hok⟩
        cases hok
      · rintro ⟨⟨hreplaceable, -⟩, ⟨hlocation, -⟩, -⟩
        exact absurd ⟨hlocation hchanges, hreplaceable hchanges⟩ hnot

/-! ### The whole rewrite -/

variable {tree : Tree} {targets : List (Target tree)} {arguments : List Text}

/-- **When a rewrite succeeds**, in terms of the targets that the arguments stand for. -/
theorem write_ok_iff (hsound : tree.Sound) {duration : Nat} (hfree : Files.FreeNames tree duration)
    (hne : arguments ≠ []) (hexpand : Files.expand tree arguments = .ok (targets.map Target.path))
    (hlength : targets.length ≤ duration) (input : Bytes) :
    (∃ files, (write tree input arguments).1 = .ok files) ↔
      (∀ target ∈ targets, Tree.readable target.file.mode = true ∧
        (target.Changes → target.Replaceable)) ∧
      targets.Pairwise fun target target' => target.Changes → target.location ≠ target'.location := by
  by_cases hreadable : ∀ target ∈ targets, Tree.readable target.file.mode = true
  · have hread : Files.readAll tree input arguments = .ok (targets.map Target.source) := by
      refine (Files.readAll_eq_ok_iff hne).2 ⟨_, hexpand, ?_⟩
      rw [List.forall₂_map_left_iff, List.forall₂_map_right_iff, List.forall₂_same]
      exact fun target hmem =>
        Files.readScript_of_names target.names (hreadable target hmem) target.decode_eq
    rw [write_of_readAll hne hread, writeBackAll_ok_iff hsound hfree hreadable (.nil tree)
      (by simpa using hlength), forall₂_and, and_iff_right hreadable]
    simp
  · refine iff_of_false ?_ fun h => hreadable fun target hmem => (h.1 target hmem).1
    rintro ⟨files, hwrite⟩
    cases hread : Files.readAll tree input arguments with
    | error failure =>
      obtain ⟨failure', heq⟩ := write_of_error hread
      rw [heq] at hwrite
      cases hwrite
    | ok sources =>
      obtain ⟨paths, hpaths, hreads⟩ := (Files.readAll_eq_ok_iff hne).1 hread
      obtain rfl : targets.map Target.path = paths := Except.ok.inj (hexpand.symm.trans hpaths)
      refine hreadable fun target hmem => ?_
      obtain ⟨source, -, hsource⟩ := Files.exists_of_forall₂ hreads (List.mem_map_of_mem hmem)
      exact (target.names.of_readScript hsource).1

/-- Where no two paths have the same components, a target that changes is met twice exactly if paths
with different components lead to it. -/
theorem pairwise_changes_iff
    (hnodup : ((targets.map Target.path).map Path.components).Nodup) :
    targets.Pairwise (fun target target' => target.Changes → target.location ≠ target'.location) ↔
      ∀ target ∈ targets, ∀ target' ∈ targets, target.location = target'.location → target.Changes →
        Path.components target.path = Path.components target'.path := by
  constructor
  · intro hpairwise target hmem target' hmem' hlocation hchanges
    have hsymm : Std.Symm fun target target' : Target tree =>
        target.Changes → target.location ≠ target'.location :=
      ⟨fun _ _ h hchanges' heq => h ((Target.changes_congr heq).1 hchanges') heq.symm⟩
    by_contra hcomponents
    have hne : target ≠ target' := by
      rintro rfl
      exact hcomponents rfl
    exact hpairwise.forall hmem hmem' hne hchanges hlocation
  · intro h
    rw [List.map_map, List.Nodup, List.pairwise_map] at hnodup
    exact hnodup.imp_of_mem fun hmem hmem' hcomponents hchanges hlocation =>
      hcomponents (h _ hmem _ hmem' hlocation hchanges)

/-- The targets that are kept of those that arguments name: no two of them have the same components,
and every one that is named has the components of one of them. -/
structure Selects (tree : Tree) (arguments : List Text) (targets : List (Target tree)) : Prop where
  expand_eq : Files.expand tree arguments = .ok (targets.map Target.path)
  named : ∀ target ∈ targets, target.path ∈ Files.named tree arguments
  covers : ∀ target : Target tree, target.path ∈ Files.named tree arguments →
    ∃ kept ∈ targets, Path.components kept.path = Path.components target.path
  nodup : ((targets.map Target.path).map Path.components).Nodup
  length_le : targets.length ≤ (Files.named tree arguments).length

theorem exists_selects (hne : arguments ≠ [])
    (hsome : ∀ argument ∈ arguments, ∃ paths, Files.expandOne tree argument = .ok paths ∧ paths ≠ [])
    (htargets : ∀ path ∈ Files.named tree arguments, ∃ target : Target tree, target.path = path) :
    ∃ targets, Selects tree arguments targets := by
  have hsub : ∀ path ∈ (Files.named tree arguments).foldl Files.addPath [],
      path ∈ Files.named tree arguments := fun path hmem =>
    (Files.mem_of_mem_foldl_addPath hmem).resolve_left List.not_mem_nil
  obtain ⟨targets, hpaths⟩ : ∃ targets : List (Target tree),
      targets.map Target.path = (Files.named tree arguments).foldl Files.addPath [] := by
    rw [← Set.mem_range, Set.range_list_map]
    exact fun path hmem => htargets path (hsub path hmem)
  refine ⟨targets, ?_, fun target hmem => ?_, fun target hmem => ?_, ?_, ?_⟩
  · rw [hpaths]
    exact Files.expand_of_named hne hsome
  · refine hsub _ ?_
    rw [← hpaths]
    exact List.mem_map_of_mem hmem
  · have hcomponents : Path.components target.path ∈
        ((Files.named tree arguments).foldl Files.addPath []).map Path.components :=
      Files.mem_components_foldl_addPath.2 (.inr (List.mem_map_of_mem hmem))
    rw [← hpaths, List.map_map] at hcomponents
    exact List.mem_map.1 hcomponents
  · rw [hpaths]
    exact Files.nodup_foldl_addPath List.nodup_nil
  · have hle := @Files.length_foldl_addPath_le [] (Files.named tree arguments)
    rwa [← hpaths, List.length_map, List.length_nil, Nat.zero_add] at hle

namespace Selects

/-- What is asked of the targets that are kept is asked of all that have one of their paths. -/
theorem forall_iff {P : Target tree → Prop} :
    (∀ target ∈ targets, P target) ↔
      ∀ target : Target tree, target.path ∈ targets.map Target.path → P target := by
  constructor
  · intro h target hmem
    obtain ⟨kept, hkept, hpath⟩ := List.mem_map.1 hmem
    rw [← Target.eq_of_path hpath]
    exact h kept hkept
  · exact fun h target hmem => h target (List.mem_map_of_mem hmem)

/-- A target that changes is met twice exactly if it is named by paths with different components. -/
theorem pairwise_iff (h : Selects tree arguments targets) :
    targets.Pairwise (fun target target' => target.Changes → target.location ≠ target'.location) ↔
      ∀ target target' : Target tree, target.path ∈ Files.named tree arguments →
        target'.path ∈ Files.named tree arguments → target.location = target'.location →
        target.Changes → Path.components target.path = Path.components target'.path := by
  rw [pairwise_changes_iff h.nodup]
  constructor
  · intro hkept target target' hmem hmem' hlocation hchanges
    obtain ⟨kept, hmem_kept, hcomponents⟩ := h.covers target hmem
    obtain ⟨kept', hmem_kept', hcomponents'⟩ := h.covers target' hmem'
    have heq := Target.location_eq_of_components hcomponents
    have heq' := Target.location_eq_of_components hcomponents'
    rw [← hcomponents, ← hcomponents']
    exact hkept kept hmem_kept kept' hmem_kept' (by rw [heq, heq', hlocation])
      ((Target.changes_congr heq).2 hchanges)
  · exact fun hnamed target hmem target' hmem' =>
      hnamed target target' (h.named target hmem) (h.named target' hmem')

/-- **Once all kept targets are rewritten, all that are named are.** -/
theorem converted (h : Selects tree arguments targets) {after : Tree}
    (hrewritten : Rewritten tree after (targets.map Target.path)) (target : Target tree)
    (hmem : target.path ∈ Files.named tree arguments) :
    ∃ entry, after.get? target.location = some entry ∧
      entry.node = .file (convertedBytes target.text) target.file.mode := by
  obtain ⟨kept, hkept, hcomponents⟩ := h.covers target hmem
  have hlocation := Target.location_eq_of_components hcomponents
  obtain ⟨hfile, htext⟩ := Target.file_eq hlocation
  obtain ⟨file, text, entry, hnames, hdecode, hentry, hnode⟩ :=
    hrewritten.named_at (List.mem_map_of_mem hkept) kept.names.resolve_eq
  obtain rfl : kept.file = file := kept.names.unique hnames
  obtain rfl : kept.text = text := Except.ok.inj (kept.decode_eq.symm.trans hdecode)
  rw [hfile, htext] at hnode
  exact ⟨entry, hlocation ▸ hentry, hnode⟩

end Selects

/-- **When a rewrite of good files succeeds.** Let each argument name something, and only files that hold
a text and that nobody has locked. Then the rewrite succeeds exactly if every file may be read, those
that change may be written and have room for a temporary file, and no file that changes is named by paths
that have different components. If it succeeds, every file that is named holds its own contents
converted, with the mode it had. -/
theorem write_named_files (hsound : tree.Sound) (hne : arguments ≠ [])
    (hsome : ∀ argument ∈ arguments, ∃ paths, Files.expandOne tree argument = .ok paths ∧ paths ≠ [])
    (htargets : ∀ path ∈ Files.named tree arguments, ∃ target : Target tree, target.path = path)
    (hfree : Files.FreeNames tree (Files.named tree arguments).length) (input : Bytes) :
    ∃ paths, Files.expand tree arguments = .ok paths ∧
      ((∃ reply, (perform tree input (.convert .write arguments)).1 = .ok reply) ↔
        (∀ target : Target tree, target.path ∈ paths → Tree.readable target.file.mode = true ∧
          (target.Changes → target.Replaceable)) ∧
        ∀ target target' : Target tree, target.path ∈ Files.named tree arguments →
          target'.path ∈ Files.named tree arguments → target.location = target'.location →
          target.Changes → Path.components target.path = Path.components target'.path) ∧
      ∀ reply after, perform tree input (.convert .write arguments) = (.ok reply, after) →
        ∀ target : Target tree, target.path ∈ Files.named tree arguments →
          ∃ entry, after.get? target.location = some entry ∧
            entry.node = .file (convertedBytes target.text) target.file.mode := by
  obtain ⟨targets, hselects⟩ := exists_selects hne hsome htargets
  refine ⟨_, hselects.expand_eq, ?_, fun reply after hperform => ?_⟩
  · rw [perform_write, Files.exists_map_eq_ok_iff,
      write_ok_iff hsound hfree hne hselects.expand_eq hselects.length_le, Selects.forall_iff,
      hselects.pairwise_iff]
  · obtain ⟨done, -, hrewritten, hall⟩ := rewritten_write hselects.expand_eq input
    rw [perform_write, Prod.mk.injEq, Files.map_eq_ok_iff] at hperform
    obtain ⟨⟨written, hwritten, -⟩, rfl⟩ := hperform
    rw [hall written hwritten] at hrewritten
    exact hselects.converted hrewritten

/-- The script of a file that changes. -/
def oldScript : Text :=
  "usacloud ipv4 list\n".toList

/-- A script that changes and one that does not, in the working directory. -/
def oldAndPlain : Tree :=
  ((Tree.start []).create ["a.sh".toList] (.file (Utf8.encode oldScript) 0o644)).create
    ["b.sh".toList] (.file (Utf8.encode plainScript) 0o644)

/-- The script that changes, by a path that leads to it. -/
def oldTarget (path : Text) (h : oldAndPlain.resolve false path = .ok ["a.sh".toList]) :
    Target oldAndPlain where
  path := path
  location := ["a.sh".toList]
  file := ⟨1, 1, Utf8.encode oldScript, 0o644⟩
  text := oldScript
  names := ⟨h, by decide +kernel⟩
  decode_eq := by decide +kernel
  unlocked := by decide +kernel

/-- The script that does not change, by a path that leads to it. -/
def plainTarget (path : Text) (h : oldAndPlain.resolve false path = .ok ["b.sh".toList]) :
    Target oldAndPlain where
  path := path
  location := ["b.sh".toList]
  file := ⟨2, 2, Utf8.encode plainScript, 0o644⟩
  text := plainScript
  names := ⟨h, by decide +kernel⟩
  decode_eq := by decide +kernel
  unlocked := by decide +kernel

theorem sound_oldAndPlain : oldAndPlain.Sound :=
  (Tree.evolves_create _ _ _).sound ((Tree.evolves_create _ _ _).sound (Tree.sound_start []))

theorem freeNames_oldAndPlain (duration : Nat) : Files.FreeNames oldAndPlain duration :=
  Files.freeNames_of_visible (by decide +kernel) duration

theorem changes_oldTarget (path : Text) (h : oldAndPlain.resolve false path = .ok ["a.sh".toList]) :
    (oldTarget path h).Changes := by
  show (Script.process {} oldScript).text ≠ oldScript
  decide +kernel

theorem not_changes_plainTarget (path : Text)
    (h : oldAndPlain.resolve false path = .ok ["b.sh".toList]) : ¬ (plainTarget path h).Changes := by
  show ¬ (Script.process {} plainScript).text ≠ plainScript
  decide +kernel

/-- A pattern names both scripts. The one that does not change may be named again in another way, the one
that changes may not. -/
theorem write_named_files_again :
    (∃ reply after, perform oldAndPlain [] (.convert .write ["./*.sh".toList, "./b.sh".toList]) =
        (.ok reply, after) ∧
      ∃ entry, after.get? ["a.sh".toList] = some entry ∧
        entry.node = .file (convertedBytes oldScript) 0o644) ∧
    ¬ ∃ reply, (perform oldAndPlain [] (.convert .write ["./*.sh".toList, "./a.sh".toList])).1 =
      .ok reply := by
  have hpattern : ∃ paths, Files.expandOne oldAndPlain "./*.sh".toList = .ok paths ∧ paths ≠ [] :=
    ⟨["a.sh".toList, "b.sh".toList], by decide +kernel, by simp⟩
  have hold : oldAndPlain.resolve false "a.sh".toList = .ok ["a.sh".toList] := by decide +kernel
  have hold' : oldAndPlain.resolve false "./a.sh".toList = .ok ["a.sh".toList] := by decide +kernel
  have hplain : oldAndPlain.resolve false "b.sh".toList = .ok ["b.sh".toList] := by decide +kernel
  have hplain' : oldAndPlain.resolve false "./b.sh".toList = .ok ["b.sh".toList] := by decide +kernel
  constructor
  · have hne : ["./*.sh".toList, "./b.sh".toList] ≠ [] := List.cons_ne_nil _ _
    have hnamed : Files.named oldAndPlain ["./*.sh".toList, "./b.sh".toList] =
        ["a.sh".toList, "b.sh".toList, "./b.sh".toList] := by
      decide +kernel
    obtain ⟨paths, hpaths, hiff, hafter⟩ := write_named_files sound_oldAndPlain hne
      (by
        rw [List.forall_mem_cons, List.forall_mem_singleton]
        exact ⟨hpattern, ["./b.sh".toList], by decide +kernel, by simp⟩)
      (by
        rw [hnamed]
        simp only [List.forall_mem_cons]
        exact ⟨⟨oldTarget _ hold, rfl⟩, ⟨plainTarget _ hplain, rfl⟩, ⟨plainTarget _ hplain', rfl⟩,
          by simp⟩)
      (freeNames_oldAndPlain _) []
    have hkept : Files.expand oldAndPlain ["./*.sh".toList, "./b.sh".toList] =
        .ok ["a.sh".toList, "b.sh".toList, "./b.sh".toList] := by
      decide +kernel
    obtain rfl := Except.ok.inj (hkept.symm.trans hpaths)
    rw [hnamed] at hiff hafter
    -- The targets are the script that changes, and twice the one that does not.
    have hcases : ∀ target : Target oldAndPlain,
        target.path ∈ ["a.sh".toList, "b.sh".toList, "./b.sh".toList] →
        target = oldTarget _ hold ∨ target = plainTarget _ hplain ∨ target = plainTarget _ hplain' := by
      intro target hmem
      simp only [List.mem_cons, List.not_mem_nil, or_false] at hmem
      rcases hmem with h | h | h
      · exact .inl (Target.eq_of_path h)
      · exact .inr (.inl (Target.eq_of_path h))
      · exact .inr (.inr (Target.eq_of_path h))
    have hchanges : ∀ target : Target oldAndPlain,
        target.path ∈ ["a.sh".toList, "b.sh".toList, "./b.sh".toList] → target.Changes →
        target = oldTarget _ hold := by
      intro target hmem hchanges
      rcases hcases target hmem with h | h | h
      · exact h
      · exact absurd (h ▸ hchanges) (not_changes_plainTarget _ hplain)
      · exact absurd (h ▸ hchanges) (not_changes_plainTarget _ hplain')
    obtain ⟨reply, hreply⟩ : ∃ reply, _ = Except.ok reply := by
      refine hiff.2 ⟨fun target hmem => ⟨?_, fun h => ?_⟩,
        fun target target' hmem hmem' hlocation h => ?_⟩
      · have hmode : Tree.readable 0o644 = true := by decide
        rcases hcases target hmem with rfl | rfl | rfl <;> exact hmode
      · have hmode : Tree.writable 0o644 = true := by decide
        have hroom : Files.isTooLong "a.sh".toList (Files.temporaryName "a.sh".toList 0 0) = false := by
          decide +kernel
        rw [hchanges target hmem h]
        exact ⟨hmode, hroom⟩
      · rw [hchanges target hmem h, hchanges target' hmem' ((Target.changes_congr hlocation).1 h)]
    refine ⟨reply, _, Prod.ext hreply rfl, ?_⟩
    exact hafter reply _ (Prod.ext hreply rfl) (oldTarget _ hold) (by simp [oldTarget])
  · have hne : ["./*.sh".toList, "./a.sh".toList] ≠ [] := List.cons_ne_nil _ _
    have hnamed : Files.named oldAndPlain ["./*.sh".toList, "./a.sh".toList] =
        ["a.sh".toList, "b.sh".toList, "./a.sh".toList] := by
      decide +kernel
    obtain ⟨paths, -, hiff, -⟩ := write_named_files sound_oldAndPlain hne
      (by
        rw [List.forall_mem_cons, List.forall_mem_singleton]
        exact ⟨hpattern, ["./a.sh".toList], by decide +kernel, by simp⟩)
      (by
        rw [hnamed]
        simp only [List.forall_mem_cons]
        exact ⟨⟨oldTarget _ hold, rfl⟩, ⟨plainTarget _ hplain, rfl⟩, ⟨oldTarget _ hold', rfl⟩,
          by simp⟩)
      (freeNames_oldAndPlain _) []
    rw [hiff, hnamed]
    rintro ⟨-, hcomponents⟩
    have heq : Path.components "a.sh".toList = Path.components "./a.sh".toList :=
      hcomponents (oldTarget _ hold) (oldTarget _ hold') (by simp [oldTarget]) (by simp [oldTarget]) rfl
        (changes_oldTarget _ hold)
    revert heq
    decide +kernel

end Request
end ScriptUpgrade
