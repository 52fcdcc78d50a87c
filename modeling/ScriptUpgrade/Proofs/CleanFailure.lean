/-
# A rewrite that fails, fails cleanly

Scripts are written back one after the other, and the first failure ends the writing. Whatever happens,
the scripts that come first hold their converted text, and all else is as it was (`Rewritten`): a step of
the loop adds one script to those that come first (`Rewritten.writeBack`), so the loop as a whole adds
the scripts up to the first that fails (`rewritten_writeBackAll`). Nothing is written before all scripts
were read, so a script that cannot be read leaves the tree untouched.

A script may be named twice. What is written is the conversion of what was read before the first script
was written, so that a script is never converted twice, whether the second writing is refused or not.
-/

import ScriptUpgrade.Proofs.GuardedWrite
import ScriptUpgrade.Proofs.VisibleChange

namespace ScriptUpgrade
namespace Files
namespace Tree

variable {before after tree : Tree} {path : Text} {location : Location}

/-- A node without the bytes of a file. -/
def frame : Node → Node
  | .file _ mode => .file [] mode
  | .directory => .directory
  | .link target => .link target

theorem outline_frame (node : Node) : outline (frame node) = outline node := by
  cases node <;> rfl

/-- Two trees have the same paths and directories, links to the same targets, and files of the same
modes. -/
structure SameFrame (before after : Tree) : Prop where
  here : after.here = before.here
  frame_eq : ∀ location, (after.get? location).map (fun entry => frame entry.node) =
    (before.get? location).map fun entry => frame entry.node

theorem SameFrame.symm (h : SameFrame before after) : SameFrame after before :=
  ⟨h.here.symm, fun location => (h.frame_eq location).symm⟩

theorem SameFrame.trans {between : Tree} (h : SameFrame before between) (h' : SameFrame between after) :
    SameFrame before after :=
  ⟨h'.here.trans h.here, fun location => (h'.frame_eq location).trans (h.frame_eq location)⟩

theorem SameFrame.within (h : SameFrame before after) : Within before after := by
  refine ⟨h.here, fun location entry hentry => ?_⟩
  have hframe := h.frame_eq location
  rw [hentry, Option.map_some, Option.map_eq_some_iff] at hframe
  obtain ⟨entry', hentry', hframe⟩ := hframe
  exact ⟨entry', hentry', by rw [← outline_frame, hframe, outline_frame]⟩

/-- A path leads to the same place in both. -/
theorem SameFrame.resolve_iff (h : SameFrame before after) {follow : Bool} :
    after.resolve follow path = .ok location ↔ before.resolve follow path = .ok location :=
  ⟨resolve_mono h.symm.within, resolve_mono h.within⟩

end Tree

end Files

namespace Request

open Digest (Bytes)
open Files (Source Tree Location File)

variable {before after tree : Tree} {path text : Text} {location : Location} {file : File}
  {paths done : List Text} {source : Source}

/-- The bytes of a script after its conversion. -/
def convertedBytes (text : Text) : Bytes :=
  Utf8.encode (Script.process {} text).text

/-- The files that some paths name hold their own contents converted, with the modes they had, and
everything else is as it was. -/
structure Rewritten (before after : Tree) (paths : List Text) : Prop where
  here : after.here = before.here
  locks : after.locks = before.locks
  named : ∀ path ∈ paths, ∃ location file text entry, before.Names path location file ∧
    Utf8.decode file.bytes = .ok text ∧ after.get? location = some entry ∧
    entry.node = .file (convertedBytes text) file.mode
  others : ∀ location, (∀ path ∈ paths, before.resolve false path ≠ .ok location) →
    after.get? location = before.get? location

namespace Rewritten

theorem nil (tree : Tree) : Rewritten tree tree [] :=
  ⟨rfl, rfl, by simp, fun _ _ => rfl⟩

theorem named_at (h : Rewritten before after paths) (hmem : path ∈ paths)
    (hresolve : before.resolve false path = .ok location) :
    ∃ file text entry, before.Names path location file ∧ Utf8.decode file.bytes = .ok text ∧
      after.get? location = some entry ∧ entry.node = .file (convertedBytes text) file.mode := by
  obtain ⟨location', file, text, entry, hnames, htext, hentry, hnode⟩ := h.named path hmem
  obtain rfl : location = location' := Except.ok.inj (hresolve.symm.trans hnames.resolve_eq)
  exact ⟨file, text, entry, hnames, htext, hentry, hnode⟩

/-- A file holds its contents converted, or it is as it was. -/
theorem get?_cases (h : Rewritten before after paths) (hnames : before.Names path location file)
    (htext : Utf8.decode file.bytes = .ok text) :
    (∃ entry, after.get? location = some entry ∧
      entry.node = .file (convertedBytes text) file.mode) ∨
    after.get? location = some file.entry := by
  by_cases hpaths : ∃ path ∈ paths, before.resolve false path = .ok location
  · obtain ⟨path', hmem, hresolve⟩ := hpaths
    obtain ⟨file', text', entry, hnames', htext', hentry, hnode⟩ := h.named_at hmem hresolve
    obtain rfl := hnames.unique hnames'
    obtain rfl : text = text' := Except.ok.inj (htext.symm.trans htext')
    exact .inl ⟨entry, hentry, hnode⟩
  · right
    rw [h.others location fun path' hmem hresolve => hpaths ⟨path', hmem, hresolve⟩, hnames.get?_eq]

theorem sameFrame (h : Rewritten before after paths) : Tree.SameFrame before after := by
  refine ⟨h.here, fun location => ?_⟩
  by_cases hpaths : ∃ path ∈ paths, before.resolve false path = .ok location
  · obtain ⟨path, hmem, hresolve⟩ := hpaths
    obtain ⟨file, text, entry, hnames, -, hentry, hnode⟩ := h.named_at hmem hresolve
    rw [hentry, hnames.get?_eq, Option.map_some, Option.map_some, hnode]
    rfl
  · rw [h.others location fun path hmem hresolve => hpaths ⟨path, hmem, hresolve⟩]

/-- One more file is converted. -/
theorem snoc (h : Rewritten before tree done) (hnames : before.Names path location file)
    (htext : Utf8.decode file.bytes = .ok text) {entry : Files.Entry}
    (hentry : after.get? location = some entry) (hnode : entry.node = .file (convertedBytes text) file.mode)
    (hothers : ∀ other, other ≠ location → after.get? other = tree.get? other)
    (hhere : after.here = tree.here) (hlocks : after.locks = tree.locks) :
    Rewritten before after (done ++ [path]) := by
  refine ⟨hhere.trans h.here, hlocks.trans h.locks, fun path' hmem => ?_, fun other hother => ?_⟩
  · rcases List.mem_append.1 hmem with hmem | hmem
    · obtain ⟨location', file', text', entry', hnames', htext', hentry', hnode'⟩ := h.named path' hmem
      by_cases hlocation : location' = location
      · subst hlocation
        obtain rfl := hnames.unique hnames'
        obtain rfl : text = text' := Except.ok.inj (htext.symm.trans htext')
        exact ⟨location', file, text, entry, hnames', htext, hentry, hnode⟩
      · exact ⟨location', file', text', entry', hnames', htext',
          (hothers location' hlocation).trans hentry', hnode'⟩
    · rw [List.mem_singleton.1 hmem]
      exact ⟨location, file, text, entry, hnames, htext, hentry, hnode⟩
  · have hlocation : other ≠ location := by
      rintro rfl
      exact hother path (by simp) hnames.resolve_eq
    rw [hothers other hlocation]
    exact h.others other fun path' hmem => hother path' (List.mem_append_left _ hmem)

end Rewritten

/-- A script that was read from a path that ends at no link was read from the file that the path
names. -/
theorem names_of_locate (hread : Files.readScript before path = .ok source)
    (hlocate : Files.locate before path = .ok location) :
    ∃ file, before.Names path location file ∧ Utf8.decode file.bytes = .ok source.text := by
  obtain ⟨hresolve, entry, hentry, hnode⟩ := Files.locate_eq_ok_iff.1 hlocate
  obtain ⟨entry', bytes, text, hentry', hbytes, htext, rfl⟩ := Files.exists_of_readScript hread
  obtain ⟨file, hfile, rfl, -⟩ := Tree.exists_of_read hbytes
  rw [Tree.entryAt_eq_of_not_link hresolve hentry hnode] at hfile
  cases hfile
  exact ⟨file, ⟨hresolve, hentry⟩, htext⟩

theorem locate_of_sameFrame (h : Tree.SameFrame before after)
    (hlocate : Files.locate after path = .ok location) : Files.locate before path = .ok location := by
  obtain ⟨hresolve, entry, hentry, hnode⟩ := Files.locate_eq_ok_iff.1 hlocate
  refine Files.locate_eq_ok_iff.2 ⟨h.resolve_iff.1 hresolve, ?_⟩
  cases location with
  | nil => exact ⟨Tree.root, rfl, by simp [Tree.root]⟩
  | cons name names =>
    obtain ⟨entry', hentry', houtline⟩ := h.symm.within.entry _ _ hentry
    exact ⟨entry', hentry', fun target hlink =>
      hnode target ((Tree.eq_link_iff_of_outline houtline).1 hlink)⟩

/-- **What one step of the loop does**: nothing, or it converts one more file. -/
theorem Rewritten.writeBack (h : Rewritten before tree done)
    (hread : Files.readScript before path = .ok source) :
    (∃ failure, Files.writeBack tree source (reportOn source).text = (.error failure, tree)) ∨
    ∃ outcome after, Files.writeBack tree source (reportOn source).text = (.ok outcome, after) ∧
      Rewritten before after (done ++ [path]) := by
  have horigin : ∀ path' guard, source.origin = some (path', guard) → path' = path := by
    obtain ⟨_, _, _, -, -, -, rfl⟩ := Files.exists_of_readScript hread
    rintro path' guard hsome
    cases hsome
    rfl
  rcases Files.writeBack_cases tree source (reportOn source).text with
    hfailure | ⟨heq, hsame, path', guard, location, hsome, hlocate⟩ |
      ⟨-, path', guard, location, file, after, heq, hsome, hover⟩
  · exact .inl hfailure
  · obtain rfl := horigin path' guard hsome
    obtain ⟨file, hnames, htext⟩ := names_of_locate hread (locate_of_sameFrame h.sameFrame hlocate)
    refine .inr ⟨.unchanged, tree, heq, ?_⟩
    have hbytes : file.bytes = convertedBytes source.text := by
      rw [← Utf8.encode_of_decode htext, convertedBytes]
      exact congrArg Utf8.encode hsame.symm
    rcases h.get?_cases hnames htext with ⟨entry, hentry, hnode⟩ | hentry
    · exact h.snoc hnames htext hentry hnode (fun _ _ => rfl) rfl rfl
    · exact h.snoc hnames htext hentry (by rw [← hbytes]; rfl) (fun _ _ => rfl) rfl rfl
  · obtain rfl := horigin path' guard hsome
    obtain ⟨old, hnames, htext⟩ :=
      names_of_locate hread (locate_of_sameFrame h.sameFrame hover.names.locate_eq)
    have hmode : file.mode = old.mode := by
      have hframe := h.sameFrame.frame_eq location
      rw [hover.names.get?_eq, hnames.get?_eq] at hframe
      simpa [File.entry, Tree.frame] using hframe
    have hentry : after.get? location =
        some ⟨tree.clock, tree.clock, .file (convertedBytes source.text) old.mode⟩ := by
      rw [hover.replaces.get?_eq, if_pos rfl, hmode]
      rfl
    refine .inr ⟨.written, after, heq, h.snoc hnames htext hentry rfl (fun other hother => ?_)
      hover.replaces.here hover.replaces.locks⟩
    rw [hover.replaces.get?_eq, if_neg hother]

/-- **The loop converts the files up to the first that fails.** -/
theorem rewritten_writeBackAll {sources : List Source} (h : Rewritten before tree done)
    (hreads : List.Forall₂ (fun path source => Files.readScript before path = .ok source) paths sources) :
    ∃ more, more <+: paths ∧ Rewritten before (writeBackAll tree sources).2 (done ++ more) ∧
      ∀ written, (writeBackAll tree sources).1 = .ok written → more = paths := by
  induction hreads generalizing tree done with
  | nil => exact ⟨[], List.prefix_rfl, by rwa [List.append_nil], fun _ _ => rfl⟩
  | @cons path source paths sources hread _ ih =>
    unfold writeBackAll
    rcases h.writeBack hread with ⟨failure, heq⟩ | ⟨outcome, after, heq, hafter⟩
    · simp only [heq]
      refine ⟨[], List.nil_prefix, by rwa [List.append_nil], fun written hok => ?_⟩
      cases hok
    · simp only [heq]
      obtain ⟨more, hmore, hrewritten, hall⟩ := ih hafter
      refine ⟨path :: more, (List.prefix_cons_inj path).2 hmore, ?_, fun written hok => ?_⟩
      · rwa [List.append_cons]
      · obtain ⟨others, hrest, -⟩ := Files.map_eq_ok_iff.1 hok
        rw [hall others hrest]

/-- Nothing is written if there is nothing to write to, or if not all of it can be read. -/
theorem write_of_error {input : Bytes} {files : List Text} {failure : Failure}
    (h : Files.readAll tree input files = .error failure) :
    ∃ failure', write tree input files = (.error failure', tree) := by
  unfold write
  split
  · exact ⟨_, rfl⟩
  · rw [h]
    exact ⟨failure, rfl⟩

theorem write_of_readAll {input : Bytes} {files : List Text} (hne : files ≠ []) {sources : List Source}
    (h : Files.readAll tree input files = .ok sources) :
    write tree input files = writeBackAll tree sources := by
  rw [write, if_neg (by simpa using hne), h]

/-- Arguments that cannot be expanded cannot be read. -/
theorem write_of_expand_error {input : Bytes} {files : List Text} {failure : Failure}
    (h : Files.expand tree files = .error failure) :
    ∃ failure', write tree input files = (.error failure', tree) := by
  by_cases hne : files = []
  · subst hne
    exact ⟨_, rfl⟩
  · have hread : Files.readAll tree input files = .error failure := by
      rw [Files.readAll, if_neg (by simpa using hne), h]
      rfl
    exact write_of_error hread

/-- One path that cannot be read is enough. -/
theorem write_of_unreadable {input : Bytes} {files : List Text}
    (hexpand : Files.expand tree files = .ok paths) (hmem : path ∈ paths) {failure : Failure}
    (h : Files.readScript tree path = .error failure) :
    ∃ failure', write tree input files = (.error failure', tree) := by
  by_cases hne : files = []
  · subst hne
    exact ⟨_, rfl⟩
  · cases hread : Files.readAll tree input files with
    | error failure' => exact write_of_error hread
    | ok sources =>
      obtain ⟨paths', hexpand', hreads⟩ := (Files.readAll_eq_ok_iff hne).1 hread
      obtain rfl : paths = paths' := Except.ok.inj (hexpand.symm.trans hexpand')
      obtain ⟨source, -, hsource⟩ := Files.exists_of_forall₂ hreads hmem
      rw [hsource] at h
      cases h

/-- **A rewrite converts the files up to the first that fails**, all of them if it succeeds. -/
theorem rewritten_write {files : List Text} (hexpand : Files.expand tree files = .ok paths)
    (input : Bytes) :
    ∃ done, done <+: paths ∧ Rewritten tree (write tree input files).2 done ∧
      ∀ written, (write tree input files).1 = .ok written → done = paths := by
  have hne : files ≠ [] := by
    rintro rfl
    cases hexpand
  cases hread : Files.readAll tree input files with
  | error failure =>
    obtain ⟨failure', hwrite⟩ := write_of_error hread
    rw [hwrite]
    refine ⟨[], List.nil_prefix, .nil tree, fun written hok => ?_⟩
    cases hok
  | ok sources =>
    obtain ⟨paths', hexpand', hreads⟩ := (Files.readAll_eq_ok_iff hne).1 hread
    obtain rfl : paths = paths' := Except.ok.inj (hexpand.symm.trans hexpand')
    rw [write_of_readAll hne hread]
    exact rewritten_writeBackAll (.nil tree) hreads

/-- **A rewrite fails cleanly.** Whether it succeeds or not, the paths, directories, links and modes of
the tree are the same afterwards. If the arguments name nothing, or something that cannot be read,
nothing was done at all. Otherwise the files that come first among those that are named hold their own
contents converted, everything else is as it was, and if the rewrite succeeded, those are all that are
named. -/
theorem write_fails_cleanly {input : Bytes} {files : List Text} {result : Except Failure Reply}
    (h : perform tree input (.convert .write files) = (result, after)) :
    Tree.SameFrame tree after ∧ after.locks = tree.locks ∧
    (∀ failure, Files.expand tree files = .error failure →
      after = tree ∧ ∃ failure', result = .error failure') ∧
    ∀ paths, Files.expand tree files = .ok paths →
      ((∃ path ∈ paths, ∃ failure, Files.readScript tree path = .error failure) →
        after = tree ∧ ∃ failure', result = .error failure') ∧
      ∃ done, done <+: paths ∧ Rewritten tree after done ∧ ∀ reply, result = .ok reply → done = paths := by
  rw [perform_write, Prod.mk.injEq] at h
  obtain ⟨rfl, rfl⟩ := h
  cases hexpand : Files.expand tree files with
  | error failure =>
    obtain ⟨failure', hwrite⟩ := write_of_expand_error hexpand
    rw [hwrite]
    refine ⟨(Rewritten.nil tree).sameFrame, rfl, fun _ _ => ⟨rfl, failure', rfl⟩, fun paths hpaths => ?_⟩
    cases hpaths
  | ok paths =>
    obtain ⟨done, hdone, hrewritten, hall⟩ := rewritten_write hexpand input
    refine ⟨hrewritten.sameFrame, hrewritten.locks, fun failure hfailure => ?_, fun paths' hpaths => ?_⟩
    · cases hfailure
    · cases hpaths
      refine ⟨?_, done, hdone, hrewritten, fun reply hok => ?_⟩
      · rintro ⟨path, hmem, failure, hfailure⟩
        obtain ⟨failure', hwrite⟩ := write_of_unreadable hexpand hmem hfailure
        rw [hwrite]
        exact ⟨rfl, failure', rfl⟩
      · obtain ⟨written, hwritten, -⟩ := Files.map_eq_ok_iff.1 hok
        exact hall written hwritten

/-- Two scripts with something to convert and a link to the second, in the working directory. -/
def linkBetween : Tree where
  entries :=
    [(["a.sh".toList], ⟨1, 1, .file (Utf8.encode "usacloud ipv4 list\n".toList) 0o644⟩),
     (["b.sh".toList], ⟨2, 2, .link "c.sh".toList⟩),
     (["c.sh".toList], ⟨3, 3, .file (Utf8.encode "usacloud ipv4 list\n".toList) 0o755⟩)]
  here := []
  clock := 4
  locks := []

/-- The link is refused after the first script was written. -/
theorem write_fails_cleanly_link_between :
    Files.expand linkBetween ["*.sh".toList] = .ok ["a.sh".toList, "b.sh".toList, "c.sh".toList] ∧
    ∃ result after, perform linkBetween [] (.convert .write ["*.sh".toList]) = (result, after) ∧
      result = .error (.invalidRequest (.symbolicLink "b.sh".toList)) ∧ after ≠ linkBetween ∧
      Tree.SameFrame linkBetween after ∧
      ∃ done, done <+: ["a.sh".toList, "b.sh".toList, "c.sh".toList] ∧
        Rewritten linkBetween after done := by
  have hexpand : Files.expand linkBetween ["*.sh".toList] =
      .ok ["a.sh".toList, "b.sh".toList, "c.sh".toList] := by
    decide +kernel
  have hresult : (write linkBetween [] ["*.sh".toList]).1 =
      .error (.invalidRequest (.symbolicLink "b.sh".toList)) := by
    decide +kernel
  have hafter : (write linkBetween [] ["*.sh".toList]).2 ≠ linkBetween := by
    decide +kernel
  have hperform := perform_write linkBetween [] ["*.sh".toList]
  rw [hresult] at hperform
  obtain ⟨hframe, -, -, hpaths⟩ := write_fails_cleanly hperform
  obtain ⟨-, done, hdone, hrewritten, -⟩ := hpaths _ hexpand
  exact ⟨hexpand, _, _, hperform, rfl, hafter, hframe, done, hdone, hrewritten⟩

end Request
end ScriptUpgrade
