/-
# Writing a script back does all or nothing

A script that is written back is `written` as a whole: the file that its path names holds the new
contents with the mode it had, and every other entry of the tree is what it was (`Refilled`). In every
other case the tree is what it was. Which of the cases it is can be told beforehand:

| the script is | exactly if |
| --- | --- |
| `unchanged` | its path leads to something other than a link, and there is nothing new to write |
| `written` | its path names the file that was read, which may be replaced, and there is something new |

For the second there must be room for a temporary file as well.

Between the check of the file and its replacement somebody else may have changed it, so that it is
checked once more when the temporary file is there already. Whatever the tree is like by then, a
replacement that fails takes the temporary file away again (`entries_of_replaceFile_error`).
-/

import ScriptUpgrade.Proofs.GuardedWrite

namespace ScriptUpgrade
namespace Files

open Digest (Bytes)

variable {tree after : Tree} {path : Text} {location : Location} {bytes : Bytes}

namespace Tree

/-- A location without an entry is not listed. -/
theorem ne_of_get?_eq_none (h : tree.get? location = none) :
    ∀ pair ∈ tree.entries, pair.1 ≠ location := by
  intro pair hpair heq
  rw [get?, Option.map_eq_none_iff, List.find?_eq_none] at h
  exact h pair hpair (by simp [heq])

/-- **An entry that was made where there was none and is taken away again leaves no trace.** -/
theorem entries_erase_create (h : tree.get? location = none) (node : Node) :
    ((tree.create location node).erase location).entries = tree.entries := by
  have hkept : tree.entries.filter (fun pair => pair.1 != location) = tree.entries :=
    List.filter_eq_self.2 fun pair hpair => bne_iff_ne.2 (ne_of_get?_eq_none h pair hpair)
  have hcreated : (tree.create location node).entries =
      tree.entries ++ [(location, ⟨tree.clock, tree.clock, node⟩)] := by
    change tree.entries.filter _ ++ _ = _
    rw [hkept]
  change (tree.create location node).entries.filter _ = _
  rw [hcreated, List.filter_append, hkept]
  simp

/-- A path names a file that has other bytes now and the mode it had, and every other entry is what it
was. -/
structure Refilled (before after : Tree) (path : Text) (bytes : Bytes) (location : Location)
    (old new : File) : Prop where
  named : before.Names path location old
  names : after.Names path location new
  bytes_eq : new.bytes = bytes
  mode_eq : new.mode = old.mode
  read_eq : after.read path = .ok bytes
  others : ∀ other, other ≠ location → after.get? other = before.get? other
  here : after.here = before.here
  locks : after.locks = before.locks

end Tree

/-- A file that is replaced is where it was. -/
theorem Replaces.within {file : File} (h : Replaces tree after location (.file bytes file.mode))
    (hfile : tree.get? location = some file.entry) : Tree.Within tree after := by
  refine ⟨h.here, fun other entry hentry => ?_⟩
  rw [h.get?_eq]
  by_cases hother : other = location
  · subst hother
    rw [hfile] at hentry
    cases hentry
    exact ⟨_, if_pos rfl, rfl⟩
  · exact ⟨entry, by rw [if_neg hother, hentry], rfl⟩

/-- **A script that was written back is where it was**, with the new contents. -/
theorem Overwrites.refilled {guard : Guard} {contents : Text} {file : File}
    (h : Overwrites tree path guard contents location file after) :
    Tree.Refilled tree after path (Utf8.encode contents) location file
      ⟨tree.clock, tree.clock, Utf8.encode contents, file.mode⟩ := by
  have hnew : after.get? location =
      some (File.entry ⟨tree.clock, tree.clock, Utf8.encode contents, file.mode⟩) := by
    rw [h.replaces.get?_eq, if_pos rfl]
    rfl
  have hresolve : after.resolve false path = .ok location :=
    Tree.resolve_mono (h.replaces.within h.names.get?_eq) h.names.resolve_eq
  have hnames : after.Names path location
      ⟨tree.clock, tree.clock, Utf8.encode contents, file.mode⟩ := by
    refine ⟨hresolve, ?_⟩
    cases location with
    | nil => exact absurd rfl h.names.not_isDirectory
    | cons name names => exact hnew
  exact {
    named := h.names
    names := hnames
    bytes_eq := rfl
    mode_eq := rfl
    read_eq := hnames.read_eq h.admits.readable
    others := fun other hother => by rw [h.replaces.get?_eq, if_neg hother]
    here := h.replaces.here
    locks := h.replaces.locks }

/-- **A replacement that fails leaves no temporary file**, whatever it finds. -/
theorem entries_of_replaceFile_error {guard : Guard} {failure : Failure}
    (h : replaceFile tree path guard location bytes = (.error failure, after)) :
    after.entries = tree.entries ∧ after.here = tree.here ∧ after.locks = tree.locks := by
  unfold replaceFile at h
  split at h
  · cases h
    exact ⟨rfl, rfl, rfl⟩
  · rename_i name hname
    split at h
    · cases h
      exact ⟨rfl, rfl, rfl⟩
    · dsimp only at h
      split at h
      · cases h
        exact ⟨Tree.entries_erase_create (get?_of_freeName? hname) _, rfl, rfl⟩
      · cases h

/-- A path leads to something other than a link. -/
theorem exists_locate_iff :
    (∃ location, locate tree path = .ok location) ↔
      ∃ entry, tree.entryAt false path = .ok entry ∧ ∀ target, entry.node ≠ .link target := by
  constructor
  · rintro ⟨location, hlocate⟩
    obtain ⟨hresolve, entry, hentry, hnode⟩ := locate_eq_ok_iff.1 hlocate
    exact ⟨entry, Tree.entryAt_eq_of_not_link hresolve hentry hnode false, hnode⟩
  · rintro ⟨entry, hentry, hnode⟩
    obtain ⟨location, hresolve, hentry⟩ := Tree.exists_of_entryAt hentry
    exact ⟨location, locate_eq_ok_iff.2 ⟨hresolve, entry, hentry, hnode⟩⟩

/-- **When there is nothing to do.** -/
theorem writeBack_unchanged_iff (tree : Tree) (source : Source) (contents : Text) :
    (writeBack tree source contents).1 = .ok .unchanged ↔
      contents = source.text ∧ ∃ path guard entry, source.origin = some (path, guard) ∧
        tree.entryAt false path = .ok entry ∧ ∀ target, entry.node ≠ .link target := by
  constructor
  · intro h
    rcases writeBack_cases tree source contents with
      ⟨failure, heq⟩ | ⟨-, hsame, path, guard, location, horigin, hlocate⟩ |
        ⟨-, path, guard, location, file, after, heq, -⟩
    · rw [heq] at h
      cases h
    · obtain ⟨entry, hentry, hnode⟩ := exists_locate_iff.1 ⟨location, hlocate⟩
      exact ⟨hsame, path, guard, entry, horigin, hentry, hnode⟩
    · rw [heq] at h
      cases h
  · rintro ⟨rfl, path, guard, entry, horigin, hentry, hnode⟩
    obtain ⟨location, hlocate⟩ := exists_locate_iff.2 ⟨entry, hentry, hnode⟩
    rw [writeBack_unchanged horigin hlocate]

/-- **When a script is written.** -/
theorem writeBack_written_iff (tree : Tree) (source : Source) (contents : Text) :
    (writeBack tree source contents).1 = .ok .written ↔
      contents ≠ source.text ∧ ∃ path guard location file, source.origin = some (path, guard) ∧
        tree.Names path location file ∧ Admits tree guard file ∧ HasRoom tree path location := by
  constructor
  · intro h
    rcases writeBack_cases tree source contents with
      ⟨failure, heq⟩ | ⟨heq, -⟩ | ⟨hdiffers, path, guard, location, file, after, -, horigin, hover⟩
    · rw [heq] at h
      cases h
    · rw [heq] at h
      cases h
    · exact ⟨hdiffers, path, guard, location, file, horigin, hover.names, hover.admits, hover.room⟩
  · rintro ⟨hdiffers, path, guard, location, file, horigin, hnames, hadmits, hroom⟩
    obtain ⟨after, heq, -⟩ := writeBack_written horigin hdiffers hnames hadmits hroom
    rw [heq]

/-- **Writing a script back does all or nothing**: it is written, and then the file that its path names
holds exactly the contents and nothing else is different; or it is not written, and then nothing is
different at all. A replacement that fails on its way leaves no temporary file either. -/
theorem writeBack_all_or_nothing (tree : Tree) (source : Source) (contents : Text) :
    let result := writeBack tree source contents
    (result.1 = .ok .written ∧
        (∃ path guard location old new, source.origin = some (path, guard) ∧
          Tree.Refilled tree result.2 path (Utf8.encode contents) location old new) ∨
      (result.1 = .ok .unchanged ∨ ∃ failure, result.1 = .error failure) ∧ result.2 = tree) ∧
    (result.1 = .ok .unchanged ↔
      contents = source.text ∧ ∃ path guard entry, source.origin = some (path, guard) ∧
        tree.entryAt false path = .ok entry ∧ ∀ target, entry.node ≠ .link target) ∧
    (result.1 = .ok .written ↔
      contents ≠ source.text ∧ ∃ path guard location file, source.origin = some (path, guard) ∧
        tree.Names path location file ∧ Admits tree guard file ∧ HasRoom tree path location) ∧
    ∀ path guard location bytes failure after,
      replaceFile tree path guard location bytes = (.error failure, after) →
      after.entries = tree.entries ∧ after.here = tree.here ∧ after.locks = tree.locks := by
  intro result
  refine ⟨?_, writeBack_unchanged_iff tree source contents, writeBack_written_iff tree source contents,
    fun _ _ _ _ _ _ h => entries_of_replaceFile_error h⟩
  rcases writeBack_cases tree source contents with
    ⟨failure, heq⟩ | ⟨heq, -⟩ | ⟨-, path, guard, location, file, after, heq, horigin, hover⟩
  · exact .inr ⟨.inr ⟨failure, congrArg Prod.fst heq⟩, congrArg Prod.snd heq⟩
  · exact .inr ⟨.inl (congrArg Prod.fst heq), congrArg Prod.snd heq⟩
  · have hafter : result.2 = after := congrArg Prod.snd heq
    rw [hafter]
    exact .inl ⟨congrArg Prod.fst heq, path, guard, location, file, _, horigin, hover.refilled⟩

/-- The contents of a script, and a file that holds them. -/
def runScript : Text :=
  "usacloud ipv4 list\n".toList

def runFile : File :=
  ⟨1, 1, Utf8.encode runScript, 0o755⟩

/-- A script that may be run, and a link to it. -/
def scriptAndLink : Tree :=
  ((Tree.start []).create ["run.sh".toList] runFile.entry.node).create ["link.sh".toList]
    (.link "run.sh".toList)

/-- The script as it was read, by a path that leads to it or to the link. -/
def runSource (path : Text) : Source :=
  ⟨some (path, runFile.guard), runScript⟩

/-- The script is replaced, with its mode, and the link stays what it is; through the link nothing is
written. -/
theorem writeBack_all_or_nothing_link :
    (∃ after, writeBack scriptAndLink (runSource "run.sh".toList) [] = (.ok .written, after) ∧
      after.read "run.sh".toList = .ok [] ∧ modeAt after ["run.sh".toList] = 0o755 ∧
      after.get? ["link.sh".toList] = scriptAndLink.get? ["link.sh".toList]) ∧
    writeBack scriptAndLink (runSource "link.sh".toList) [] =
      (.error (.invalidRequest (.symbolicLink "link.sh".toList)), scriptAndLink) := by
  constructor
  · have hnames : scriptAndLink.Names "run.sh".toList ["run.sh".toList] runFile :=
      ⟨by decide +kernel, by decide +kernel⟩
    have hadmits : Admits scriptAndLink runFile.guard runFile :=
      ⟨rfl, by decide, by decide, by decide +kernel⟩
    have hroom : HasRoom scriptAndLink "run.sh".toList ["run.sh".toList] :=
      ⟨temporaryName "run.sh".toList 3 0, by decide +kernel, by decide +kernel⟩
    obtain ⟨hcases, -, hiff, -⟩ :=
      writeBack_all_or_nothing scriptAndLink (runSource "run.sh".toList) []
    have hdiffers : [] ≠ runScript := by decide
    have hwritten := hiff.2 ⟨hdiffers, "run.sh".toList, runFile.guard, ["run.sh".toList], runFile,
      rfl, hnames, hadmits, hroom⟩
    generalize writeBack scriptAndLink (runSource "run.sh".toList) [] = result at hcases hwritten
    rcases hcases with ⟨-, path, guard, location, old, new, horigin, hrefilled⟩ | ⟨hother, -⟩
    · cases horigin
      obtain rfl : ["run.sh".toList] = location :=
        Except.ok.inj (hnames.resolve_eq.symm.trans hrefilled.named.resolve_eq)
      obtain rfl := hnames.unique hrefilled.named
      refine ⟨result.2, Prod.ext hwritten rfl, hrefilled.read_eq, ?_, hrefilled.others _ (by decide)⟩
      rw [modeAt, hrefilled.names.get?_eq]
      exact hrefilled.mode_eq
    · rw [hwritten] at hother
      rcases hother with hother | ⟨failure, hother⟩ <;> cases hother
  · have herror : (writeBack scriptAndLink (runSource "link.sh".toList) []).1 =
        .error (.invalidRequest (.symbolicLink "link.sh".toList)) := by
      decide +kernel
    obtain ⟨⟨hwritten, -⟩ | ⟨-, hsame⟩, -⟩ :=
      writeBack_all_or_nothing scriptAndLink (runSource "link.sh".toList) []
    · rw [herror] at hwritten
      cases hwritten
    · exact Prod.ext herror hsame

end Files
end ScriptUpgrade
