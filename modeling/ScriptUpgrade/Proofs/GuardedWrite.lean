/-
# Reading a script and writing it back

What the operations on one script do, said once so that nothing else has to look into them. A path that
leads to a file and does not end with a symbolic link `Names` the file; about such a path every
operation has a short answer. Writing a script back ends in one of three ways (`writeBack_cases`):

- it fails, and nothing happened;
- the script is `unchanged`: nothing happened either, and the new contents are those that were read;
- the script is `written`: a new file with the new contents and the old mode stands in the place of the
  old one (`Replaces`), and the old one was what the script had been read from (`Admits`).

The temporary file leaves no trace: it stands at a location that had no entry before, so that no path
leads elsewhere while it is there (`Names.create`), and it is moved away from there.
-/

import Mathlib.Data.List.Forall2
import ScriptUpgrade.Files.Source
import ScriptUpgrade.Proofs.PathWalk

namespace ScriptUpgrade
namespace Files

open Digest (Bytes)

theorem bind_eq_ok_iff {ε α β : Type} {x : Except ε α} {f : α → Except ε β} {b : β} :
    x >>= f = .ok b ↔ ∃ a, x = .ok a ∧ f a = .ok b := by
  cases x <;> simp [bind, Except.bind]

theorem map_eq_ok_iff {ε α β : Type} {x : Except ε α} {f : α → β} {b : β} :
    x.map f = .ok b ↔ ∃ a, x = .ok a ∧ f a = b := by
  cases x <;> simp [Except.map]

theorem exists_map_eq_ok_iff {ε α β : Type} {x : Except ε α} {f : α → β} :
    (∃ b, x.map f = .ok b) ↔ ∃ a, x = .ok a := by
  cases x <;> simp [Except.map]

theorem accessing_eq_ok_iff {α : Type} {path : Text} {x : Except Trouble α} {a : α} :
    accessing path x = .ok a ↔ x = .ok a := by
  cases x <;> simp [accessing]

/-! ### Files -/

/-- A file, with the identity and the time of its entry. -/
structure File where
  id : Nat
  modified : Int
  bytes : Bytes
  mode : Nat
deriving DecidableEq, Repr

namespace File

/-- The entry of a file. -/
def entry (file : File) : Entry :=
  ⟨file.id, file.modified, .file file.bytes file.mode⟩

/-- What is remembered of a file when it is read. -/
def guard (file : File) : Guard :=
  ⟨⟨file.id, file.bytes.length, Tree.sinceEpoch? file.modified⟩, Digest.ofBytes file.bytes⟩

theorem stampOf_entry (file : File) : Tree.stampOf file.entry = file.guard.stamp := rfl

/-- A file is determined by its entry. -/
theorem entry_injective {file file' : File} (h : file.entry = file'.entry) : file = file' := by
  obtain ⟨id, modified, bytes, mode⟩ := file
  obtain ⟨id', modified', bytes', mode'⟩ := file'
  simpa [entry, and_assoc] using h

end File

namespace Tree

variable {tree tree' : Tree} {path : Text} {location : Location} {file : File} {entry : Entry}

/-- A path leads to a file, and no symbolic link is at its end. -/
structure Names (tree : Tree) (path : Text) (location : Location) (file : File) : Prop where
  resolve_eq : tree.resolve false path = .ok location
  entry?_eq : tree.entry? location = some file.entry

/-- The root is no file, so that every file has an entry. -/
theorem get?_eq_of_file (h : tree.entry? location = some file.entry) :
    tree.get? location = some file.entry := by
  cases location with
  | nil => exact absurd (congrArg Entry.node (Option.some.inj h)) (by simp [root, File.entry])
  | cons name names => exact h

/-- It makes no difference whether a link at the end is followed if there is none. -/
theorem entryAt_eq_of_not_link (hresolve : tree.resolve false path = .ok location)
    (hentry : tree.entry? location = some entry) (hnode : ∀ target, entry.node ≠ .link target)
    (follow : Bool) : tree.entryAt follow path = .ok entry := by
  have hresolve' : tree.resolve follow path = .ok location := by
    cases follow with
    | false => exact hresolve
    | true =>
      refine resolve_follow hresolve fun entry' target hentry' => ?_
      rw [hentry] at hentry'
      cases hentry'
      exact hnode target
  simp only [entryAt, hresolve', bind, Except.bind, hentry]

theorem exists_of_entryAt {follow : Bool} (h : tree.entryAt follow path = .ok entry) :
    ∃ location, tree.resolve follow path = .ok location ∧ tree.entry? location = some entry := by
  simp only [entryAt, bind_eq_ok_iff] at h
  obtain ⟨location, hresolve, h⟩ := h
  split at h
  · rename_i hentry
    cases h
    exact ⟨location, hresolve, hentry⟩
  · cases h

/-- What can be read is a file that its owner may read. -/
theorem exists_of_read {bytes : Bytes} (h : tree.read path = .ok bytes) :
    ∃ file : File, tree.entryAt true path = .ok file.entry ∧ file.bytes = bytes ∧
      readable file.mode = true := by
  simp only [Tree.read, bind_eq_ok_iff] at h
  obtain ⟨⟨id, modified, node⟩, hentry, h⟩ := h
  cases node with
  | file bytes' mode =>
    dsimp only at h
    split at h
    · rename_i hreadable
      cases h
      exact ⟨⟨id, modified, bytes, mode⟩, hentry, rfl, hreadable⟩
    · cases h
  | directory => cases h
  | link target => cases h

/-- What can be opened for writing is a file that its owner may read and write. -/
theorem exists_of_openForWriting {id : Nat} (h : tree.openForWriting path = .ok id) :
    ∃ file : File, tree.entryAt true path = .ok file.entry ∧ file.id = id ∧ readable file.mode = true ∧
      writable file.mode = true := by
  simp only [openForWriting, bind_eq_ok_iff] at h
  obtain ⟨⟨id', modified, node⟩, hentry, h⟩ := h
  cases node with
  | file bytes mode =>
    dsimp only at h
    split at h
    · rename_i haccess
      cases h
      rw [Bool.and_eq_true] at haccess
      exact ⟨⟨id, modified, bytes, mode⟩, hentry, rfl, haccess⟩
    · cases h
  | directory => cases h
  | link target => cases h

namespace Names

theorem get?_eq (h : tree.Names path location file) : tree.get? location = some file.entry :=
  get?_eq_of_file h.entry?_eq

/-- One location has one file. -/
theorem unique {path' : Text} {file' : File} (h : tree.Names path location file)
    (h' : tree.Names path' location file') : file = file' :=
  File.entry_injective (Option.some.inj (h.entry?_eq.symm.trans h'.entry?_eq))

theorem not_isDirectory (h : tree.Names path location file) : ¬ tree.IsDirectory location := by
  rw [IsDirectory, h.entry?_eq]
  simp [File.entry]

theorem entryAt_eq (h : tree.Names path location file) (follow : Bool) :
    tree.entryAt follow path = .ok file.entry :=
  entryAt_eq_of_not_link h.resolve_eq h.entry?_eq (by simp [File.entry]) follow

theorem read_eq (h : tree.Names path location file) (hreadable : readable file.mode = true) :
    tree.read path = .ok file.bytes := by
  rw [Tree.read, h.entryAt_eq true]
  exact if_pos hreadable

theorem openForWriting_eq (h : tree.Names path location file)
    (hreadable : readable file.mode = true) (hwritable : writable file.mode = true) :
    tree.openForWriting path = .ok file.id := by
  rw [openForWriting, h.entryAt_eq true]
  exact if_pos (by rw [hreadable, hwritable]; rfl)

/-- A path names the same file in a tree that has all the entries, if the file is still there. -/
theorem mono (hwithin : Within tree tree') (h : tree.Names path location file)
    (hfile : tree'.get? location = some file.entry) : tree'.Names path location file := by
  refine ⟨resolve_mono hwithin h.resolve_eq, ?_⟩
  cases location with
  | nil => exact h.entry?_eq
  | cons name names => exact hfile

/-- A new entry at a location that had none leaves a named file where it is. -/
theorem create (h : tree.Names path location file) {other : Location} (node : Node)
    (hother : tree.get? other = none) : (tree.create other node).Names path location file := by
  have hget : ∀ place entry, tree.get? place = some entry →
      (tree.create other node).get? place = some entry := by
    intro place entry hentry
    rw [get?_create, if_neg, hentry]
    rintro rfl
    rw [hentry] at hother
    cases hother
  have hwithin : Within tree (tree.create other node) :=
    ⟨rfl, fun place entry hentry => ⟨entry, hget place entry hentry, rfl⟩⟩
  exact h.mono hwithin (hget location file.entry h.get?_eq)

end Names
end Tree

variable {tree : Tree} {path : Text} {location : Location} {file : File} {guard : Guard}

/-! ### Reading -/

/-- What was read: the entry at the path is remembered, and the bytes that it leads to. -/
theorem exists_of_readScript {source : Source} (h : readScript tree path = .ok source) :
    ∃ entry bytes text, tree.entryAt false path = .ok entry ∧ tree.read path = .ok bytes ∧
      Utf8.decode bytes = .ok text ∧
      source = ⟨some (path, ⟨Tree.stampOf entry, Digest.ofBytes bytes⟩), text⟩ := by
  simp only [readScript, bind_eq_ok_iff, accessing_eq_ok_iff] at h
  obtain ⟨entry, hentry, bytes, hbytes, h⟩ := h
  split at h
  · rename_i text htext
    cases h
    exact ⟨entry, bytes, text, hentry, hbytes, htext, rfl⟩
  · cases h

/-- A file that may be read and is a text is read. -/
theorem readScript_of_names (h : tree.Names path location file)
    (hreadable : Tree.readable file.mode = true) {text : Text}
    (htext : Utf8.decode file.bytes = .ok text) :
    readScript tree path = .ok ⟨some (path, file.guard), text⟩ := by
  simp only [readScript, bind_eq_ok_iff, accessing_eq_ok_iff]
  refine ⟨file.entry, h.entryAt_eq false, file.bytes, h.read_eq hreadable, ?_⟩
  rw [htext]
  rfl

/-- **What is read from a file is the file.** -/
theorem Tree.Names.of_readScript (h : tree.Names path location file) {source : Source}
    (hread : readScript tree path = .ok source) :
    Tree.readable file.mode = true ∧ ∃ text, Utf8.decode file.bytes = .ok text ∧
      source = ⟨some (path, file.guard), text⟩ := by
  obtain ⟨entry, bytes, text, hentry, hbytes, htext, rfl⟩ := exists_of_readScript hread
  obtain ⟨file', hentry', rfl, hreadable⟩ := Tree.exists_of_read hbytes
  rw [h.entryAt_eq] at hentry hentry'
  cases hentry
  obtain rfl : file = file' := File.entry_injective (Except.ok.inj hentry')
  exact ⟨hreadable, text, htext, rfl⟩

/-- What is done to all elements of a list succeeds if it succeeds for each of them. -/
theorem mapM_eq_ok_iff {ε α β : Type} {f : α → Except ε β} {xs : List α} {ys : List β} :
    xs.mapM f = .ok ys ↔ List.Forall₂ (fun x y => f x = .ok y) xs ys := by
  induction xs generalizing ys with
  | nil =>
    rw [List.mapM_nil, List.forall₂_nil_left_iff]
    exact ⟨fun h => (Except.ok.inj h).symm, fun h => congrArg Except.ok h.symm⟩
  | cons x xs ih =>
    simp only [List.mapM_cons, bind_eq_ok_iff, ih, List.forall₂_cons_left_iff]
    constructor
    · rintro ⟨y, hy, ys', hys, h⟩
      exact ⟨y, ys', hy, hys, (Except.ok.inj h).symm⟩
    · rintro ⟨y, ys', hy, hys, rfl⟩
      exact ⟨y, hy, ys', hys, rfl⟩

/-- Every element has a partner. -/
theorem exists_of_forall₂ {α β : Type} {R : α → β → Prop} {xs : List α} {ys : List β}
    (h : List.Forall₂ R xs ys) {x : α} (hmem : x ∈ xs) : ∃ y ∈ ys, R x y := by
  induction h with
  | nil => cases hmem
  | @cons x' y' _ _ hhead _ ih =>
    rcases List.mem_cons.1 hmem with rfl | hmem
    · exact ⟨y', List.mem_cons_self, hhead⟩
    · obtain ⟨y, hy, hxy⟩ := ih hmem
      exact ⟨y, List.mem_cons_of_mem _ hy, hxy⟩

/-- **The scripts that arguments name are read one by one**, from the paths that the arguments stand
for. -/
theorem readAll_eq_ok_iff {input : Bytes} {arguments : List Text} (hne : arguments ≠ [])
    {sources : List Source} :
    readAll tree input arguments = .ok sources ↔
      ∃ paths, expand tree arguments = .ok paths ∧
        List.Forall₂ (fun path source => readScript tree path = .ok source) paths sources := by
  rw [readAll, if_neg (by simpa using hne), bind_eq_ok_iff]
  simp only [mapM_eq_ok_iff]

/-! ### Writing back -/

/-- What has to hold of a file for a script to be written back to it: it is what was read, its owner may
read and write it, and nobody has locked it. -/
structure Admits (tree : Tree) (guard : Guard) (file : File) : Prop where
  guard_eq : guard = file.guard
  readable : Tree.readable file.mode = true
  writable : Tree.writable file.mode = true
  unlocked : file.id ∉ tree.locks

/-- There is room for a temporary file next to a location: a name that is free and not too long. -/
def HasRoom (tree : Tree) (path : Text) (location : Location) : Prop :=
  ∃ name, freeName? tree location = some name ∧ isTooLong path name = false

/-- In place of what was at a location there is a new entry, and nothing else is different. -/
structure Replaces (before after : Tree) (location : Location) (node : Node) : Prop where
  get?_eq : ∀ other, after.get? other =
    if other = location then some ⟨before.clock, before.clock, node⟩ else before.get? other
  here : after.here = before.here
  clock : after.clock = before.clock + 1
  locks : after.locks = before.locks

/-- **A file that is what was read passes the check**, if it may be read. -/
theorem verify_of_names (h : tree.Names path location file) (hreadable : Tree.readable file.mode = true) :
    verify tree path file.guard = .ok () := by
  simp only [verify, h.entryAt_eq false, h.read_eq hreadable, File.stampOf_entry, accessing, bind,
    Except.bind, ne_eq, not_true_eq_false, if_false, File.guard]
  rfl

/-- **Nothing else passes the check.** -/
theorem eq_guard_of_verify (h : tree.Names path location file) (hreadable : Tree.readable file.mode = true)
    (hverify : verify tree path guard = .ok ()) : guard = file.guard := by
  simp only [verify, h.entryAt_eq false, h.read_eq hreadable, File.stampOf_entry, accessing, bind,
    Except.bind] at hverify
  split at hverify
  · cases hverify
  · rename_i hstamp
    split at hverify
    · cases hverify
    · rename_i hdigest
      rw [not_not] at hstamp hdigest
      obtain ⟨stamp, digest⟩ := guard
      rw [File.guard, Guard.mk.injEq]
      exact ⟨hstamp.symm, hdigest.symm⟩

/-- What a script that can be written back may be: anything but a link. -/
theorem locate_eq_ok_iff :
    locate tree path = .ok location ↔
      tree.resolve false path = .ok location ∧ ∃ entry, tree.entry? location = some entry ∧
        ∀ target, entry.node ≠ .link target := by
  simp only [locate, bind_eq_ok_iff, accessing_eq_ok_iff]
  constructor
  · rintro ⟨location', hresolve, entry, hentry, h⟩
    obtain ⟨location'', hresolve', hentry'⟩ := Tree.exists_of_entryAt hentry
    rw [hresolve] at hresolve'
    cases hresolve'
    split at h
    · cases h
    · rename_i hnode
      cases h
      exact ⟨hresolve, entry, hentry', hnode⟩
  · rintro ⟨hresolve, entry, hentry, hnode⟩
    refine ⟨location, hresolve, entry, Tree.entryAt_eq_of_not_link hresolve hentry hnode false, ?_⟩
    split
    · rename_i target hlink
      exact absurd hlink (hnode target)
    · rfl

theorem Tree.Names.locate_eq (h : tree.Names path location file) : locate tree path = .ok location :=
  locate_eq_ok_iff.2 ⟨h.resolve_eq, file.entry, h.entry?_eq, by simp [File.entry]⟩

/-- A lock can be taken if nobody else has it. -/
theorem lock_of_names (h : tree.Names path location file) (hadmits : Admits tree guard file) :
    lock tree path = .ok () := by
  simp only [lock, h.openForWriting_eq hadmits.readable hadmits.writable, accessing, bind, Except.bind]
  rw [if_neg (by simpa using hadmits.unlocked)]
  rfl

/-- **What has to hold before a script is replaced.** -/
theorem prepare_eq_ok_iff (hlocate : locate tree path = .ok location) :
    prepare tree path guard = .ok () ↔
      ∃ file, tree.Names path location file ∧ Admits tree guard file := by
  simp only [prepare, bind_eq_ok_iff]
  constructor
  · rintro ⟨_, hlock, hverify⟩
    simp only [lock, bind_eq_ok_iff, accessing_eq_ok_iff] at hlock
    obtain ⟨id, hopen, hlock⟩ := hlock
    obtain ⟨file, hfile, rfl, hreadable, hwritable⟩ := Tree.exists_of_openForWriting hopen
    obtain ⟨hresolve, entry, hentry, hnode⟩ := locate_eq_ok_iff.1 hlocate
    rw [Tree.entryAt_eq_of_not_link hresolve hentry hnode] at hfile
    cases hfile
    have hnames : tree.Names path location file := ⟨hresolve, hentry⟩
    refine ⟨file, hnames, eq_guard_of_verify hnames hreadable hverify, hreadable, hwritable, ?_⟩
    intro hlocked
    rw [if_pos (by simpa using hlocked)] at hlock
    cases hlock
  · rintro ⟨file, hnames, hadmits⟩
    refine ⟨(), lock_of_names hnames hadmits, ?_⟩
    rw [hadmits.guard_eq]
    exact verify_of_names hnames hadmits.readable

/-- A name that is free has no entry. -/
theorem get?_of_freeName? {name : Text} (h : freeName? tree location = some name) :
    tree.get? (location.dropLast ++ [name]) = none := by
  simpa using List.find?_some h

/-- **A temporary file that is moved to the place of a file replaces it**, and nothing is left where it
was. -/
theorem replaces_rename {temporary : Location} (htemporary : tree.get? temporary = none)
    (hlocation : tree.get? location ≠ none) (first node : Node) :
    Replaces tree (((tree.create temporary first).setNode temporary node).rename temporary location)
      location node := by
  have hne : temporary ≠ location := by
    rintro rfl
    exact hlocation htemporary
  have hcreated : (tree.create temporary first).get? temporary =
      some ⟨tree.clock, tree.clock, first⟩ := by
    rw [Tree.get?_create, if_pos rfl]
  have hpermitted : ((tree.create temporary first).setNode temporary node).get? temporary =
      some ⟨tree.clock, tree.clock, node⟩ := by
    rw [Tree.get?_setNode hcreated, if_pos rfl]
  obtain ⟨hhere, hclock, hlocks⟩ := Tree.setNode_frame (tree.create temporary first) temporary node
  obtain ⟨hhere', hclock', hlocks'⟩ := Tree.rename_frame
    ((tree.create temporary first).setNode temporary node) temporary location
  refine ⟨fun other => ?_, hhere'.trans hhere, hclock'.trans hclock, hlocks'.trans hlocks⟩
  rw [Tree.get?_rename hpermitted, Tree.get?_setNode hcreated, Tree.get?_create]
  by_cases hother : other = temporary
  · subst hother
    rw [if_neg hne, if_pos rfl, if_neg hne, htemporary]
  · rw [if_neg hother, if_neg hother, if_neg hother]

/-- **Putting new bytes in the place of a file that was checked** fails only for want of room, and then
nothing was done. -/
theorem replaceFile_of_names (hnames : tree.Names path location file)
    (hreadable : Tree.readable file.mode = true) (bytes : Bytes) :
    (HasRoom tree path location ∧ ∃ after,
      replaceFile tree path file.guard location bytes = (.ok (), after) ∧
      Replaces tree after location (.file bytes file.mode)) ∨
    (¬ HasRoom tree path location ∧ ∃ failure,
      replaceFile tree path file.guard location bytes = (.error failure, tree)) := by
  unfold replaceFile HasRoom
  cases hname : freeName? tree location with
  | none => exact .inr ⟨by simp, _, rfl⟩
  | some name =>
    dsimp only
    cases hlong : isTooLong path name with
    | true => exact .inr ⟨by simp [hlong], _, rfl⟩
    | false =>
      refine .inl ⟨⟨name, rfl, hlong⟩, ?_⟩
      have hfree := get?_of_freeName? hname
      have hmode : modeAt tree location = file.mode := by
        rw [modeAt, hnames.get?_eq]
        rfl
      have hverify := verify_of_names (hnames.create (.file bytes 0o600) hfree) hreadable
      rw [if_neg (by simp), hverify, hmode]
      exact ⟨_, rfl, replaces_rename hfree (by rw [hnames.get?_eq]; simp) _ _⟩

/-- What is to be known when a script was written back to the file at a location. -/
structure Overwrites (tree : Tree) (path : Text) (guard : Guard) (contents : Text)
    (location : Location) (file : File) (after : Tree) : Prop where
  names : tree.Names path location file
  admits : Admits tree guard file
  room : HasRoom tree path location
  replaces : Replaces tree after location (.file (Utf8.encode contents) file.mode)

/-- **Writing a script back ends in one of three ways.** -/
theorem writeBack_cases (tree : Tree) (source : Source) (contents : Text) :
    (∃ failure, writeBack tree source contents = (.error failure, tree)) ∨
    (writeBack tree source contents = (.ok .unchanged, tree) ∧ contents = source.text ∧
      ∃ path guard location, source.origin = some (path, guard) ∧ locate tree path = .ok location) ∨
    (contents ≠ source.text ∧ ∃ path guard location file after,
      writeBack tree source contents = (.ok .written, after) ∧ source.origin = some (path, guard) ∧
      Overwrites tree path guard contents location file after) := by
  unfold writeBack
  split
  · exact .inl ⟨_, rfl⟩
  · rename_i path guard horigin
    split
    · exact .inl ⟨_, rfl⟩
    · rename_i location hlocate
      split
      · rename_i hsame
        exact .inr (.inl ⟨rfl, hsame, path, guard, location, horigin, hlocate⟩)
      · rename_i hdiffers
        split
        · exact .inl ⟨_, rfl⟩
        · rename_i hprepare
          obtain ⟨file, hnames, hadmits⟩ := (prepare_eq_ok_iff hlocate).1 hprepare
          obtain rfl := hadmits.guard_eq
          rcases replaceFile_of_names hnames hadmits.readable (Utf8.encode contents) with
            ⟨hroom, after, heq, hreplaces⟩ | ⟨-, failure, heq⟩
          · rw [heq]
            exact .inr (.inr ⟨hdiffers, path, file.guard, location, file, after, rfl, horigin,
              hnames, hadmits, hroom, hreplaces⟩)
          · rw [heq]
            exact .inl ⟨failure, rfl⟩

/-- **A script is written back if its file admits it and there is room.** -/
theorem writeBack_written {source : Source} {contents : Text} (horigin : source.origin = some (path, guard))
    (hdiffers : contents ≠ source.text) (hnames : tree.Names path location file)
    (hadmits : Admits tree guard file) (hroom : HasRoom tree path location) :
    ∃ after, writeBack tree source contents = (.ok .written, after) ∧
      Overwrites tree path guard contents location file after := by
  have hprepare : prepare tree path guard = .ok () :=
    (prepare_eq_ok_iff hnames.locate_eq).2 ⟨file, hnames, hadmits⟩
  obtain ⟨-, after, heq, hreplaces⟩ | ⟨hnoRoom, -⟩ :=
    replaceFile_of_names hnames hadmits.readable (Utf8.encode contents)
  · refine ⟨after, ?_, hnames, hadmits, hroom, hreplaces⟩
    rw [← hadmits.guard_eq] at heq
    simp only [writeBack, horigin, hnames.locate_eq, hdiffers, if_false, hprepare, heq]
  · exact absurd hroom hnoRoom

/-- A script is not touched if there is nothing new to write. -/
theorem writeBack_unchanged {source : Source} (horigin : source.origin = some (path, guard))
    (hlocate : locate tree path = .ok location) :
    writeBack tree source source.text = (.ok .unchanged, tree) := by
  simp only [writeBack, horigin, hlocate, if_true]

end Files
end ScriptUpgrade
