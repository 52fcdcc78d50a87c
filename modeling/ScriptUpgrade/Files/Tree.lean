/-
# File trees

The files of a file system, as a value. An entry has an identity, which no other entry ever had, and
the time of its last change; it is a file with bytes and a mode, a directory, or a symbolic link. The
tree knows the working directory, it keeps a clock that gives every new entry its identity and its
time, and the identities of the files that somebody else has locked.

Times are nanoseconds since the beginning of 1970, the epoch, and negative before it. A stamp, by which
an entry is recognised later, records them from the epoch on: it tells a time before the epoch from any
later one, but not from another time before the epoch.

A path is followed step by step, from the working directory or from the root. A symbolic link on the
way is replaced by its target, at most `maxLinks` times.
-/

import ScriptUpgrade.Digest.Basic
import ScriptUpgrade.Failure
import ScriptUpgrade.Files.Path
import ScriptUpgrade.Text.Sorted

namespace ScriptUpgrade
namespace Files

open Digest (Bytes)

/-- What an entry is. -/
inductive Node where
  | file (bytes : Bytes) (mode : Nat)
  | directory
  | link (target : Text)
deriving DecidableEq, Repr

/-- An entry of a tree. -/
structure Entry where
  id : Nat
  modified : Int
  node : Node
deriving DecidableEq, Repr

/-- Names that lead from the root to an entry. -/
abbrev Location := List Text

/-- Entries by location, the working directory, the clock, and the identities of locked files. The
root itself has no entry. -/
structure Tree where
  entries : List (Location × Entry)
  here : Location
  clock : Nat
  locks : List Nat
deriving DecidableEq, Repr

/-- How many symbolic links are followed along one path. -/
def maxLinks : Nat := 40

/-- The size in bytes that no name may exceed. -/
def maxNameSize : Nat := 255

/-- The size in bytes that every path must stay below. -/
def maxPathSize : Nat := 4096

namespace Tree

/-- The entry at a location. -/
def get? (tree : Tree) (location : Location) : Option Entry :=
  (tree.entries.find? fun pair => pair.1 == location).map Prod.snd

/-- The tree without the entry at a location. -/
def erase (tree : Tree) (location : Location) : Tree :=
  { tree with entries := tree.entries.filter fun pair => pair.1 != location }

/-- The tree with an entry at a location, in place of what was there. -/
def set (tree : Tree) (location : Location) (entry : Entry) : Tree :=
  { tree with entries := (tree.erase location).entries ++ [(location, entry)] }

/-- The tree with a new entry at a location. -/
def create (tree : Tree) (location : Location) (node : Node) : Tree :=
  { tree.set location ⟨tree.clock, tree.clock, node⟩ with clock := tree.clock + 1 }

/-- What is left after erasing an entry: all others. -/
theorem get?_erase (tree : Tree) (location other : Location) :
    (tree.erase location).get? other = if other = location then none else tree.get? other := by
  simp only [get?, erase, List.find?_filter]
  split
  · next h =>
    subst h
    rw [List.find?_eq_none.2, Option.map_none]
    rintro pair -
    simp
  · next h =>
    congr 2
    funext pair
    by_cases hp : pair.1 = other
    · simp [hp, h]
    · simp [hp]

/-- **A tree with an entry set has that entry, and otherwise what it had.** -/
theorem get?_set (tree : Tree) (location other : Location) (entry : Entry) :
    (tree.set location entry).get? other =
      if other = location then some entry else tree.get? other := by
  have herase := get?_erase tree location other
  simp only [get?, set, List.find?_append] at herase ⊢
  split
  · next h =>
    subst h
    rw [if_pos rfl, Option.map_eq_none_iff] at herase
    simp [herase]
  · next h =>
    rw [if_neg h] at herase
    rw [← herase]
    have hne : (location == other) = false := beq_false_of_ne (Ne.symm h)
    simp [hne]

theorem get?_create (tree : Tree) (location other : Location) (node : Node) :
    (tree.create location node).get? other =
      if other = location then some ⟨tree.clock, tree.clock, node⟩ else tree.get? other :=
  get?_set tree location other ⟨tree.clock, tree.clock, node⟩

/-- The tree with the entry at one location moved to another, in place of what was there. -/
def rename (tree : Tree) (source target : Location) : Tree :=
  match tree.get? source with
  | some entry => (tree.erase source).set target entry
  | none => tree

/-- The tree with another node at a location, the identity and the time kept. -/
def setNode (tree : Tree) (location : Location) (node : Node) : Tree :=
  match tree.get? location with
  | some entry => tree.set location { entry with node }
  | none => tree

/-- **A moved entry is at its new place, and nothing is left at the old one.** -/
theorem get?_rename {tree : Tree} {source : Location} {entry : Entry}
    (h : tree.get? source = some entry) (target other : Location) :
    (tree.rename source target).get? other =
      if other = target then some entry else if other = source then none else tree.get? other := by
  simp only [rename, h]
  rw [get?_set, get?_erase]

theorem get?_setNode {tree : Tree} {location : Location} {entry : Entry}
    (h : tree.get? location = some entry) (node : Node) (other : Location) :
    (tree.setNode location node).get? other =
      if other = location then some { entry with node } else tree.get? other := by
  simp only [setNode, h]
  rw [get?_set]

/-- Moving an entry is nothing to the clock, the locks and the working directory. -/
theorem rename_frame (tree : Tree) (source target : Location) :
    (tree.rename source target).here = tree.here ∧ (tree.rename source target).clock = tree.clock ∧
      (tree.rename source target).locks = tree.locks := by
  unfold rename
  split <;> exact ⟨rfl, rfl, rfl⟩

theorem setNode_frame (tree : Tree) (location : Location) (node : Node) :
    (tree.setNode location node).here = tree.here ∧ (tree.setNode location node).clock = tree.clock ∧
      (tree.setNode location node).locks = tree.locks := by
  unfold setNode
  split <;> exact ⟨rfl, rfl, rfl⟩

/-- The root, which has no entry of its own and never changes. -/
def root : Entry :=
  ⟨0, 0, .directory⟩

/-- The entry at a location, or the root. -/
def entry? (tree : Tree) : Location → Option Entry
  | [] => some root
  | name :: names => tree.get? (name :: names)

/-- The tree of empty directories that lead to the working directory. -/
def start (here : Location) : Tree :=
  (List.range here.length).foldl (fun tree n => tree.create (here.take (n + 1)) .directory)
    ⟨[], here, 1, []⟩

/-- Where a path starts. -/
def origin (directory : Location) (path : Text) : Location :=
  if Path.isAbsolute path then [] else directory

/-- Follows steps from a location to the end, or to a symbolic link from which `jump` goes on, with the
location where the target starts and the steps that are left. A link at the end is followed only if
`follow` says so, and the last name may be missing only if `fresh` says so. -/
def walkUpTo (tree : Tree) (follow fresh : Bool)
    (jump : Location → List Text → Except Trouble Location) (location : Location) :
    List Text → Except Trouble Location
  | [] => .ok location
  | step :: rest =>
    match (tree.entry? location).map Entry.node with
    | some .directory =>
      if step = ['.'] then walkUpTo tree follow fresh jump location rest
      else if step = ['.', '.'] then walkUpTo tree follow fresh jump location.dropLast rest
      else if maxNameSize < Text.size step then .error .nameTooLong
      else
        match tree.get? (location ++ [step]) with
        | none => if fresh && rest.isEmpty then .ok (location ++ [step]) else .error .notFound
        | some ⟨_, _, .link target⟩ =>
          if rest.isEmpty && !follow then .ok (location ++ [step])
          else jump (origin location target) (Path.steps target ++ rest)
        | some _ => walkUpTo tree follow fresh jump (location ++ [step]) rest
    | _ => .error .notDirectory

/-- Follows steps from a location, with at most `links` symbolic links on the way. -/
def walk (tree : Tree) (follow fresh : Bool) : (links : Nat) → Location → List Text →
    Except Trouble Location
  | 0 => tree.walkUpTo follow fresh fun _ _ => .error .tooManyLinks
  | links + 1 => tree.walkUpTo follow fresh (walk tree follow fresh links)

/-- Follows a path, from where it starts. -/
def trace (tree : Tree) (follow fresh : Bool) (path : Text) : Except Trouble Location :=
  if path.contains '\x00' then .error .zeroInName
  else if path.isEmpty then .error .notFound
  else if maxPathSize ≤ Text.size path then .error .nameTooLong
  else walk tree follow fresh maxLinks (origin tree.here path) (Path.steps path)

/-- The location that a path leads to. -/
def resolve (tree : Tree) (follow : Bool) (path : Text) : Except Trouble Location :=
  tree.trace follow false path

/-- The location that a path leads to, or would lead to if its last name were there. -/
def destination (tree : Tree) (follow : Bool) (path : Text) : Except Trouble Location :=
  tree.trace follow true path

/-- What an entry is recognised by: its identity, its size and the time of its last change, if that is
not before the epoch. -/
structure Stamp where
  id : Nat
  size : Nat
  modified : Option Nat
deriving DecidableEq, Repr

/-- The nanoseconds from the epoch to a time that is not before it. -/
def sinceEpoch? (time : Int) : Option Nat :=
  if time < 0 then none else some time.toNat

/-- The size of a node in bytes. -/
def nodeSize : Node → Nat
  | .file bytes _ => bytes.length
  | .directory => 0
  | .link target => Text.size target

/-- The stamp of an entry. -/
def stampOf (entry : Entry) : Stamp :=
  ⟨entry.id, nodeSize entry.node, sinceEpoch? entry.modified⟩

/-- The entry that a path leads to. -/
def entryAt (tree : Tree) (follow : Bool) (path : Text) : Except Trouble Entry := do
  match tree.entry? (← tree.resolve follow path) with
  | some entry => .ok entry
  | none => .error .notFound

/-- Whether the owner may read a file of this mode. -/
def readable (mode : Nat) : Bool :=
  mode / 0o400 % 2 == 1

/-- Whether the owner may write a file of this mode. -/
def writable (mode : Nat) : Bool :=
  mode / 0o200 % 2 == 1

/-- The bytes of the file that a path leads to. -/
def read (tree : Tree) (path : Text) : Except Trouble Bytes := do
  match (← tree.entryAt true path).node with
  | .file bytes mode => if readable mode then .ok bytes else .error .permissionDenied
  | _ => .error .isDirectory

/-- Opens the file that a path leads to for reading and writing, and gives its identity. -/
def openForWriting (tree : Tree) (path : Text) : Except Trouble Nat := do
  let entry ← tree.entryAt true path
  match entry.node with
  | .file _ mode =>
    if readable mode && writable mode then .ok entry.id else .error .permissionDenied
  | _ => .error .isDirectory

/-- Whether a path leads to a file. -/
def isFile (tree : Tree) (path : Text) : Bool :=
  match tree.entryAt true path with
  | .ok ⟨_, _, .file _ _⟩ => true
  | _ => false

/-- Whether a path leads to a directory. -/
def isDirectory (tree : Tree) (path : Text) : Bool :=
  match tree.entryAt true path with
  | .ok ⟨_, _, .directory⟩ => true
  | _ => false

/-- Whether there is anything at a path, be it a link that leads nowhere. -/
def hasEntry (tree : Tree) (path : Text) : Bool :=
  match tree.entryAt false path with
  | .ok _ => true
  | .error _ => false

/-- The name of a location directly below another. -/
def nameBelow? (directory location : Location) : Option Text :=
  match location.getLast? with
  | some name => if location.dropLast == directory then some name else none
  | none => none

/-- The names in the directory that a path leads to, in the order of texts. -/
def names (tree : Tree) (path : Text) : List Text :=
  match tree.resolve true path with
  | .ok location => Sorted.ofList (tree.entries.filterMap fun pair => nameBelow? location pair.1)
  | .error _ => []

/-- The path from the working directory to a location below it. -/
def pathBelow? (here location : Location) : Option Text :=
  if here.isPrefixOf location && here != location then
    some (['/'].intercalate (location.drop here.length))
  else none

/-- The entries below the working directory with their paths, in the order of texts. -/
def listing (tree : Tree) : List (Text × Entry) :=
  Sorted.ofPairs (tree.entries.filterMap fun pair =>
    (pathBelow? tree.here pair.1).map fun path => (path, pair.2))

/-- Whether the owner may read what a node holds; directories and links always can be read. -/
def isReadable : Node → Bool
  | .file _ mode => readable mode
  | .directory => true
  | .link _ => true

/-- The entries below the working directory with their paths, if all of them can be read. -/
def contents? (tree : Tree) : Option (List (Text × Entry)) :=
  if tree.listing.all fun pair => isReadable pair.2.node then some tree.listing else none

end Tree
end Files
end ScriptUpgrade
