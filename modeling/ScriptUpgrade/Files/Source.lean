/-
# Scripts read from files, and writing them back

A script that was read from a file remembers the stamp of the entry and the digest of the bytes. It
is written back only if both are still the same, so that no change that somebody else made since is
lost: the new contents go into a temporary file next to the script, and the temporary file takes the
script's place and its mode. Whatever goes wrong before that, the temporary file is removed again. The
name of the temporary file is longer than the script's own, so that it can be too long for a file.

A script is not written back through a symbolic link, nor while somebody else has locked it; and if the
contents are what was read, nothing is done at all.
-/

import ScriptUpgrade.Files.Expand

namespace ScriptUpgrade
namespace Files

open Digest (Bytes)

/-- What a file was like when it was read. -/
structure Guard where
  stamp : Tree.Stamp
  digest : Text
deriving DecidableEq, Repr

/-- A script that was read: from a file, with its path and what the file was like, or from standard
input. -/
structure Source where
  origin : Option (Text × Guard)
  text : Text
deriving DecidableEq, Repr

namespace Source

/-- A script that was read from standard input. -/
def ofText (text : Text) : Source :=
  ⟨none, text⟩

/-- The name of a script: its path, or `-`. -/
def name (source : Source) : Text :=
  match source.origin with
  | some (path, _) => path
  | none => ['-']

/-- The digest of the bytes of a script. -/
def digest (source : Source) : Text :=
  match source.origin with
  | some (_, guard) => guard.digest
  | none => Digest.ofBytes (Utf8.encode source.text)

end Source

/-- Turns a trouble with a path into a failure. -/
def accessing {α : Type} (path : Text) : Except Trouble α → Except Failure α
  | .ok value => .ok value
  | .error trouble => .error (.access path trouble)

/-- Reads a script from a file. -/
def readScript (tree : Tree) (path : Text) : Except Failure Source := do
  let entry ← accessing path (tree.entryAt false path)
  let bytes ← accessing path (tree.read path)
  match Utf8.decode bytes with
  | .ok text => return ⟨some (path, ⟨Tree.stampOf entry, Digest.ofBytes bytes⟩), text⟩
  | .error fault => .error (.access path (.notText fault))

/-- Reads a script from standard input. -/
def readStandardInput (input : Bytes) : Except Failure Source :=
  match Utf8.decode input with
  | .ok text => .ok (.ofText text)
  | .error _ => .error (.standardInput .streamNotText)

/-- Reads the scripts that arguments name, or standard input if there are none. -/
def readAll (tree : Tree) (input : Bytes) (arguments : List Text) : Except Failure (List Source) :=
  if arguments.isEmpty then do return [← readStandardInput input]
  else do (← expand tree arguments).mapM (readScript tree)

/-- What writing back a script did. -/
inductive Outcome where
  | written
  | unchanged
deriving DecidableEq, Repr

/-- The name of an outcome. -/
def Outcome.name : Outcome → Text
  | .written => "written".toList
  | .unchanged => "unchanged".toList

/-- The location of the script at a path, which must not be a symbolic link. -/
def locate (tree : Tree) (path : Text) : Except Failure Location := do
  let location ← accessing path (tree.resolve false path)
  match (← accessing path (tree.entryAt false path)).node with
  | .link _ => .error (.invalidRequest (.symbolicLink path))
  | _ => return location

/-- Opens a script for writing, unless somebody else has locked it. -/
def lock (tree : Tree) (path : Text) : Except Failure Unit := do
  let id ← accessing path (tree.openForWriting path)
  if tree.locks.contains id then .error (.busy path)

/-- Makes sure that a script is what it was when it was read. -/
def verify (tree : Tree) (path : Text) (guard : Guard) : Except Failure Unit := do
  let entry ← accessing path (tree.entryAt false path)
  if Tree.stampOf entry ≠ guard.stamp then .error (.pathChanged path)
  let digest := Digest.ofBytes (← accessing path (tree.read path))
  if digest ≠ guard.digest then .error (.contentChanged guard.digest digest)

/-- The mode of the file at a location. -/
def modeAt (tree : Tree) (location : Location) : Nat :=
  match tree.get? location with
  | some ⟨_, _, .file _ mode⟩ => mode
  | _ => 0

/-- The last digits of a number. -/
def lastDigits : (count : Nat) → Nat → Text
  | 0, _ => []
  | count + 1, n => lastDigits count (n / 10) ++ [Nat.digitChar (n % 10)]

/-- The name of a temporary file that is to take the place of a file: it has the name of that file, the
time in nineteen digits, and a number in it. -/
def temporaryName (name : Text) (time number : Nat) : Text :=
  '.' :: name ++ ".usacloud-update-tmp-".toList ++ lastDigits 19 time ++ '-' :: (toString number).toList

/-- The name of a temporary file that can be made next to a location, the first of those that are tried
that is not taken. -/
def freeName? (tree : Tree) (location : Location) : Option Text :=
  ((List.range 64).map (temporaryName (location.getLastD []) tree.clock)).find? fun name =>
    (tree.get? (location.dropLast ++ [name])).isNone

/-- Whether a name is too long for a file, or for a path that ends with it. -/
def isTooLong (path name : Text) : Bool :=
  maxNameSize < Text.size name || maxPathSize ≤ Text.size (Path.join (Path.parent path) name)

/-- Puts new bytes in the place of the file at a location, by way of a temporary file. -/
def replaceFile (tree : Tree) (path : Text) (guard : Guard) (location : Location) (bytes : Bytes) :
    Except Failure Unit × Tree :=
  match freeName? tree location with
  | none => (.error (.invalidRequest (.noTemporaryFile path)), tree)
  | some name =>
    if isTooLong path name then
      (.error (.access (Path.join (Path.parent path) name) .nameTooLong), tree)
    else
      let temporary := location.dropLast ++ [name]
      let filled := tree.create temporary (.file bytes 0o600)
      match verify filled path guard with
      | .error failure => (.error failure, filled.erase temporary)
      | .ok () =>
        let permitted := filled.setNode temporary (.file bytes (modeAt tree location))
        (.ok (), permitted.rename temporary location)

/-- What has to hold before a script at a path is replaced. -/
def prepare (tree : Tree) (path : Text) (guard : Guard) : Except Failure Unit := do
  lock tree path
  verify tree path guard

/-- Writes a script back with new contents. -/
def writeBack (tree : Tree) (source : Source) (contents : Text) : Except Failure Outcome × Tree :=
  match source.origin with
  | none => (.error (.invalidRequest .standardInputNotWritable), tree)
  | some (path, guard) =>
    match locate tree path with
    | .error failure => (.error failure, tree)
    | .ok location =>
      if contents = source.text then (.ok .unchanged, tree)
      else
        match prepare tree path guard with
        | .error failure => (.error failure, tree)
        | .ok () =>
          match replaceFile tree path guard location (Utf8.encode contents) with
          | (.error failure, tree) => (.error failure, tree)
          | (.ok (), tree) => (.ok .written, tree)

end Files
end ScriptUpgrade
