/-
# The program on the command line

The scripts that a command line names are read into a file tree, the program runs on the tree, and
the scripts that it changed are written back in place, so that they keep their modes. A pattern
chooses among the scripts that are named by their paths; on a command line the shell expands patterns
before.
-/

import ScriptUpgrade.Files.History
import ScriptUpgrade.Program.Run

namespace ScriptUpgrade
namespace Main

open Digest (Bytes)
open Files (Tree)

/-- All bytes of a stream. -/
partial def drain (stream : IO.FS.Stream) (bytes : ByteArray) : IO ByteArray := do
  let more ← stream.read 65536
  if more.isEmpty then return bytes else drain stream (bytes ++ more)

/-- The directory that a path names its last step in. -/
def parent (path : Text) : Text :=
  match path.reverse.dropWhile (· != '/') with
  | [] => ['.']
  | ['/'] => ['/']
  | _ :: rest => rest.reverse

/-- Where a path leads when all links are followed. -/
def realPath (path : Text) : IO Text := do
  return (toString (← IO.FS.realPath (String.ofList path))).toList

/-- The target of the symbolic link at a path, if there is one. -/
def linkTarget? (path : Text) : IO (Option Text) := do
  let target ← realPath path
  let directory ← realPath (parent path)
  return if target == Path.join directory (Path.fileName path) then none else some target

/-- The mode of a file, as far as it matters, and whether somebody else has locked the file. -/
def modeAndLock (path : Text) : IO (Nat × Bool) := do
  try
    let handle ← IO.FS.Handle.mk (String.ofList path) .readWrite
    return (0o644, !(← handle.tryLock))
  catch _ => return (0o444, false)

/-- The tree with the file at a path, and with the link to it if the path is a link. -/
def addFile (tree : Tree) (path : Text) (bytes : Bytes) : IO Tree := do
  let (mode, locked) ← modeAndLock path
  let target ← linkTarget? path
  return (do
    let tree ← match target with
      | some target => tree.makeLink path target
      | none => some tree
    let file := target.getD path
    let tree ← tree.writeFile file bytes mode
    if locked then tree.lock file else some tree).getD tree

/-- The tree with what is at a path. -/
def load (tree : Tree) (path : Text) : IO Tree := do
  try addFile tree path (← IO.FS.readBinFile (String.ofList path)).toList
  catch
    | .inappropriateType .. => return (tree.makeDirectory path).getD tree
    | .permissionDenied .. => return (tree.writeFile path [] 0).getD tree
    | _ => return tree

/-- Writes back the file at a path if it changed. -/
def store (before after : Tree) (path : Text) : IO Unit :=
  match before.read path, after.read path with
  | .ok old, .ok new =>
    if old = new then pure ()
    else IO.FS.writeBinFile (String.ofList path) ⟨new.toArray⟩
  | _, _ => pure ()

/-- The working directory as a location. -/
def workingDirectory : IO Files.Location := do
  return Path.steps (toString (← IO.currentDir)).toList

end Main
end ScriptUpgrade

open ScriptUpgrade in
/-- Runs the program. -/
def main (arguments : List String) : IO UInt32 := do
  let words := arguments.map String.toList
  let request := (Request.read words).toOption
  let named := (request.bind Request.scripts?).getD []
  let before ← named.foldlM Main.load (.start (← Main.workingDirectory))
  let input ← if request.any Request.readsInput then Main.drain (← IO.getStdin) .empty else pure .empty
  let (output, after) := run before input.toList words
  named.forM (Main.store before after)
  IO.print (String.ofList output.text)
  return output.status.toUInt32
