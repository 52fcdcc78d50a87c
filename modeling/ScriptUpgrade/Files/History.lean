/-
# Histories of a file tree

What can happen to a tree, step by step: scripts are read and written back through what was read, while
somebody else creates, edits, replaces, removes and locks files. A script that was read gets the next
number, by which later steps refer to it. A history ends early if a step refers to no script, or if
somebody else cannot do what the step says.
-/

import ScriptUpgrade.Files.Source

namespace ScriptUpgrade
namespace Files

open Digest (Bytes)

namespace Tree

/-- The tree with the directories along some names, the missing ones created. A link that leads
nowhere is in the way. -/
def makeDirectories (tree : Tree) (location : Location) : (names : List Text) → Option Tree
  | [] => some tree
  | name :: names =>
    match tree.walk true true maxLinks location [name] with
    | .ok next =>
      match (tree.entry? next).map Entry.node with
      | some .directory => tree.makeDirectories next names
      | some _ => none
      | none =>
        if next = location ++ [name] then
          (tree.create next .directory).makeDirectories next names
        else none
    | .error _ => none

/-- The tree with the directories that the last name of a path is to be in. -/
def makeParents (tree : Tree) (path : Text) : Option Tree :=
  tree.makeDirectories (origin tree.here path)
    ((Path.steps path).filter (· != ['.'])).dropLast

/-- The tree with a new entry at a path where nothing is. -/
def createAt (tree : Tree) (path : Text) (node : Node) : Option Tree := do
  let tree ← tree.makeParents path
  let location ← (tree.destination false path).toOption
  if (tree.entry? location).isNone then some (tree.create location node) else none

/-- Writes a file at a path, in place if the path leads to one already that may be written. Through
a link that leads nowhere, the file is made where the link points. -/
def writeFile (tree : Tree) (path : Text) (bytes : Bytes) (mode : Nat) : Option Tree := do
  let tree ← tree.makeParents path
  let location ← (tree.destination true path).toOption
  match tree.entry? location with
  | none => some (tree.create location (.file bytes mode))
  | some ⟨id, _, .file _ current⟩ =>
    if writable current then
      some { tree.set location ⟨id, tree.clock, .file bytes mode⟩ with clock := tree.clock + 1 }
    else none
  | some _ => none

/-- Makes a directory at a path, unless the path leads to one already. -/
def makeDirectory (tree : Tree) (path : Text) : Option Tree :=
  if tree.isDirectory path then some tree
  else tree.createAt (Text.dropTail (· == '/') path) .directory

/-- Makes a symbolic link at a path where nothing is. Its target has to be a path, be it one that
leads nowhere. -/
def makeLink (tree : Tree) (path target : Text) : Option Tree :=
  if target.isEmpty || target.contains '\x00' || maxPathSize ≤ Text.size target then none
  else tree.createAt path (.link target)

/-- How much later the time of a file that is edited in place is set: ten seconds. -/
def editDelay : Nat := 10000000000

/-- The mode of a file after it was edited: it no longer runs as its owner, nor as its group if the
group may run it. -/
def editedMode (mode : Nat) : Nat :=
  let mode := if mode / 0o4000 % 2 == 1 then mode - 0o4000 else mode
  if mode / 0o2000 % 2 == 1 && mode / 0o10 % 2 == 1 then mode - 0o2000 else mode

/-- Edits a file that may be written in place. Its time is kept, or set ten seconds later. -/
def edit (tree : Tree) (path : Text) (bytes : Bytes) (keepTime : Bool) : Option Tree := do
  let location ← (tree.resolve true path).toOption
  match tree.get? location with
  | some ⟨id, modified, .file _ mode⟩ =>
    let modified := if keepTime then modified else modified + editDelay
    if writable mode then
      some (tree.set location ⟨id, modified, .file bytes (editedMode mode)⟩)
    else none
  | _ => none

/-- Puts a new file in the place of the file or link that a path names. -/
def replace (tree : Tree) (path : Text) (bytes : Bytes) : Option Tree := do
  let location ← (tree.destination false path).toOption
  match (tree.entry? location).map Entry.node with
  | some .directory => none
  | _ => some (tree.create location (.file bytes 0o644))

/-- Removes the file or link that a path names. -/
def remove (tree : Tree) (path : Text) : Option Tree := do
  let location ← (tree.resolve false path).toOption
  match (tree.entry? location).map Entry.node with
  | some .directory => none
  | _ => some (tree.erase location)

/-- Locks the file that a path leads to, if it can be read. -/
def lock (tree : Tree) (path : Text) : Option Tree :=
  match tree.entryAt true path with
  | .ok entry =>
    if isReadable entry.node then some { tree with locks := entry.id :: tree.locks } else none
  | .error _ => none

/-- Releases all locks. -/
def unlock (tree : Tree) : Tree :=
  { tree with locks := [] }

end Tree

/-- Something that happens to a tree. -/
inductive Step where
  | read (path : Text)
  | readAll (arguments : List Text) (input : Bytes)
  | fromText (text : Text)
  | expand (arguments : List Text)
  | write (handle : Nat) (contents : Text)
  | createFile (path : Text) (bytes : Bytes) (mode : Nat) (locked : Bool)
  | createDirectory (path : Text)
  | createLink (path target : Text)
  | edit (path : Text) (bytes : Bytes) (keepTime : Bool)
  | replace (path : Text) (bytes : Bytes)
  | remove (path : Text)
  | lock (path : Text)
  | unlock
deriving DecidableEq, Repr

/-- What a step gave. -/
inductive Result where
  | script (source : Source)
  | scripts (sources : List Source)
  | paths (paths : List Text)
  | outcome (outcome : Outcome)
  | failed (failure : Failure)
  | done
deriving DecidableEq, Repr

/-- A tree and the scripts that were read from it. -/
structure State where
  tree : Tree
  scripts : List Source
deriving DecidableEq, Repr

/-- Why a history ends early. -/
inductive Halt where
  /-- A step refers to a script that was not read. -/
  | unknownScript
  /-- Somebody else cannot do what a step says. -/
  | impossible
deriving DecidableEq, Repr

/-- The state with another tree, if there is one. -/
def State.changed (state : State) (tree : Option Tree) : Except Halt (Result × State) :=
  match tree with
  | some tree => .ok (.done, { state with tree })
  | none => .error .impossible

/-- Takes a step. What fails in reading and writing scripts is a result like any other. -/
def State.step (state : State) : Step → Except Halt (Result × State)
  | .read path =>
    match readScript state.tree path with
    | .ok source => .ok (.script source, { state with scripts := state.scripts ++ [source] })
    | .error failure => .ok (.failed failure, state)
  | .readAll arguments input =>
    match Files.readAll state.tree input arguments with
    | .ok sources => .ok (.scripts sources, { state with scripts := state.scripts ++ sources })
    | .error failure => .ok (.failed failure, state)
  | .fromText text =>
    .ok (.script (.ofText text), { state with scripts := state.scripts ++ [.ofText text] })
  | .expand arguments =>
    match Files.expand state.tree arguments with
    | .ok paths => .ok (.paths paths, state)
    | .error failure => .ok (.failed failure, state)
  | .write handle contents =>
    match state.scripts[handle]? with
    | some source =>
      match writeBack state.tree source contents with
      | (.ok outcome, tree) => .ok (.outcome outcome, { state with tree })
      | (.error failure, tree) => .ok (.failed failure, { state with tree })
    | none => .error .unknownScript
  | .createFile path bytes mode locked =>
    state.changed do
      let tree ← state.tree.writeFile path bytes mode
      if locked then tree.lock path else some tree
  | .createDirectory path => state.changed (state.tree.makeDirectory path)
  | .createLink path target => state.changed (state.tree.makeLink path target)
  | .edit path bytes keepTime => state.changed (state.tree.edit path bytes keepTime)
  | .replace path bytes => state.changed (state.tree.replace path bytes)
  | .remove path => state.changed (state.tree.remove path)
  | .lock path => state.changed (state.tree.lock path)
  | .unlock => state.changed (some state.tree.unlock)

/-- Takes steps one after the other. -/
def State.run (state : State) : List Step → Except Halt (List Result × State)
  | [] => .ok ([], state)
  | step :: steps => do
    let (result, state) ← state.step step
    let (results, state) ← state.run steps
    return (result :: results, state)

end Files
end ScriptUpgrade
