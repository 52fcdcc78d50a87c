/-
# Expanding patterns

The paths in a tree that have the form of a pattern, directory by directory in the order of texts.
The components of a pattern are followed from the working directory down. A component without
wildcards is looked up by name, another one is tried on every name of the directory. A component
`**` matches the directories below, links to directories included: what follows it is tried on
everything in them, each directory before what it holds.

A path has fewer than `maxPathSize` bytes and gets longer with every directory, which bounds how
deep a walk can go.
-/

import ScriptUpgrade.Files.Pattern
import ScriptUpgrade.Files.Tree

namespace ScriptUpgrade
namespace Files

open Pattern (Token)

/-- Whether a path is the working directory itself. -/
def isHere (path : Text) : Bool :=
  Path.components path == Path.components ['.']

/-- The path of a name in a directory; names in the working directory stand alone. -/
def below (path name : Text) : Text :=
  if isHere path then name else Path.join path name

/-- The entries `..` and `.` of a directory that a pattern names: it has to start with a dot. -/
def specialNames (pattern : List Token) : List Text :=
  if pattern.head? == some (.char '.') then
    [['.', '.'], ['.']].filter (Pattern.fits pattern)
  else []

mutual

/-- The paths below `path` that have the form of the components. -/
def descend (tree : Tree) (fuel : Nat) (path : Text) (pattern : List (List Token)) : List Text :=
  match fuel, pattern with
  | 0, _ => []
  | _, [] => []
  | fuel + 1, component :: rest =>
    match Pattern.literal? component with
    | some name =>
      let next := below path name
      let special := name == ['.'] || name == ['.', '.']
      if (special && tree.isDirectory path) || (!special && tree.hasEntry next) then
        continued tree fuel next rest
      else []
    | none =>
      if tree.isDirectory path then
        (specialNames component).flatMap (fun name => continued tree fuel (Path.join path name) rest)
          ++ (tree.names path).flatMap fun name => visit tree fuel (below path name) component rest
      else []

/-- The paths that have the form of the components, for a path that leads to their start. -/
def continued (tree : Tree) (fuel : Nat) (path : Text) (pattern : List (List Token)) : List Text :=
  match fuel, pattern with
  | _, [] => [path]
  | 0, _ => []
  | fuel + 1, component :: rest => descend tree fuel path (component :: rest)

/-- The paths from an entry of a directory on that have the form of the components. -/
def visit (tree : Tree) (fuel : Nat) (path : Text) (component : List Token)
    (rest : List (List Token)) : List Text :=
  match fuel with
  | 0 => []
  | fuel + 1 =>
    if Pattern.isRecursive component then
      let rest' := rest.dropWhile Pattern.isRecursive
      let isDirectory := tree.isDirectory path
      let own :=
        match rest' with
        | [] => if isDirectory then [path] else []
        | next :: rest =>
          if Pattern.fits next (Path.fileName path) then continued tree fuel path rest else []
      own ++ if isDirectory then descend tree fuel path (component :: rest') else []
    else if Pattern.fits component (Path.fileName path) then continued tree fuel path rest
    else []

end

/-- The paths that have the form of a pattern. -/
def glob (tree : Tree) (text : Text) : Except Pattern.Fault (List Text) := do
  let pattern ← Pattern.components text
  let start := if Path.isAbsolute text then ['/'] else ['.']
  let paths := descend tree (2 * maxPathSize + 2 * pattern.length) start pattern
  return if text.getLast? == some '/' then paths.filter tree.isDirectory else paths

/-- The paths with one more, unless it has the components of one of them. -/
def addPath (paths : List Text) (path : Text) : List Text :=
  if paths.any fun other => Path.components other == Path.components path then paths
  else paths ++ [path]

/-- The files that one argument names: a pattern those that have its form, another text itself. -/
def expandOne (tree : Tree) (argument : Text) : Except Failure (List Text) :=
  if Pattern.isPattern argument then
    match glob tree argument with
    | .ok paths => .ok (paths.filter tree.isFile)
    | .error fault => .error (.invalidPattern argument fault.message)
  else .ok [argument]

/-- The files that arguments name, each path once, in the order of the arguments. -/
def expand (tree : Tree) (arguments : List Text) : Except Failure (List Text) := do
  let named ← arguments.mapM (expandOne tree)
  match named.flatten.foldl addPath [] with
  | [] => .error (.invalidRequest .nothingMatched)
  | paths => .ok paths

end Files
end ScriptUpgrade
