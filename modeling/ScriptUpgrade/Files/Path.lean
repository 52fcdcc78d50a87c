/-
# Paths

A path is kept as it is written. Two views of it matter: the steps that lead along it, where
repeated slashes count once and a slash at the end asks for a directory, and its components, by which
paths are compared: there a `.` counts only at the start and a slash at the end not at all.
-/

import ScriptUpgrade.Text.Basic

namespace ScriptUpgrade
namespace Path

/-- Splits a text at every slash, with empty parts. -/
def parts (path : Text) : List Text :=
  path.foldr
    (fun c parts =>
      if c = '/' then [] :: parts
      else
        match parts with
        | [] => [[c]]
        | part :: rest => (c :: part) :: rest)
    [[]]

/-- Whether a path starts at the root of the file system. -/
def isAbsolute (path : Text) : Bool :=
  path.head? == some '/'

/-- The steps along a path. A slash at the end counts as a step `.`, which only a directory
allows. -/
def steps (path : Text) : List Text :=
  let names := (parts path).filter (!·.isEmpty)
  if path.getLast? == some '/' then names ++ [['.']] else names

/-- What a path is compared by. -/
inductive Component where
  | root
  | current
  | name (text : Text)
deriving DecidableEq, Repr

/-- The components of a path. -/
def components (path : Text) : List Component :=
  let names := (parts path).filter fun part => !part.isEmpty && part != ['.']
  let lead :=
    if isAbsolute path then [.root]
    else if (parts path).head? == some ['.'] then [.current]
    else []
  lead ++ names.map .name

/-- A name below a directory. -/
def join (directory name : Text) : Text :=
  if directory.isEmpty || isAbsolute name then name
  else if directory.getLast? == some '/' then directory ++ name
  else directory ++ '/' :: name

/-- The name at the end of a path. -/
def fileName (path : Text) : Text :=
  (parts path).getLastD []

/-- The path of the directory that the name at the end of a path is in. Slashes and steps `.` in front
of that name are dropped; the working directory is `.`. -/
def parent (path : Text) : Text :=
  let front := (parts path).dropLast.reverse.dropWhile fun part => part.isEmpty || part == ['.']
  if front.isEmpty then if isAbsolute path then ['/'] else ['.']
  else ['/'].intercalate front.reverse

end Path
end ScriptUpgrade
