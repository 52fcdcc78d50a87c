/-
# Failures

Everything that can go wrong outside the text of a script, as a cause. `Failure.message` is the one
place where causes are put into words; a failure also has a kind, and sometimes a suggestion.
-/

import ScriptUpgrade.Json.Basic
import ScriptUpgrade.Text.Utf8

namespace ScriptUpgrade

/-- Why a file or a stream could not be read or written. -/
inductive Trouble where
  | notFound
  | permissionDenied
  | notDirectory
  | isDirectory
  | nameTooLong
  | tooManyLinks
  | zeroInName
  | notText (fault : Utf8.Fault)
  | streamNotText
  | other (text : Text)
deriving DecidableEq, Repr

/-- The wording of a trouble. -/
def Trouble.message : Trouble → Text
  | .notFound => "No such file or directory (os error 2)".toList
  | .permissionDenied => "Permission denied (os error 13)".toList
  | .notDirectory => "Not a directory (os error 20)".toList
  | .isDirectory => "Is a directory (os error 21)".toList
  | .nameTooLong => "File name too long (os error 36)".toList
  | .tooManyLinks => "Too many levels of symbolic links (os error 40)".toList
  | .zeroInName => "file name contained an unexpected NUL byte".toList
  | .notText fault => fault.message
  | .streamNotText => "stream did not contain valid UTF-8".toList
  | .other text => text

/-- Why a request cannot be served. -/
inductive Objection where
  | nothingMatched
  | standardInputNotWritable
  | symbolicLink (path : Text)
  | noTemporaryFile (path : Text)
  | writeNeedsFiles
  | unknownCommand (command : Text) (suggestions : List Text)
  | unknownCategory (name : Text) (known : List Text)
  | other (text : Text)
deriving DecidableEq, Repr

/-- Texts joined by commas. -/
def commaList (texts : List Text) : Text :=
  ", ".toList.intercalate texts

/-- The wording of an objection. -/
def Objection.message : Objection → Text
  | .nothingMatched => "No input files matched the given patterns".toList
  | .standardInputNotWritable =>
    "Input read from stdin cannot be rewritten in place; pass FILE arguments".toList
  | .symbolicLink path =>
    "Refusing to rewrite through symbolic link '".toList ++ path ++ "'".toList
  | .noTemporaryFile path =>
    "Failed to allocate an adjacent temporary file for '".toList ++ path ++ "'".toList
  | .writeNeedsFiles => "--write requires at least one FILE argument".toList
  | .unknownCommand command suggestions =>
    "Unknown command '".toList ++ command ++ "'.".toList ++
      if suggestions.isEmpty then []
      else " Did you mean: ".toList ++ commaList suggestions ++ "?".toList
  | .unknownCategory name known =>
    "Unknown category '".toList ++ name ++ "'. Expected one of: ".toList ++ commaList known
  | .other text => text

/-- What went wrong. -/
inductive Failure where
  /-- A file could not be read or written. -/
  | access (path : Text) (trouble : Trouble)
  /-- Standard input could not be read. -/
  | standardInput (trouble : Trouble)
  /-- A report could not be written out. -/
  | serialization (cause : Text)
  /-- A request cannot be served. -/
  | invalidRequest (objection : Objection)
  /-- An input pattern is malformed. -/
  | invalidPattern (pattern cause : Text)
  /-- Somebody else is writing the file. -/
  | busy (path : Text)
  /-- Another file stands where the script was read. -/
  | pathChanged (path : Text)
  /-- The script reads differently than before. -/
  | contentChanged (expected actual : Text)
deriving DecidableEq, Repr

namespace Failure

/-- The wording of a failure. -/
def message : Failure → Text
  | .access path trouble =>
    "Failed to access file '".toList ++ path ++ "': ".toList ++ trouble.message
  | .standardInput trouble => "Failed to read stdin: ".toList ++ trouble.message
  | .serialization cause => "Failed to serialize response JSON: ".toList ++ cause
  | .invalidRequest objection => "Invalid request: ".toList ++ objection.message
  | .invalidPattern pattern cause =>
    "Invalid input glob pattern '".toList ++ pattern ++ "': ".toList ++ cause
  | .busy path => "File '".toList ++ path ++ "' is busy: another rewrite is in progress".toList
  | .pathChanged path => "File '".toList ++ path ++ "' changed while it was being rewritten".toList
  | .contentChanged expected actual =>
    "Script content changed since it was read. Expected hash '".toList ++ expected
      ++ "', got '".toList ++ actual ++ "'".toList

/-- The kind of a failure. -/
def kind : Failure → Text
  | .access _ _ => "io_error".toList
  | .standardInput _ => "io_error".toList
  | .serialization _ => "serialization_error".toList
  | .invalidRequest _ => "invalid_request".toList
  | .invalidPattern _ _ => "invalid_glob".toList
  | .busy _ => "resource_busy".toList
  | .pathChanged _ => "precondition_failed".toList
  | .contentChanged _ _ => "precondition_failed".toList

/-- What to do about a failure. -/
def suggestion? : Failure → Option Text
  | .invalidPattern _ _ => some "Use a valid glob pattern such as 'scripts/*.sh'".toList
  | .busy _ => some "Retry after the other rewrite of this file completes".toList
  | .pathChanged _ => some "Re-run 'usacloud-update convert --write' on the current file".toList
  | .contentChanged _ _ =>
    some "Re-run 'usacloud-update convert --write' on the current file".toList
  | _ => none

/-- The JSON form of a failure. -/
def toJson (failure : Failure) : Json :=
  .ofFields
    [("error", .ofFields <|
      [("type", .string failure.kind), ("message", .string failure.message)]
        ++ Json.optional "suggestion" .string failure.suggestion?)]

end Failure
end ScriptUpgrade
