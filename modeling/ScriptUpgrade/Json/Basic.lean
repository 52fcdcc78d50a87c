/-
# JSON documents

Reports leave the library as JSON documents. The fields of an object keep the order in which they
are given. `Json.pretty` writes a document with an indent of two spaces, one item or field a line,
and brackets that hold nothing closed at once.
-/

import ScriptUpgrade.Text.Basic

namespace ScriptUpgrade

/-- A JSON document. -/
inductive Json where
  | bool (value : Bool)
  | number (value : Nat)
  | string (text : Text)
  | list (items : List Json)
  | object (fields : List (Text × Json))

namespace Json

/-- A list of texts. -/
def texts (items : List Text) : Json :=
  .list (items.map .string)

/-- An object with the given fields. -/
def ofFields (fields : List (String × Json)) : Json :=
  .object (fields.map fun (key, value) => (key.toList, value))

/-- The field of a value that may be missing: no field if it is. -/
def optional {α : Type} (key : String) (encode : α → Json) : Option α → List (String × Json)
  | none => []
  | some value => [(key, encode value)]

/-- The field of a list of texts that is left out if the list is empty. -/
def nonempty (key : String) : List Text → List (String × Json)
  | [] => []
  | items => [(key, texts items)]

/-- The digits of a hexadecimal number. -/
def hexDigit (n : Nat) : Char :=
  "0123456789abcdef".toList.getD n '0'

/-- A character inside a JSON string. Quotes, backslashes and control characters are escaped, and
nothing else is. -/
def escape (c : Char) : Text :=
  if c = '"' then ['\\', '"']
  else if c = '\\' then ['\\', '\\']
  else if c = '\x08' then ['\\', 'b']
  else if c = '\t' then ['\\', 't']
  else if c = '\n' then ['\\', 'n']
  else if c = '\x0c' then ['\\', 'f']
  else if c = '\r' then ['\\', 'r']
  else if c.toNat < 0x20 then
    ['\\', 'u', '0', '0', hexDigit (c.toNat / 16), hexDigit (c.toNat % 16)]
  else [c]

/-- A JSON string. -/
def quote (text : Text) : Text :=
  '"' :: text.flatMap escape ++ ['"']

/-- A line break and the indent of the given depth. -/
def newline (depth : Nat) : Text :=
  '\n' :: List.replicate (2 * depth) ' '

mutual

/-- A document whose brackets close at the given depth. -/
def write (depth : Nat) : Json → Text
  | .bool value => if value then "true".toList else "false".toList
  | .number value => (toString value).toList
  | .string text => quote text
  | .list [] => "[]".toList
  | .list (item :: items) =>
    '[' :: newline (depth + 1) ++ write (depth + 1) item ++ writeItems (depth + 1) items
      ++ newline depth ++ [']']
  | .object [] => ['\x7b', '\x7d']
  | .object ((key, value) :: fields) =>
    '\x7b' :: newline (depth + 1) ++ quote key ++ ": ".toList ++ write (depth + 1) value
      ++ writeFields (depth + 1) fields ++ newline depth ++ ['\x7d']

/-- Further items of a list. -/
def writeItems (depth : Nat) : List Json → Text
  | [] => []
  | item :: items => ',' :: newline depth ++ write depth item ++ writeItems depth items

/-- Further fields of an object. -/
def writeFields (depth : Nat) : List (Text × Json) → Text
  | [] => []
  | (key, value) :: fields =>
    ',' :: newline depth ++ quote key ++ ": ".toList ++ write depth value ++ writeFields depth fields

end

/-- A document in its indented form. -/
def pretty (document : Json) : Text :=
  write 0 document

end Json
end ScriptUpgrade
