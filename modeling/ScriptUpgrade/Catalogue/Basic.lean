/-
# The catalogue of commands

What commands the current release of the tool has, and which subcommands each of them takes. All
names are kept in lower case and every question lower-cases the name it asks about. A standalone
command takes no subcommand.
-/

import ScriptUpgrade.Text.Case
import ScriptUpgrade.Text.Sorted

namespace ScriptUpgrade
namespace Catalogue

/-- The area a command belongs to. -/
inductive Category where
  | compute
  | storage
  | network
  | appliance
  | security
  | global
  | billing
  | misc
deriving DecidableEq, Repr

/-- All categories, in the order in which they are listed. -/
def Category.all : List Category :=
  [.compute, .storage, .network, .appliance, .security, .global, .billing, .misc]

/-- The name of a category. -/
def Category.name : Category → Text
  | .compute => "compute".toList
  | .storage => "storage".toList
  | .network => "network".toList
  | .appliance => "appliance".toList
  | .security => "security".toList
  | .global => "global".toList
  | .billing => "billing".toList
  | .misc => "misc".toList

/-- The category with the given name, letters of ASCII taken in either case. -/
def Category.ofName? (name : Text) : Option Category :=
  Category.all.find? fun category => category.name == name.map Char.toLower

/-- A command, its subcommands in the order in which they are listed, what it is for and where it
belongs. -/
structure Entry where
  command : Text
  subcommands : List Text
  description : Text
  category : Category
deriving DecidableEq, Repr

/-- The entry with its names in lower case. -/
def Entry.lower (entry : Entry) : Entry :=
  { entry with
    command := Text.lower entry.command
    subcommands := entry.subcommands.map Text.lower }

end Catalogue

/-- The entries by their lower-case names, and the standalone commands. -/
structure Catalogue where
  entries : List (Text × Catalogue.Entry)
  standalone : List Text
deriving DecidableEq, Repr

namespace Catalogue

/-- The catalogue of the given entries and standalone commands. A later entry with the same name
replaces an earlier one; of names that differ only in case the last in the order of texts counts. -/
def ofEntries (entries : List (Text × Entry)) (standalone : List Text) : Catalogue where
  entries := Sorted.ofPairs
    ((Sorted.ofPairs entries).map fun (name, entry) => (Text.lower name, entry.lower))
  standalone := Sorted.ofList (standalone.map Text.lower)

/-- The entry of a command. -/
def entry? (catalogue : Catalogue) (command : Text) : Option Entry :=
  Sorted.find? (Text.lower command) catalogue.entries

/-- Whether there is such a command. -/
def has (catalogue : Catalogue) (command : Text) : Bool :=
  (catalogue.entry? command).isSome

/-- The subcommands of a command. -/
def subcommands? (catalogue : Catalogue) (command : Text) : Option (List Text) :=
  (catalogue.entry? command).map Entry.subcommands

/-- Whether a command takes a subcommand. -/
def hasSubcommand (catalogue : Catalogue) (command sub : Text) : Bool :=
  match catalogue.subcommands? command with
  | some subcommands => subcommands.contains (Text.lower sub)
  | none => false

/-- The names of all commands. -/
def commands (catalogue : Catalogue) : List Text :=
  catalogue.entries.map Prod.fst

/-- Whether a command is standalone. -/
def isStandalone (catalogue : Catalogue) (command : Text) : Bool :=
  catalogue.standalone.contains (Text.lower command)

/-- Whether a command cannot do without a subcommand. -/
def needsSubcommand (catalogue : Catalogue) (command : Text) : Bool :=
  !catalogue.isStandalone command &&
    match catalogue.subcommands? command with
    | some subcommands => !subcommands.isEmpty
    | none => false

end Catalogue
end ScriptUpgrade
