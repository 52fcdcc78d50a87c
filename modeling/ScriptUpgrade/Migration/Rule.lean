/-
# Migration rules

A rule looks at the body of one call and either replaces stretches of it in place or retires the
whole line. Rules about options look for a legacy option from left to right; a match is used
up even if it is refused, and it is refused if it starts inside quotes or is not a whole token, that
is, if something other than an ASCII blank or the edge of the body touches it. Rules that rename
look only at the command position.
-/

import ScriptUpgrade.Migration.Fragment
import ScriptUpgrade.Migration.Pattern
import ScriptUpgrade.Shell.Quote

namespace ScriptUpgrade
namespace Migration

/-- The kind of change a rule makes, in the order of reports. -/
inductive Category where
  | outputFormat
  | selectorMigration
  | resourceRename
  | productAlias
  | zoneNormalize
  | deprecatedCommand
deriving DecidableEq, Repr

/-- All categories, in the order of reports. -/
def Category.all : List Category :=
  [.outputFormat, .selectorMigration, .resourceRename, .productAlias, .zoneNormalize,
    .deprecatedCommand]

/-- The name of a category. -/
def Category.name : Category → Text
  | .outputFormat => "output-format".toList
  | .selectorMigration => "selector-migration".toList
  | .resourceRename => "resource-rename".toList
  | .productAlias => "product-alias".toList
  | .zoneNormalize => "zone-normalize".toList
  | .deprecatedCommand => "deprecated-command".toList

/-- Why a change of this category is made. -/
def Category.reason : Category → Text
  | .outputFormat => "csv/tsv output was removed in v1; json output is used instead".toList
  | .selectorMigration =>
    "--selector was removed in v1; pass the name, id or tag as an argument".toList
  | .resourceRename => "resource command was renamed in v1".toList
  | .productAlias => "product-* commands were renamed to *-plan in v1".toList
  | .zoneNormalize => "zone is written as a single lower-case --zone=<zone> option".toList
  | .deprecatedCommand => "command is not available in v1".toList

/-- What a rule does to a call. -/
inductive Action where
  | outputFormat
  | selectorArgument
  | zoneCanonical
  | commandRename (table : List (Text × Text))
  | unsupported (table : List (Text × Text))
deriving DecidableEq, Repr

/-- A rule of the migration. -/
structure Rule where
  name : Text
  category : Category
  action : Action
deriving DecidableEq, Repr

/-- Resource commands and their names in v1. -/
def resourceRenames : List (Text × Text) :=
  [("iso-image".toList, "cdrom".toList),
   ("startup-script".toList, "note".toList),
   ("ipv4".toList, "ipaddress".toList),
   ("price".toList, "service-class".toList)]

/-- Product commands and their names in v1. -/
def productAliases : List (Text × Text) :=
  [("product-disk".toList, "disk-plan".toList),
   ("product-internet".toList, "internet-plan".toList),
   ("product-server".toList, "server-plan".toList),
   ("product-license".toList, "license-info".toList),
   ("product-private-host".toList, "private-host-plan".toList)]

/-- Commands that v1 does not have, and what to do instead. -/
def unsupportedCommands : List (Text × Text) :=
  [("summary".toList,
    "'summary' was removed in v1; list each resource with its own 'list' command".toList),
   ("object-storage".toList,
    "'object-storage' was removed in v1; use an S3-compatible client instead".toList),
   ("ojs".toList,
    "'ojs' (object-storage) was removed in v1; use an S3-compatible client instead".toList)]

/-- The rule that turns selectors into arguments. -/
def selectorRule : Rule :=
  ⟨"selector-to-argument".toList, .selectorMigration, .selectorArgument⟩

/-- The rule that replaces the removed output formats. -/
def outputRule : Rule :=
  ⟨"output-type-json".toList, .outputFormat, .outputFormat⟩

/-- The rule that writes every zone in one way. -/
def zoneRule : Rule :=
  ⟨"zone-canonical".toList, .zoneNormalize, .zoneCanonical⟩

/-- The rule that renames resource commands. -/
def resourceRule : Rule :=
  ⟨"resource-rename".toList, .resourceRename, .commandRename resourceRenames⟩

/-- The rule that renames product commands. -/
def productRule : Rule :=
  ⟨"product-alias".toList, .productAlias, .commandRename productAliases⟩

/-- The rules that change calls in place, in the order in which they are applied. -/
def inPlaceRules : List Rule :=
  [selectorRule, outputRule, zoneRule, resourceRule, productRule]

/-- The rule that retires a line, applied after all others. -/
def retirement : Rule :=
  ⟨"unsupported-command".toList, .deprecatedCommand, .unsupported unsupportedCommands⟩

/-- All rules, in the order in which they are applied. -/
def rules : List Rule :=
  inPlaceRules ++ [retirement]

/-- Whether a rule ends the migration of a line. -/
def Rule.isTerminal (rule : Rule) : Bool :=
  match rule.action with
  | .unsupported _ => true
  | _ => false

/-- What a table gives for a command. -/
def lookup (table : List (Text × Text)) (command : Text) : Option Text :=
  (table.find? fun row => row.1 == command).map Prod.snd

/-- Whether a token may start to the right of `before`, the character to the left (`none` at the
edge of the body). -/
def tokenMayFollow : (before : Option Char) → Bool
  | none => true
  | some c => Text.isAsciiBlank c

/-- Whether a token may end to the left of `rest`. -/
def tokenMayPrecede : (rest : Text) → Bool
  | [] => true
  | c :: _ => Text.isAsciiBlank c

/-- A call body with every whole token that `hit?` finds outside quotes replaced. -/
def optionFragments (hit? : Text → Option Hit) (before : Option Char) (quote : Quote.State) :
    Text → List Fragment
  | [] => []
  | c :: text =>
    match hit? (c :: text) with
    | some ⟨m :: ms, replacement⟩ =>
      let rest := text.drop ms.length
      let fragments :=
        match replacement with
        | some after =>
          if quote.isNone && tokenMayFollow before && tokenMayPrecede rest then
            [.replaced (m :: ms) after]
          else Fragment.keep (m :: ms)
        | none => Fragment.keep (m :: ms)
      fragments ++
        optionFragments hit? (m :: ms).getLast? (Quote.run quote (m :: ms)) rest
    | _ => .kept c :: optionFragments hit? (some c) (Quote.step quote c) text
termination_by text => text.length
decreasing_by
  · simp only [List.length_drop, List.length_cons]
    omega
  · simp

/-- A call body with its command renamed if the table has it. -/
def commandFragments (table : List (Text × Text)) (body : Text) : List Fragment :=
  match commandWord? body with
  | none => Fragment.keep body
  | some (front, command, back) =>
    match lookup table command with
    | none => Fragment.keep body
    | some name => Fragment.keep front ++ .replaced command name :: Fragment.keep back

/-- What a rule makes of a call body. -/
def Rule.fragments (rule : Rule) (body : Text) : List Fragment :=
  match rule.action with
  | .outputFormat => optionFragments outputType? none none body
  | .selectorArgument => optionFragments selector? none none body
  | .zoneCanonical => optionFragments zone? none none body
  | .commandRename table => commandFragments table body
  | .unsupported _ => Fragment.keep body

/-- Why the line of a call body is retired, if it is. -/
def Rule.guidance? (rule : Rule) (body : Text) : Option Text :=
  match rule.action with
  | .unsupported table => (commandWord? body).bind fun (_, command, _) => lookup table command
  | _ => none

end Migration
end ScriptUpgrade
