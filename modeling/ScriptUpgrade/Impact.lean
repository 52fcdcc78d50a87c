/-
# The impact of a line

An estimate, from the text alone, of what running a line may do: the risk of its most dangerous
word, a measure of its complexity, the resources its calls act on and the other programs it needs.

The complexity is one, plus one for every token with a leading dash, one for every pipe and one for
every chaining operator (`&&`, `||` and `;`), plus two if something is created and three if something
is deleted. A single `&` does not chain.
-/

import ScriptUpgrade.Shell.Call
import ScriptUpgrade.Shell.Token
import ScriptUpgrade.Text.Case
import ScriptUpgrade.Text.Word

namespace ScriptUpgrade

/-- How dangerous a line is, from the least to the most. -/
inductive Risk where
  | low
  | medium
  | high
  | critical
deriving DecidableEq, Repr

/-- All levels of risk, from the least to the most. -/
def Risk.all : List Risk :=
  [.low, .medium, .high, .critical]

/-- The name of a level of risk. -/
def Risk.name : Risk → Text
  | .low => "low".toList
  | .medium => "medium".toList
  | .high => "high".toList
  | .critical => "critical".toList

/-- The position of a level of risk in `Risk.all`. -/
def Risk.level : Risk → Nat
  | .low => 0
  | .medium => 1
  | .high => 2
  | .critical => 3

/-- The greater of two risks. -/
def Risk.max (left right : Risk) : Risk :=
  if left.level ≤ right.level then right else left

/-- What running a line may do. -/
structure Impact where
  risk : Risk
  complexity : Nat
  resources : List Text
  dependencies : List Text
deriving DecidableEq, Repr

namespace Impact

/-- The words that make a line dangerous, the most dangerous first. -/
def tiers : List (Risk × List Text) :=
  [(.critical, ["delete".toList, "reset".toList, "delete-all-cache".toList]),
   (.high,
    ["shutdown".toList, "update".toList, "edit".toList, "resize-partition".toList,
     "disconnect-from-server".toList, "disconnect-from-bridge".toList, "update-bandwidth".toList,
     "deactivate".toList, "--force".toList]),
   (.medium,
    ["create".toList, "boot".toList, "upload".toList, "connect-to-server".toList,
     "connect-to-bridge".toList, "send-nmi".toList, "activate".toList, "use".toList])]

/-- The risk of the most dangerous of some lower-case tokens. -/
def riskOf (tokens : List Text) : Risk :=
  match tiers.find? fun tier => tier.2.any tokens.contains with
  | some tier => tier.1
  | none => .low

/-- The numbers of pipes and of chaining operators of a line. -/
structure Operators where
  pipes : Nat
  chains : Nat
deriving DecidableEq, Repr

/-- One more pipe. -/
def Operators.pipe (counts : Operators) : Operators :=
  { counts with pipes := counts.pipes + 1 }

/-- One more chaining operator. -/
def Operators.chain (counts : Operators) : Operators :=
  { counts with chains := counts.chains + 1 }

/-- Whether a `#` to the right of `before` starts a comment that no operator counts in. -/
def commentFollows : (before : Option Char) → Bool
  | none => true
  | some c => Text.isBlank c

/-- The operators outside quotes and comments. -/
def operators (before : Option Char) (quote : Quote.State) : Text → Operators
  | [] => ⟨0, 0⟩
  | c :: text =>
    if quote.isSome || Quote.isMark c then operators (some c) (Quote.step quote c) text
    else if c == '#' && commentFollows before then ⟨0, 0⟩
    else
      match c, text with
      | '|', '|' :: rest => (operators (some c) none rest).chain
      | '|', rest => (operators (some c) none rest).pipe
      | '&', '&' :: rest => (operators (some c) none rest).chain
      | ';', rest => (operators (some c) none rest).chain
      | _, rest => operators (some c) none rest

/-- The complexity of a line with the given lower-case tokens. Nothing bounds it here: lines are assumed to
be so short that the count, and that of each operator, stays below `2 ^ 32` and fits into 32 bits. -/
def complexityOf (tokens : List Text) (line : Text) : Nat :=
  let counts := operators none none line
  1 + (tokens.filter fun token => token.head? == some '-').length + counts.pipes + counts.chains
    + (if tokens.contains "create".toList then 2 else 0)
    + (if tokens.contains "delete".toList then 3 else 0)

/-- The texts without repetition, each where it occurs first. -/
def distinct (texts : List Text) : List Text :=
  texts.foldl (fun kept text => if kept.contains text then kept else kept ++ [text]) []

/-- The resource a call acts on: its first token without a leading dash after the keyword. -/
def resource? (call : Text) : Option Text :=
  ((Token.split call).drop 1).find? fun token => token.head? != some '-'

/-- The resources that the calls of a line act on. -/
def resourcesOf (keyword line : Text) : List Text :=
  distinct ((Call.all keyword line).filterMap fun call => resource? call.text)

/-- Whether a character outside quotes ends a command of a line. -/
def endsCommand (c : Char) : Bool :=
  c == '|' || c == '&' || c == ';'

/-- Puts a character in front of the first of some texts. -/
def extendFirst (c : Char) : List Text → List Text
  | [] => [[c]]
  | first :: texts => (c :: first) :: texts

/-- The commands of a line: the texts between operators outside quotes, repetitions of the same
character counting as one operator. -/
def commands (quote : Quote.State) : Text → List Text
  | [] => [[]]
  | c :: text =>
    if quote.isNone && endsCommand c then [] :: commands none (text.dropWhile (· == c))
    else extendFirst c (commands (Quote.step quote c) text)
termination_by text => text.length
decreasing_by
  · have := (List.dropWhile_suffix (l := text) (· == c)).length_le
    simp only [List.length_cons]
    omega
  · simp

/-- Whether a text is the name of a shell variable. -/
def isVariable (name : Text) : Bool :=
  match name with
  | [] => false
  | c :: rest =>
    (c.isAlpha || c == '_') && rest.all fun c => Text.isAsciiAlnum c || c == '_'

/-- The text without any `$(` in front. -/
def dropSubstitutions : Text → Text
  | '$' :: '(' :: text => dropSubstitutions text
  | text => text

/-- The program that a token names: what an assignment runs by substitution, or the token without
opening brackets. An assignment of plain text names none. -/
def programOf? (token : Text) : Option Text :=
  let plain := (dropSubstitutions token).dropWhile fun c => c == '(' || c == '\x7b'
  let word :=
    match Text.cutAt? '=' token with
    | some (name, value) =>
      if isVariable name then (Text.after? "$(".toList value).getD [] else plain
    | none => plain
  if word.isEmpty then none else some word

/-- The program that a command runs. -/
def program? (command : Text) : Option Text :=
  (Token.split command).findSome? programOf?

/-- The programs other than the tool itself that a line runs. -/
def dependenciesOf (keyword line : Text) : List Text :=
  distinct (((commands none line).filterMap program?).filter fun program =>
    program != keyword && program.head? != some '#')

/-- The impact of a line. -/
def analyze (keyword line : Text) : Impact :=
  let tokens := (Token.split line).map Text.lower
  { risk := riskOf tokens
    complexity := complexityOf tokens line
    resources := resourcesOf keyword line
    dependencies := dependenciesOf keyword line }

end Impact
end ScriptUpgrade
