/-
# File name patterns

A pattern is a path some of whose components have wildcards: `?` stands for one character, `*` for
any number of them, `[...]` for one of a set of characters and `[!...]` for one that is not in the
set. A component `**` stands for any number of directories. In a set, `]` right at the start is a
member, and `a-z` stands for all characters between its ends.
-/

import ScriptUpgrade.Files.Path

namespace ScriptUpgrade
namespace Pattern

/-- What is wrong with a pattern. -/
inductive Fault where
  | wildcards
  | recursion
  | range
deriving DecidableEq, Repr

/-- The wording of a fault. -/
def Fault.message : Fault → Text
  | .wildcards => "wildcards are either regular `*` or recursive `**`".toList
  | .recursion => "recursive wildcards must form a single path component".toList
  | .range => "invalid range pattern".toList

/-- A part of a pattern. A set is given by the first and last characters of its ranges. -/
inductive Token where
  | char (c : Char)
  | any
  | sequence
  | directories
  | oneOf (ranges : List (Char × Char))
  | noneOf (ranges : List (Char × Char))
deriving DecidableEq, Repr

/-- The ranges of a set as it is written between brackets. -/
def ranges : Text → List (Char × Char)
  | a :: '-' :: b :: set => (a, b) :: ranges set
  | a :: set => (a, a) :: ranges set
  | [] => []

/-- Reads a set after its opening bracket: the token and the text after the closing bracket. -/
def set? (text : Text) : Option (Token × Text) :=
  match text with
  | '!' :: first :: rest =>
    (Text.cutAt? ']' rest).map fun (set, after) => (.noneOf (ranges (first :: set)), after)
  | ['!'] => none
  | first :: rest =>
    (Text.cutAt? ']' rest).map fun (set, after) => (.oneOf (ranges (first :: set)), after)
  | [] => none

theorem length_cutAt? {mark : Char} {text front back : Text}
    (h : Text.cutAt? mark text = some (front, back)) : back.length < text.length := by
  induction text generalizing front back with
  | nil => simp [Text.cutAt?] at h
  | cons c text ih =>
    simp only [Text.cutAt?] at h
    split at h
    · simp only [Option.some.injEq, Prod.mk.injEq] at h
      rw [h.2, List.length_cons]
      exact Nat.lt_succ_self _
    · obtain ⟨⟨front', back'⟩, hcut, heq⟩ := Option.map_eq_some_iff.1 h
      simp only [Prod.mk.injEq] at heq
      rw [← heq.2]
      exact Nat.lt_succ_of_lt (ih hcut)

theorem length_set? {text rest : Text} {token : Token} (h : set? text = some (token, rest)) :
    rest.length < text.length := by
  unfold set? at h
  split at h
  · obtain ⟨⟨front, back⟩, hcut, heq⟩ := Option.map_eq_some_iff.1 h
    have := length_cutAt? hcut
    simp only [Prod.mk.injEq] at heq
    rw [← heq.2]
    simp only [List.length_cons]
    omega
  · simp at h
  · obtain ⟨⟨front, back⟩, hcut, heq⟩ := Option.map_eq_some_iff.1 h
    have := length_cutAt? hcut
    simp only [Prod.mk.injEq] at heq
    rw [← heq.2]
    simp only [List.length_cons]
    omega
  · simp at h

/-- Reads a pattern to the right of `before`, the character to the left (`none` at the start). -/
def compileFrom (before : Option Char) (text : Text) : Except Fault (List Token) :=
  match text with
  | [] => .ok []
  | '?' :: rest => (compileFrom (some '?') rest).map (.any :: ·)
  | '*' :: '*' :: '*' :: _ => .error .wildcards
  | '*' :: '*' :: rest =>
    if before.all (· == '/') then
      match rest with
      | [] => .ok [.directories]
      | '/' :: rest => (compileFrom (some '/') rest).map (.directories :: ·)
      | _ => .error .recursion
    else .error .recursion
  | '*' :: rest => (compileFrom (some '*') rest).map (.sequence :: ·)
  | '[' :: rest =>
    match h : set? rest with
    | some (token, after) => (compileFrom (some ']') after).map (token :: ·)
    | none => .error .range
  | c :: rest => (compileFrom (some c) rest).map (.char c :: ·)
termination_by text.length
decreasing_by
  all_goals simp only [List.length_cons]
  · omega
  · omega
  · omega
  · have := length_set? h
    omega
  · omega

/-- Reads a pattern. -/
def compile (text : Text) : Except Fault (List Token) :=
  compileFrom none text

/-- Whether a character lies in one of the ranges. -/
def inSet (ranges : List (Char × Char)) (c : Char) : Bool :=
  ranges.any fun (first, last) => first.toNat ≤ c.toNat && c.toNat ≤ last.toNat

/-- Whether some end of a text, the text itself and the empty one included, passes a test. -/
def anyTail (test : Text → Bool) : Text → Bool
  | [] => test []
  | c :: text => test (c :: text) || anyTail test text

/-- Whether the first character passes one test and the text after it another. -/
def firstAndRest (first : Char → Bool) (rest : Text → Bool) : Text → Bool
  | [] => false
  | c :: text => first c && rest text

/-- The characters that a token stands for, if it stands for a single one. -/
def Token.test? : Token → Option (Char → Bool)
  | .char c => some (· == c)
  | .any => some fun _ => true
  | .oneOf ranges => some (inSet ranges)
  | .noneOf ranges => some (!inSet ranges ·)
  | .sequence => none
  | .directories => none

/-- Whether a name has the form of a pattern, token by token. A wildcard for a sequence is tried at
every end of the name, so this is the meaning of a pattern and not the way to match one. -/
def hasForm : List Token → Text → Bool
  | [], text => text.isEmpty
  | token :: tokens, text =>
    match token.test? with
    | some test => firstAndRest test (hasForm tokens) text
    | none => anyTail (hasForm tokens) text

/-- Answers for the ends of a text, where only the empty one is right. -/
def emptyRow : Text → List Bool
  | [] => [true]
  | _ :: text => false :: emptyRow text

/-- Answers for the ends of a text with one more character in front of what `below` answers for. -/
def characterRow (test : Char → Bool) : Text → (below : List Bool) → List Bool
  | c :: text, _ :: below => (test c && below.headD false) :: characterRow test text below
  | _, _ => [false]

/-- Answers for the ends of a text with any sequence in front of what `below` answers for. -/
def sequenceRow : (below : List Bool) → List Bool
  | [] => []
  | answer :: below =>
    let row := sequenceRow below
    (answer || row.headD false) :: row

/-- For every end of a text, from the text itself to the empty one, whether it has the form of a
pattern. Each token is looked at once for each end. -/
def row : List Token → Text → List Bool
  | [], text => emptyRow text
  | token :: tokens, text =>
    match token.test? with
    | some test => characterRow test text (row tokens text)
    | none => sequenceRow (row tokens text)

/-- Whether a name has the form of a pattern. -/
def fits (tokens : List Token) (text : Text) : Bool :=
  (row tokens text).headD false

theorem row_cons (tokens : List Token) (c : Char) (text : Text) :
    row tokens (c :: text) = fits tokens (c :: text) :: row tokens text := by
  induction tokens with
  | nil => rfl
  | cons token tokens ih =>
    unfold fits
    simp only [row]
    split
    · rw [ih]
      rfl
    · rw [ih]
      rfl

theorem row_nil (tokens : List Token) : ∃ answer, row tokens [] = [answer] := by
  induction tokens with
  | nil => exact ⟨true, rfl⟩
  | cons token tokens ih =>
    obtain ⟨answer, hrow⟩ := ih
    simp only [row, hrow]
    split
    · exact ⟨false, rfl⟩
    · exact ⟨answer || false, rfl⟩

theorem fits_nil (text : Text) : fits [] text = text.isEmpty := by
  cases text <;> rfl

theorem fits_character {token : Token} {test : Char → Bool} (h : token.test? = some test)
    (tokens : List Token) (text : Text) :
    fits (token :: tokens) text = firstAndRest test (fits tokens) text := by
  cases text with
  | nil => simp [fits, row, h, characterRow, firstAndRest]
  | cons c text =>
    obtain ⟨answer, hrow⟩ : ∃ answer, row tokens (c :: text) = answer :: row tokens text :=
      ⟨_, row_cons tokens c text⟩
    simp only [fits, row, h, hrow, characterRow, firstAndRest, List.headD_cons]

theorem fits_sequence {token : Token} (h : token.test? = none) (tokens : List Token) (text : Text) :
    fits (token :: tokens) text = anyTail (fits tokens) text := by
  induction text with
  | nil =>
    obtain ⟨answer, hrow⟩ : ∃ answer, row tokens [] = [answer] := row_nil tokens
    simp [fits, row, h, hrow, anyTail, sequenceRow]
  | cons c text ih =>
    obtain ⟨answer, hrow⟩ : ∃ answer, row tokens (c :: text) = answer :: row tokens text :=
      ⟨_, row_cons tokens c text⟩
    simp only [anyTail, ← ih]
    simp only [fits, row, h, hrow, sequenceRow, List.headD_cons]

/-- **Matching row by row decides the meaning of a pattern.** -/
theorem fits_eq_hasForm (tokens : List Token) (text : Text) :
    fits tokens text = hasForm tokens text := by
  induction tokens generalizing text with
  | nil => exact fits_nil text
  | cons token tokens ih =>
    have hrest : fits tokens = hasForm tokens := funext ih
    unfold hasForm
    split
    · next test h => rw [fits_character h, hrest]
    · next h => rw [fits_sequence h, hrest]

/-- The text that is the only one to have the form of a pattern, if it has no wildcards. -/
def literal? (tokens : List Token) : Option Text :=
  tokens.mapM fun
    | .char c => some c
    | _ => none

/-- Whether a pattern stands for any number of directories. -/
def isRecursive (tokens : List Token) : Bool :=
  tokens.contains .directories

/-- Whether a text is taken for a pattern and not for the path of a file. -/
def isPattern (text : Text) : Bool :=
  text.any fun c => c == '*' || c == '?' || c == '['

/-- The components of a pattern as they are written. A slash at the start or the end stands for no
component, other slashes next to each other stand for empty ones. -/
def componentTexts (text : Text) : List Text :=
  let parts := Path.parts (text.dropWhile (· == '/'))
  if parts.getLast? == some [] then parts.dropLast else parts

/-- The components of a pattern. The pattern as a whole has to be well-formed, and then each of its
components on its own. -/
def components (text : Text) : Except Fault (List (List Token)) := do
  let _ ← compile text
  (componentTexts text).mapM compile

end Pattern
end ScriptUpgrade
