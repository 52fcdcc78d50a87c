/-
# Calls of a tool inside a shell line

A call is the keyword of the tool and its body. The keyword stands at the start of the line, after
a space or tab, or after one of the operators that begin a command, and an ASCII blank or the end
of the line follows it; it does not stand inside quotes or after the `#` of a comment. The body
runs up to the next operator outside quotes, the next comment, or the end of the line, and leaves
out the ASCII blanks at its end.

`dissect` cuts a line into the characters outside its calls and the bodies of its calls. Nothing is
lost (`assemble_dissect`), so a call can be changed in place by changing its body.

A line whose first character other than a blank is `#` has no calls.
-/

import ScriptUpgrade.Shell.Quote
import ScriptUpgrade.Text.Blank

namespace ScriptUpgrade
namespace Call

/-- A part of a line: one character outside every call, or the body of a call. -/
inductive Part where
  | outside (c : Char)
  | call (body : Text)
deriving DecidableEq, Repr

/-- Whether the keyword may follow `before`, the character to the left (`none` at the start). -/
def mayFollow : (before : Option Char) → Bool
  | none => true
  | some c =>
    c == ' ' || c == '\t' || c == ';' || c == '|' || c == '&' || c == '(' || c == '`' || c == '\x7b'

/-- Whether a `#` to the right of `before` starts a comment. -/
def commentMayFollow : (before : Option Char) → Bool
  | none => true
  | some c => Text.isAsciiBlank c

/-- The operators that end a call. -/
def isOperator (c : Char) : Bool :=
  c == '|' || c == ';' || c == '&' || c == ')' || c == '`'

/-- The text after the rest of the keyword, if a blank or the end of the line follows it. -/
def afterKeyword? (keyword text : Text) : Option Text :=
  match Text.after? keyword text with
  | none => none
  | some [] => some []
  | some (c :: rest) => if Text.isAsciiBlank c then some (c :: rest) else none

theorem length_afterKeyword? {keyword text rest : Text}
    (h : afterKeyword? keyword text = some rest) : rest.length ≤ text.length := by
  unfold afterKeyword? at h
  split at h
  · simp at h
  · rename_i heq
    rw [← Option.some.inj h]
    exact Text.length_after? heq
  · rename_i heq
    split at h
    · rw [← Option.some.inj h]
      exact Text.length_after? heq
    · simp at h

theorem append_of_afterKeyword? {keyword text rest : Text}
    (h : afterKeyword? keyword text = some rest) : keyword ++ rest = text := by
  unfold afterKeyword? at h
  split at h
  · simp at h
  · rename_i heq
    rw [← Option.some.inj h]
    exact Text.append_of_after? heq
  · rename_i heq
    split at h
    · rw [← Option.some.inj h]
      exact Text.append_of_after? heq
    · simp at h

/-- The characters up to the first operator or comment outside quotes. -/
def reach (before : Option Char) (quote : Quote.State) : Text → Text
  | [] => []
  | c :: text =>
    if quote.isNone && (isOperator c || (c == '#' && commentMayFollow before)) then []
    else c :: reach (some c) (Quote.step quote c) text

theorem reach_isPrefix (before : Option Char) (quote : Quote.State) (text : Text) :
    reach before quote text <+: text := by
  induction text generalizing before quote with
  | nil => simp [reach]
  | cons c text ih =>
    unfold reach
    split
    · exact List.nil_prefix
    · exact List.cons_prefix_cons.2 ⟨rfl, ih _ _⟩

/-- The body of a call whose keyword ends with `before`, at the start of `text`. -/
def body (before : Option Char) (text : Text) : Text :=
  Text.dropTail Text.isAsciiBlank (reach before none text)

theorem body_isPrefix (before : Option Char) (text : Text) : body before text <+: text := by
  refine List.IsPrefix.trans ?_ (reach_isPrefix before none text)
  have := List.dropWhile_suffix (l := (reach before none text).reverse) Text.isAsciiBlank
  rw [← List.reverse_prefix] at this
  simpa [body, Text.dropTail] using this

/-- The parts of a line from here on, for the keyword `k :: ks`. -/
def scan (k : Char) (ks : Text) (before : Option Char) (quote : Quote.State) : Text → List Part
  | [] => []
  | c :: text =>
    if quote.isSome || Quote.isMark c then
      .outside c :: scan k ks (some c) (Quote.step quote c) text
    else if c == '#' && commentMayFollow before then
      (c :: text).map .outside
    else if mayFollow before && c == k then
      match h : afterKeyword? ks text with
      | some rest =>
        let called := body (k :: ks).getLast? rest
        .call called :: scan k ks (k :: ks ++ called).getLast? none (rest.drop called.length)
      | none => .outside c :: scan k ks (some c) none text
    else .outside c :: scan k ks (some c) none text
termination_by text => text.length
decreasing_by
  · simp
  · have := length_afterKeyword? h
    simp only [List.length_drop, List.length_cons]
    omega
  · simp
  · simp

/-- Whether the first character other than a blank is `#`. -/
def isComment (line : Text) : Bool :=
  (Text.trimStart line).head? == some '#'

/-- The parts of a line: its characters outside calls of `keyword`, and the bodies of the calls. -/
def dissect (keyword line : Text) : List Part :=
  match keyword with
  | [] => line.map .outside
  | k :: ks => if isComment line then line.map .outside else scan k ks none none line

/-- The text of a part. -/
def Part.text (keyword : Text) : Part → Text
  | .outside c => [c]
  | .call body => keyword ++ body

/-- The line made of parts. -/
def assemble (keyword : Text) (parts : List Part) : Text :=
  parts.flatMap (Part.text keyword)

theorem assemble_outside (keyword text : Text) :
    assemble keyword (text.map .outside) = text := by
  induction text with
  | nil => rfl
  | cons c text ih =>
    simp only [assemble, List.map_cons, List.flatMap_cons] at ih ⊢
    rw [ih]
    rfl

theorem assemble_scan (k : Char) (ks : Text) (before : Option Char) (quote : Quote.State)
    (text : Text) : assemble (k :: ks) (scan k ks before quote text) = text := by
  fun_induction scan k ks before quote text with
  | case1 => rfl
  | case2 before quote c text _ ih => simpa [assemble, Part.text] using ih
  | case3 before quote c text => exact assemble_outside _ (c :: text)
  | case4 before quote c text _ _ hk rest h called ih =>
    have hc : c = k := by simp at hk; exact hk.2
    have hsplit : called ++ rest.drop called.length = rest := by
      obtain ⟨tail, htail⟩ := body_isPrefix (k :: ks).getLast? rest
      rw [← htail]
      simp [called]
    simp only [assemble, List.flatMap_cons, Part.text] at ih ⊢
    rw [ih, hc, List.append_assoc, hsplit, List.cons_append, append_of_afterKeyword? h]
  | case5 before quote c text _ _ _ _ ih => simpa [assemble, Part.text] using ih
  | case6 before quote c text _ _ _ ih => simpa [assemble, Part.text] using ih

/-- **Cutting a line into parts loses nothing.** -/
theorem assemble_dissect (keyword line : Text) : assemble keyword (dissect keyword line) = line := by
  cases keyword with
  | nil => exact assemble_outside _ _
  | cons k ks =>
    simp only [dissect]
    split
    · exact assemble_outside _ _
    · exact assemble_scan k ks none none line

/-- The calls among parts of which the first starts at byte `start`. -/
def locate (keyword : Text) (start : Nat) : List Part → List Stretch
  | [] => []
  | .outside c :: parts => locate keyword (start + c.utf8Size) parts
  | .call body :: parts =>
    .starting start (keyword ++ body) ::
      locate keyword (start + Text.size (keyword ++ body)) parts

/-- The calls of `keyword` in a line, keyword included, from left to right. -/
def all (keyword line : Text) : List Stretch :=
  locate keyword 0 (dissect keyword line)

end Call
end ScriptUpgrade
