/-
# Texts

A text is the list of its characters, so that every scanner of this library is a recursion on its
data. Positions that leave the library are counted in bytes of the UTF-8 encoding; `Text.size` is
that measure, and since it is additive over `++` no scanner has to carry an index.

Texts are ordered by `Text.precedes`, character by character and by code point. UTF-8 keeps that
order, so it is also the byte order of the encodings.
-/

namespace ScriptUpgrade

/-- A text is the list of its characters. -/
abbrev Text := List Char

namespace Text

/-- Whether all characters of a text have a property is decided along the text. -/
instance decidableForallMem {p : Char → Prop} [DecidablePred p] (text : Text) :
    Decidable (∀ c ∈ text, p c) :=
  List.decidableBAll p text

/-- The number of bytes of the UTF-8 encoding. -/
def size : Text → Nat
  | [] => 0
  | c :: text => c.utf8Size + size text

theorem size_append (left right : Text) : size (left ++ right) = size left + size right := by
  induction left with
  | nil => simp [size]
  | cons c left ih => simp [size, ih, Nat.add_assoc]

/-- The text after `lead`, if `text` starts with `lead`. -/
def after? : (lead text : Text) → Option Text
  | [], text => some text
  | _ :: _, [] => none
  | a :: lead, c :: text => if a = c then after? lead text else none

/-- **What follows `lead` is the rest of the text**: reading `lead` loses nothing. -/
theorem append_of_after? {lead text rest : Text} (h : after? lead text = some rest) :
    lead ++ rest = text := by
  induction lead generalizing text with
  | nil => simpa [after?] using h.symm
  | cons a lead ih =>
    cases text with
    | nil => simp [after?] at h
    | cons c text =>
      by_cases hc : a = c
      · subst hc
        simp only [after?, if_true] at h
        simp [ih h]
      · simp [after?, hc] at h

theorem length_after? {lead text rest : Text} (h : after? lead text = some rest) :
    rest.length ≤ text.length := by
  have := congrArg List.length (append_of_after? h)
  simp only [List.length_append] at this
  omega

/-- Whether `text` starts with `lead`. -/
def startsWith (lead text : Text) : Bool :=
  (after? lead text).isSome

/-- The text without the longest stretch of `drop` characters at its end. -/
def dropTail (drop : Char → Bool) (text : Text) : Text :=
  (text.reverse.dropWhile drop).reverse

/-- The parts before and after the first `mark`, if there is one. -/
def cutAt? (mark : Char) : Text → Option (Text × Text)
  | [] => none
  | c :: text =>
    if c = mark then some ([], text)
    else (cutAt? mark text).map fun (front, back) => (c :: front, back)

/-- The order by code points; a text precedes every proper extension of it. -/
def precedes : Text → Text → Bool
  | _, [] => false
  | [], _ :: _ => true
  | a :: left, b :: right => a.toNat < b.toNat || (a == b && precedes left right)

end Text
end ScriptUpgrade
