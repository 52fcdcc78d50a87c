/-
# Plain tokens

Most rules exchange tokens for tokens, and these are plain: no character of them means anything to the
syntax of a line, they start with a character that is no blank, and they end with a letter, a digit or
a dash of ASCII. `Swap` says this of one exchange.

Exchanges of plain tokens leave the quotes of a text as they are (`run_newText`), what stands behind
them sees no other kind of character before it (`sameEnd_newText`), and a text begins as before
(`head?_newText`).
-/

import ScriptUpgrade.Proofs.CommandPosition
import ScriptUpgrade.Proofs.Reach

namespace ScriptUpgrade
namespace Migration

open Fragment
open Text (isGap)

/-- A character that means nothing to the syntax of a line. -/
def isCalm (c : Char) : Bool :=
  !Call.isOperator c && c != '#' && !Quote.isMark c

/-- A token that the syntax of a line does not look into. -/
structure IsPlainToken (token : Text) : Prop where
  first : ∃ c ∈ token.head?, Text.isBlank c = false
  last : ∃ c ∈ token.getLast?, isZoneChar c = true
  calm : ∀ c ∈ token, isCalm c = true
  unbroken : Unbroken token

/-- A plain token that becomes a plain token, with blanks or edges around it. -/
structure Swap (front old new rest : Text) : Prop where
  starts : tokenMayFollow front.getLast? = true
  ends : tokenMayPrecede rest = true
  old : IsPlainToken old
  new : IsPlainToken new

theorem exists_fin_of_isZoneChar {c : Char} (h : isZoneChar c = true) :
    ∃ n : Fin 128, c = Char.ofNat n := by
  have hlt : c.toNat < 128 := by
    simp only [isZoneChar, Text.isAsciiAlnum, Bool.or_eq_true, Bool.and_eq_true, decide_eq_true_eq,
      beq_iff_eq] at h
    have : 'z'.toNat = 122 := rfl
    have : 'Z'.toNat = 90 := rfl
    have : '9'.toNat = 57 := rfl
    rcases h with h | rfl
    · omega
    · decide
  exact ⟨⟨c.toNat, hlt⟩, (Char.ofNat_toNat c).symm⟩

/-- What a character of a zone name is not. -/
theorem isZoneChar_classes {c : Char} (h : isZoneChar c = true) :
    isCalm c = true ∧ Text.isBlank c = false ∧ Text.isAsciiBlank c = false ∧
      Call.mayFollow (some c) = false := by
  obtain ⟨n, rfl⟩ := exists_fin_of_isZoneChar h
  revert n
  decide

/-- Lower case keeps a character of a zone name in its class, and changes nothing twice. -/
theorem isZoneChar_toLower {c : Char} (h : isZoneChar c = true) :
    isZoneChar c.toLower = true ∧ c.toLower.toLower = c.toLower ∧ (c.toLower = '-' → c = '-') := by
  obtain ⟨n, rfl⟩ := exists_fin_of_isZoneChar h
  revert n
  decide

namespace IsPlainToken

variable {token : Text}

theorem ne_nil (h : IsPlainToken token) : token ≠ [] := by
  obtain ⟨c, hc, -⟩ := h.first
  rintro rfl
  simp at hc

theorem noMark (h : IsPlainToken token) : ∀ c ∈ token, Quote.isMark c = false := by
  intro c hc
  have := h.calm c hc
  simp only [isCalm, Bool.and_eq_true, Bool.not_eq_eq_eq_not, Bool.not_true] at this
  exact this.2

/-- A token cannot end where a plain token begins. -/
theorem tokenMayPrecede_append (h : IsPlainToken token) (rest : Text) :
    tokenMayPrecede (token ++ rest) = false := by
  obtain ⟨c, hc, hblank⟩ := h.first
  obtain ⟨tail, rfl⟩ := List.head?_eq_some_iff.1 hc
  rw [List.cons_append, tokenMayPrecede]
  by_contra hascii
  rw [Text.isBlank_of_isAsciiBlank (by simpa using hascii)] at hblank
  exact absurd hblank (by decide)

end IsPlainToken

/-! ### Pieces without a dash after a blank -/

theorem unbroken_of_no_blank {piece : Text} (h : ∀ c ∈ piece, Text.isAsciiBlank c = false) :
    Unbroken piece := by
  rintro left right rfl hne hfollow
  obtain ⟨front, c, rfl⟩ := (List.eq_nil_or_concat' left).resolve_left hne
  rw [List.getLast?_concat] at hfollow
  rw [tokenMayFollow, h c (by simp)] at hfollow
  exact absurd hfollow Bool.false_ne_true

theorem unbroken_of_no_dash {piece : Text} (h : '-' ∉ piece) : Unbroken piece := by
  rintro left right rfl - - hdash
  obtain ⟨rest, rfl⟩ := List.head?_eq_some_iff.1 hdash
  simp at h

theorem Unbroken.append {front back : Text} (hfront : Unbroken front) (hback : Unbroken back)
    (hdash : back.head? ≠ some '-') : Unbroken (front ++ back) := by
  intro left right hsplit hne hfollow
  rcases Text.append_eq_append_cases hsplit with ⟨inner, hfr, rfl⟩ | ⟨inner, hinner, hleft, hright⟩
  · cases inner with
    | nil => simpa using hdash
    | cons c inner =>
      have := hfront _ _ hfr hne hfollow
      simpa using this
  · rw [hleft, List.getLast?_append_of_ne_nil _ hinner] at hfollow
    exact hback _ _ hright hinner hfollow

/-! ### What exchanges keep -/

/-- Two texts end in the same character, or both in a letter, a digit or a dash of ASCII. -/
def SameEnd (left right : Text) : Prop :=
  left.getLast? = right.getLast? ∨
    (∃ c ∈ left.getLast?, isZoneChar c = true) ∧ ∃ c ∈ right.getLast?, isZoneChar c = true

theorem SameEnd.tokenMayFollow_eq {left right : Text} (h : SameEnd left right) :
    tokenMayFollow left.getLast? = tokenMayFollow right.getLast? := by
  rcases h with h | ⟨⟨c, hc, hzone⟩, d, hd, hzone'⟩
  · rw [h]
  · rw [Option.mem_def.1 hc, Option.mem_def.1 hd, tokenMayFollow, tokenMayFollow,
      (isZoneChar_classes hzone).2.2.1, (isZoneChar_classes hzone').2.2.1]

/-- Every replaced stretch is a plain token and becomes one. -/
def IsPlain (fragments : List Fragment) : Prop :=
  ∀ old new, .replaced old new ∈ fragments → IsPlainToken old ∧ IsPlainToken new

theorem isPlain_of_each_swap {front : Text} {fragments : List Fragment}
    (h : Each Swap front fragments) : IsPlain fragments := by
  intro old new hmem
  obtain ⟨left, rest, hswap⟩ := h.of_mem hmem
  exact ⟨hswap.old, hswap.new⟩

theorem IsPlain.of_append {left right : List Fragment} (h : IsPlain (left ++ right)) :
    IsPlain left ∧ IsPlain right :=
  ⟨fun old new hmem => h old new (List.mem_append_left _ hmem),
    fun old new hmem => h old new (List.mem_append_right _ hmem)⟩

/-- **Exchanges keep the kind of the last character.** -/
theorem sameEnd_newText {fragments : List Fragment} (h : IsPlain fragments) :
    SameEnd (newText fragments) (oldText fragments) := by
  rcases List.eq_nil_or_concat' fragments with rfl | ⟨left, fragment, rfl⟩
  · exact Or.inl rfl
  · rw [newText_append, oldText_append]
    cases fragment with
    | kept c => exact Or.inl (by simp)
    | replaced old new =>
      obtain ⟨hold, hnew⟩ := h old new (by simp)
      rw [newText_replaced, oldText_replaced, newText_nil, oldText_nil, List.append_nil,
        List.append_nil]
      refine Or.inr ⟨?_, ?_⟩
      · rw [List.getLast?_append_of_ne_nil _ hnew.ne_nil]
        exact hnew.last
      · rw [List.getLast?_append_of_ne_nil _ hold.ne_nil]
        exact hold.last

/-- **Exchanges keep the quotes.** -/
theorem run_newText {state : Quote.State} (hstate : Quote.IsOpen state) {fragments : List Fragment}
    (h : IsPlain fragments) :
    Quote.run state (newText fragments) = Quote.run state (oldText fragments) := by
  induction fragments generalizing state with
  | nil => rfl
  | cons fragment fragments ih =>
    have htail : IsPlain fragments := fun old new hmem => h old new (List.mem_cons_of_mem _ hmem)
    cases fragment with
    | kept c => exact ih (Quote.isOpen_step hstate c) htail
    | replaced old new =>
      obtain ⟨hold, hnew⟩ := h old new (by simp)
      rw [newText_replaced, oldText_replaced, Quote.run_append, Quote.run_append,
        Quote.run_eq_self hstate hnew.noMark, Quote.run_eq_self hstate hold.noMark]
      exact ih hstate htail

/-- What may stand in front of a text may stand in front of it after exchanges. -/
theorem tokenMayPrecede_newText {fragments : List Fragment} (h : IsPlain fragments) :
    tokenMayPrecede (newText fragments) = tokenMayPrecede (oldText fragments) := by
  cases fragments with
  | nil => rfl
  | cons fragment fragments =>
    cases fragment with
    | kept c => rfl
    | replaced old new =>
      obtain ⟨hold, hnew⟩ := h old new (by simp)
      rw [newText_replaced, oldText_replaced, hnew.tokenMayPrecede_append,
        hold.tokenMayPrecede_append]

end Migration
end ScriptUpgrade
