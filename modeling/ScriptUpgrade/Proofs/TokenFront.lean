/-
# The tokens of a text that grows to the right

The tokens of `front ++ rest` are found without reading `front` again. Either a token may start
after `front`, and then the tokens of `rest` follow those of `front`; or the last token of `front`
is unfinished, and `rest` goes on with it, inside double quotes or outside.

| after `front` | the tokens of `front ++ rest` |
| --- | --- |
| `Separates front done` | `done`, then the tokens of `rest` |
| `Suspends front done token quoted` | `done`, then `resume token quoted rest` |

Which of the two states of the last row it is depends on the number of double quotes in `front`
(`isOpen`). A front that ends with a blank suspends only inside double quotes, and then the unfinished
token has that blank as a character.
-/

import Mathlib.Data.List.Induction
import ScriptUpgrade.Shell.Token

namespace ScriptUpgrade
namespace Token

open Text (isBlank)

/-- The tokens of `rest` when `token` is unfinished to the left of it. -/
def resume (token : Text) (quoted : Bool) (rest : Text) : List Text :=
  (token ++ (read quoted rest).1) :: split (read quoted rest).2

/-- After `front` the tokens `done` are complete and no other has begun. -/
def Separates (front : Text) (done : List Text) : Prop :=
  ∀ rest, split (front ++ rest) = done ++ split rest

/-- After `front` the tokens `done` are complete and `token` is unfinished. -/
def Suspends (front : Text) (done : List Text) (token : Text) (quoted : Bool) : Prop :=
  ∀ rest, split (front ++ rest) = done ++ resume token quoted rest

@[simp] theorem split_nil : split [] = [] := by
  rw [split]
  rfl

theorem split_eq (text : Text) :
    split text = match text.dropWhile isBlank with
      | [] => []
      | c :: text => resume [] false (c :: text) := by
  rw [split]
  split
  · rename_i hnil
    rw [hnil]
  · rename_i c text hcons
    rw [hcons]
    rfl

theorem split_cons_of_isBlank {c : Char} (h : isBlank c = true) (text : Text) :
    split (c :: text) = split text := by
  rw [split_eq, split_eq text, List.dropWhile_cons_of_pos h]

theorem split_cons_of_not_isBlank {c : Char} (h : isBlank c = false) (text : Text) :
    split (c :: text) = resume [] false (c :: text) := by
  rw [split_eq, List.dropWhile_cons_of_neg (by simp [h])]

@[simp] theorem resume_nil (token : Text) (quoted : Bool) : resume token quoted [] = [token] := by
  simp [resume, read]

@[simp] theorem resume_mark (token : Text) (quoted : Bool) (rest : Text) :
    resume token quoted ('"' :: rest) = resume token (!quoted) rest := by
  simp [resume, read]

theorem resume_cons_of_isBlank {c : Char} (h : isBlank c = true) (token rest : Text) :
    resume token false (c :: rest) = token :: split rest := by
  have hmark : c ≠ '"' := by
    rintro rfl
    revert h
    decide
  simp [resume, read, hmark, h, split_cons_of_isBlank h]

theorem resume_cons {c : Char} {quoted : Bool} (hmark : c ≠ '"')
    (h : isBlank c = true → quoted = true) (token rest : Text) :
    resume token quoted (c :: rest) = resume (token ++ [c]) quoted rest := by
  have hread : (isBlank c && !quoted) = false := by
    cases hc : isBlank c with
    | false => rfl
    | true => simp [h hc]
  simp [resume, read, hmark, hread]

/-- Inside double quotes all characters but the mark go into the token. -/
theorem resume_append_quoted {text : Text} (hmark : '"' ∉ text) (token rest : Text) :
    resume token true (text ++ rest) = resume (token ++ text) true rest := by
  induction text generalizing token with
  | nil => simp
  | cons c text ih =>
    rw [List.mem_cons, not_or] at hmark
    rw [List.cons_append, resume_cons (Ne.symm hmark.1) (fun _ => rfl), ih hmark.2]
    simp

/-- A text that is a token as it stands: characters other than blanks and double quotes. -/
structure IsWord (word : Text) : Prop where
  ne_nil : word ≠ []
  plain : ∀ c ∈ word, c ≠ '"' ∧ isBlank c = false

theorem IsWord.append {left right : Text} (hleft : IsWord left) (hright : IsWord right) :
    IsWord (left ++ right) where
  ne_nil := List.append_ne_nil_of_left_ne_nil hleft.ne_nil right
  plain c hc := by
    rcases List.mem_append.1 hc with hc | hc
    · exact hleft.plain c hc
    · exact hright.plain c hc

/-- The characters of a word go into the token in either state. -/
theorem resume_append_word {word : Text} (h : ∀ c ∈ word, c ≠ '"' ∧ isBlank c = false)
    (quoted : Bool) (token rest : Text) :
    resume token quoted (word ++ rest) = resume (token ++ word) quoted rest := by
  induction word generalizing token with
  | nil => simp
  | cons c word ih =>
    obtain ⟨hmark, hblank⟩ := h c List.mem_cons_self
    rw [List.cons_append, resume_cons hmark (fun h => by rw [hblank] at h; cases h),
      ih fun d hd => h d (List.mem_cons_of_mem c hd)]
    simp

/-- **A word between blanks is a token.** -/
theorem split_word {word rest : Text} (h : IsWord word)
    (hrest : ∀ c ∈ rest.head?, isBlank c = true) : split (word ++ rest) = word :: split rest := by
  have hsplit : split (word ++ rest) = resume word false rest := by
    obtain ⟨c, tail, rfl⟩ := List.exists_cons_of_ne_nil h.ne_nil
    rw [List.cons_append, split_cons_of_not_isBlank (h.plain c List.mem_cons_self).2,
      ← List.cons_append, resume_append_word h.plain, List.nil_append]
  rw [hsplit]
  cases rest with
  | nil => simp
  | cons c rest =>
    have hc : isBlank c = true := hrest c (by simp)
    rw [resume_cons_of_isBlank hc, split_cons_of_isBlank hc]

/-- Blanks between tokens are passed over. -/
theorem split_append_of_isBlank {blanks : Text} (h : ∀ c ∈ blanks, isBlank c = true)
    (rest : Text) : split (blanks ++ rest) = split rest := by
  induction blanks with
  | nil => rfl
  | cons c blanks ih =>
    rw [List.cons_append, split_cons_of_isBlank (h c List.mem_cons_self),
      ih fun d hd => h d (List.mem_cons_of_mem c hd)]

theorem Separates.split_eq {front : Text} {done : List Text} (h : Separates front done) :
    split front = done := by
  simpa using h []

theorem Suspends.split_eq {front : Text} {done : List Text} {token : Text} {quoted : Bool}
    (h : Suspends front done token quoted) : split front = done ++ [token] := by
  simpa using h []

/-- Whether a double quote is open at the end of a text. -/
def isOpen (text : Text) : Bool :=
  text.count '"' % 2 == 1

theorem isOpen_snoc (front : Text) (c : Char) : isOpen (front ++ [c]) = (isOpen front ^^ c == '"') := by
  unfold isOpen
  rw [List.count_append, List.count_singleton]
  rcases Nat.mod_two_eq_zero_or_one (front.count '"') with h | h <;>
    cases hc : c == '"' <;> simp [h, Nat.add_mod]

/-- One more character after a front that separates. -/
theorem Separates.snoc {front : Text} {done : List Text} (h : Separates front done) (c : Char) :
    (isBlank c = true ∧ Separates (front ++ [c]) done) ∨
      (isBlank c = false ∧ ∃ token, Suspends (front ++ [c]) done token (c == '"')) := by
  have hsnoc : ∀ rest, split (front ++ [c] ++ rest) = done ++ split (c :: rest) := fun rest => by
    rw [List.append_assoc, h, List.singleton_append]
  cases hc : isBlank c with
  | true => exact Or.inl ⟨rfl, fun rest => by rw [hsnoc, split_cons_of_isBlank hc]⟩
  | false =>
    refine Or.inr ⟨rfl, ?_⟩
    by_cases hmark : c = '"'
    · refine ⟨[], fun rest => ?_⟩
      rw [hsnoc, split_cons_of_not_isBlank hc, hmark, resume_mark]
      rfl
    · refine ⟨[c], fun rest => ?_⟩
      rw [hsnoc, split_cons_of_not_isBlank hc, beq_false_of_ne hmark,
        resume_cons hmark (fun h => by rw [hc] at h; cases h), List.nil_append]

/-- One more character after a front that suspends. -/
theorem Suspends.snoc {front : Text} {done : List Text} {token : Text} {quoted : Bool}
    (h : Suspends front done token quoted) (c : Char) :
    (isBlank c = true ∧ quoted = false ∧ Separates (front ++ [c]) (done ++ [token])) ∨
      (isBlank c = true ∧ quoted = true ∧ Suspends (front ++ [c]) done (token ++ [c]) true) ∨
      (isBlank c = false ∧ ∃ token', Suspends (front ++ [c]) done token' (quoted ^^ c == '"')) := by
  have hsnoc : ∀ rest, split (front ++ [c] ++ rest) = done ++ resume token quoted (c :: rest) :=
    fun rest => by rw [List.append_assoc, h, List.singleton_append]
  cases hc : isBlank c with
  | true =>
    cases quoted with
    | false =>
      refine Or.inl ⟨rfl, rfl, fun rest => ?_⟩
      rw [hsnoc, resume_cons_of_isBlank hc, List.append_assoc, List.singleton_append]
    | true =>
      have hmark : c ≠ '"' := by
        rintro rfl
        revert hc
        decide
      exact Or.inr (Or.inl ⟨rfl, rfl, fun rest => by rw [hsnoc, resume_cons hmark fun _ => rfl]⟩)
  | false =>
    refine Or.inr (Or.inr ⟨rfl, ?_⟩)
    by_cases hmark : c = '"'
    · refine ⟨token, fun rest => ?_⟩
      rw [hsnoc, hmark, resume_mark, beq_self_eq_true, Bool.xor_true]
    · refine ⟨token ++ [c], fun rest => ?_⟩
      rw [hsnoc, beq_false_of_ne hmark, Bool.xor_false,
        resume_cons hmark fun h => by rw [hc] at h; cases h]

/-- **After every front a token may start or one is unfinished**, inside double quotes exactly if one
of them is open. -/
theorem exists_separates_or_suspends (front : Text) :
    (isOpen front = false ∧ ∃ done, Separates front done) ∨
      ∃ done token, Suspends front done token (isOpen front) := by
  induction front using List.reverseRecOn with
  | nil => exact Or.inl ⟨rfl, [], fun rest => rfl⟩
  | append_singleton front c ih =>
    have hmark : isBlank c = true → (c == '"') = false := by
      intro hc
      rw [beq_eq_false_iff_ne]
      rintro rfl
      exact absurd hc (by decide)
    rw [isOpen_snoc]
    rcases ih with ⟨hopen, done, h⟩ | ⟨done, token, h⟩
    · rw [hopen, Bool.false_xor]
      rcases h.snoc c with ⟨hc, h⟩ | ⟨-, token, h⟩
      · exact Or.inl ⟨hmark hc, done, h⟩
      · exact Or.inr ⟨done, token, h⟩
    · rcases h.snoc c with ⟨hc, hopen, h⟩ | ⟨hc, hopen, h⟩ | ⟨-, token', h⟩
      · exact Or.inl ⟨by rw [hopen, hmark hc]; rfl, done ++ [token], h⟩
      · exact Or.inr ⟨done, token ++ [c], by rwa [hopen, hmark hc]⟩
      · exact Or.inr ⟨done, token', h⟩

/-- **After a front that ends with a blank a token may start, or one is unfinished inside double
quotes and has the blank in it.** -/
theorem exists_of_getLast?_isBlank {front : Text} (hlast : ∀ c ∈ front.getLast?, isBlank c = true) :
    (isOpen front = false ∧ ∃ done, Separates front done) ∨
      isOpen front = true ∧
        ∃ done token, Suspends front done token true ∧ ∃ c ∈ front.getLast?, c ∈ token := by
  rcases List.eq_nil_or_concat front with rfl | ⟨left, c, rfl⟩
  · exact Or.inl ⟨rfl, [], fun rest => rfl⟩
  · rw [List.concat_eq_append] at hlast ⊢
    have hc : isBlank c = true := hlast c (by simp)
    have hopen : isOpen (left ++ [c]) = isOpen left := by
      rw [isOpen_snoc, beq_false_of_ne, Bool.xor_false]
      rintro rfl
      exact absurd hc (by decide)
    rw [hopen]
    rcases exists_separates_or_suspends left with ⟨hleft, done, h⟩ | ⟨done, token, h⟩
    · rcases h.snoc c with ⟨-, h⟩ | ⟨hno, -⟩
      · exact Or.inl ⟨hleft, done, h⟩
      · rw [hc] at hno
        cases hno
    · rcases h.snoc c with ⟨-, hleft, h⟩ | ⟨-, hleft, h⟩ | ⟨hno, -⟩
      · exact Or.inl ⟨hleft, done ++ [token], h⟩
      · exact Or.inr ⟨hleft, done, token ++ [c], h, c, by simp, by simp⟩
      · rw [hc] at hno
        cases hno

end Token
end ScriptUpgrade
