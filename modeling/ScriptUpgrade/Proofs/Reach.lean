/-
# Where the body of a call ends

`Call.reach` reads up to the first operator or comment outside quotes. A text that it reads to the end
is clear (`Clear`); whether a text is clear can be told part by part (`clear_append_iff`), and what
stands before it matters only as far as a comment may follow it (`reach_congr`).

The body of a call is clear, ends in no ASCII blank, and what follows it is ASCII blanks and then
something at which reading halts (`exists_body_append`). So it can be told from the outside which text
is the body (`body_append`).
-/

import Mathlib.Data.List.Basic
import ScriptUpgrade.Proofs.OptionShape
import ScriptUpgrade.Shell.Call

namespace ScriptUpgrade
namespace Text

/-- A text that ends in no `drop` character, in front of `drop` characters. -/
theorem dropTail_append {drop : Char → Bool} {front back : Text} (hback : ∀ c ∈ back, drop c = true)
    (hfront : ∀ c ∈ front.getLast?, drop c = false) : dropTail drop (front ++ back) = front := by
  have hstops : Stops drop front.reverse := by
    intro c hc
    rw [List.head?_reverse] at hc
    exact hfront c hc
  unfold dropTail
  rw [List.reverse_append, dropWhile_append_stops (fun c hc => hback c (by simpa using hc)) hstops,
    List.reverse_reverse]

/-- The `drop` characters that are cut off. -/
theorem exists_dropTail_append (drop : Char → Bool) (text : Text) :
    ∃ back, text = dropTail drop text ++ back ∧ (∀ c ∈ back, drop c = true) ∧
      ∀ c ∈ (dropTail drop text).getLast?, drop c = false := by
  refine ⟨(text.reverse.takeWhile drop).reverse, ?_, ?_, ?_⟩
  · unfold dropTail
    rw [← List.reverse_append, List.takeWhile_append_dropWhile, List.reverse_reverse]
  · intro c hc
    exact List.mem_takeWhile_imp (List.mem_reverse.1 hc)
  · intro c hc
    unfold dropTail at hc
    rw [List.getLast?_reverse] at hc
    exact stops_dropWhile drop text.reverse c hc

end Text

namespace Quote

/-- The open quote, if there is one, is a quote character. -/
def IsOpen (state : State) : Prop :=
  ∀ mark ∈ state, isMark mark = true

theorem isOpen_none : IsOpen none := by
  intro mark h
  simp at h

theorem isOpen_step {state : State} (h : IsOpen state) (c : Char) : IsOpen (step state c) := by
  intro mark hmark
  unfold step at hmark
  split at hmark
  · split at hmark
    · simp at hmark
    · exact h mark hmark
  · split at hmark
    · rename_i hc
      rwa [← Option.some.inj hmark]
    · simp at hmark

theorem eq_none_of_not_quoted {quote : State} {c : Char}
    (h : ¬ (quote.isSome || isMark c) = true) : quote = none ∧ isMark c = false := by
  rwa [Bool.or_eq_true, not_or, Bool.not_eq_true, Bool.not_eq_true, Option.isSome_eq_false_iff,
    Option.isNone_iff_eq_none] at h

/-- A text without quote characters leaves the quotes as they are. -/
theorem run_eq_self {state : State} (h : IsOpen state) {text : Text}
    (htext : ∀ c ∈ text, isMark c = false) : run state text = state := by
  induction text with
  | nil => rfl
  | cons c text ih =>
    have hc := htext c (by simp)
    have hstep : step state c = state := by
      cases state with
      | none => simp [step, hc]
      | some mark =>
        have hne : c ≠ mark := by
          rintro rfl
          simp [h c rfl] at hc
        simp [step, hne]
    change run (step state c) text = state
    rw [hstep]
    exact ih fun d hd => htext d (by simp [hd])

end Quote

namespace Call

open Text (isAsciiBlank)

/-- The last character of a text that follows `before`. -/
def lastOr (before : Option Char) (text : Text) : Option Char :=
  text.getLast?.or before

@[simp] theorem lastOr_nil (before : Option Char) : lastOr before [] = before := rfl

theorem lastOr_cons (before : Option Char) (c : Char) (text : Text) :
    lastOr before (c :: text) = lastOr (some c) text := by
  cases text with
  | nil => rfl
  | cons d text => simp [lastOr, List.getLast?_cons]

theorem lastOr_append (before : Option Char) (front back : Text) :
    lastOr before (front ++ back) = lastOr (lastOr before front) back := by
  simp [lastOr, List.getLast?_append, Option.or_assoc]

theorem lastOr_of_ne_nil {before : Option Char} {text : Text} (h : text ≠ []) :
    lastOr before text = text.getLast? := by
  rw [lastOr, List.getLast?_eq_some_getLast h]
  rfl

/-- Reading goes on to the end of the text. -/
def Clear (before : Option Char) (quote : Quote.State) (text : Text) : Prop :=
  reach before quote text = text

/-- Only whether a comment may follow is seen of what stands before a text. -/
theorem reach_congr {before before' : Option Char}
    (h : commentMayFollow before = commentMayFollow before') (quote : Quote.State) (text : Text) :
    reach before quote text = reach before' quote text := by
  cases text with
  | nil => rfl
  | cons c text => rw [reach, reach, h]

/-- Behind a clear text reading goes on. -/
theorem reach_append {before : Option Char} {quote : Quote.State} {front : Text}
    (h : Clear before quote front) (back : Text) :
    reach before quote (front ++ back) =
      front ++ reach (lastOr before front) (Quote.run quote front) back := by
  induction front generalizing before quote with
  | nil => rfl
  | cons c front ih =>
    unfold Clear at h
    rw [reach] at h
    rw [List.cons_append, reach]
    split at h
    · simp at h
    · rename_i hgo
      rw [if_neg hgo, ih (List.cons.inj h).2, lastOr_cons]
      rfl

/-- Where reading halts depends on the first character only. -/
theorem reach_eq_nil_of_head? {before : Option Char} {quote : Quote.State} {text text' : Text}
    (h : reach before quote text = []) (hhead : text'.head? = text.head?) :
    reach before quote text' = [] := by
  cases text with
  | nil =>
    rw [List.head?_nil, List.head?_eq_none_iff] at hhead
    rw [hhead]
    rfl
  | cons c text =>
    obtain ⟨text', rfl⟩ := List.head?_eq_some_iff.1 hhead
    rw [reach] at h ⊢
    split at h
    · rename_i hstop
      rw [if_pos hstop]
    · simp at h

/-- Where reading halts, it halts outside quotes or at the end. -/
theorem reach_none_eq_nil {before : Option Char} {quote : Quote.State} {text : Text}
    (h : reach before quote text = []) : reach before none text = [] := by
  cases text with
  | nil => rfl
  | cons c text =>
    rw [reach] at h ⊢
    split at h
    · rename_i hstop
      rw [Bool.and_eq_true] at hstop
      rw [if_pos (by simpa using hstop.2)]
    · simp at h

theorem clear_append_iff {before : Option Char} {quote : Quote.State} {front back : Text} :
    Clear before quote (front ++ back) ↔
      Clear before quote front ∧ Clear (lastOr before front) (Quote.run quote front) back := by
  constructor
  · intro h
    have hfront : Clear before quote front := by
      induction front generalizing before quote with
      | nil => rfl
      | cons c front ih =>
        unfold Clear at h ⊢
        rw [List.cons_append, reach] at h
        rw [reach]
        split at h
        · simp at h
        · rename_i hgo
          rw [if_neg hgo, ih (List.cons.inj h).2]
    refine ⟨hfront, ?_⟩
    unfold Clear at h
    rw [reach_append hfront] at h
    exact List.append_cancel_left h
  · rintro ⟨hfront, hback⟩
    unfold Clear
    rw [reach_append hfront, hback]

/-- What is read is clear, and reading halts behind it. -/
theorem exists_reach_append (before : Option Char) (quote : Quote.State) (text : Text) :
    ∃ stop, text = reach before quote text ++ stop ∧ Clear before quote (reach before quote text) ∧
      reach (lastOr before (reach before quote text)) (Quote.run quote (reach before quote text)) stop
        = [] := by
  induction text generalizing before quote with
  | nil => exact ⟨[], rfl, rfl, rfl⟩
  | cons c text ih =>
    by_cases hstop : (quote.isNone && (isOperator c || (c == '#' && commentMayFollow before))) = true
    · have hnil : reach before quote (c :: text) = [] := by rw [reach, if_pos hstop]
      rw [hnil]
      exact ⟨c :: text, rfl, rfl, hnil⟩
    · have hcons : reach before quote (c :: text) =
          c :: reach (some c) (Quote.step quote c) text := by rw [reach, if_neg hstop]
      obtain ⟨stop, htext, hclear, hhalt⟩ := ih (some c) (Quote.step quote c)
      rw [hcons]
      refine ⟨stop, by rw [List.cons_append, ← htext], ?_, ?_⟩
      · unfold Clear at hclear ⊢
        rw [reach, if_neg hstop, hclear]
      · rw [lastOr_cons]
        exact hhalt

/-- A character that reading passes in any state. -/
def isPassed (c : Char) : Bool :=
  !isOperator c && c != '#'

theorem clear_of_isPassed {text : Text} (h : ∀ c ∈ text, isPassed c = true) (before : Option Char)
    (quote : Quote.State) : Clear before quote text := by
  induction text generalizing before quote with
  | nil => rfl
  | cons c text ih =>
    have hc := h c (by simp)
    simp only [isPassed, Bool.and_eq_true, Bool.not_eq_eq_eq_not, Bool.not_true, bne_iff_ne, ne_eq] at hc
    unfold Clear
    rw [reach, if_neg (by simp [hc.1, hc.2]), ih (fun d hd => h d (by simp [hd]))]

theorem isPassed_of_isAsciiBlank {c : Char} (h : isAsciiBlank c = true) : isPassed c = true := by
  simp only [isAsciiBlank, Bool.or_eq_true, beq_iff_eq] at h
  rcases h with (((rfl | rfl) | rfl) | rfl) | rfl <;> decide

/-- **The body of a call from the inside**: it is clear and ends in no ASCII blank, and behind it come
ASCII blanks and something at which reading halts. -/
theorem exists_body_append (before : Option Char) (text : Text) :
    ∃ blanks stop, text = body before text ++ (blanks ++ stop) ∧
      Clear before none (body before text) ∧
      (∀ c ∈ (body before text).getLast?, isAsciiBlank c = false) ∧
      (∀ c ∈ blanks, isAsciiBlank c = true) ∧
      reach (lastOr before (body before text ++ blanks))
        (Quote.run none (body before text ++ blanks)) stop = [] := by
  obtain ⟨stop, htext, hclear, hhalt⟩ := exists_reach_append before none text
  obtain ⟨blanks, hreach, hblanks, hlast⟩ :=
    Text.exists_dropTail_append isAsciiBlank (reach before none text)
  rw [hreach] at hclear hhalt
  refine ⟨blanks, stop, ?_, (clear_append_iff.1 hclear).1, hlast, hblanks, hhalt⟩
  unfold body
  rw [← List.append_assoc, ← hreach]
  exact htext

/-- **The body of a call from the outside.** -/
theorem body_append {before : Option Char} {called blanks stop : Text} (hclear : Clear before none called)
    (hlast : ∀ c ∈ called.getLast?, isAsciiBlank c = false)
    (hblanks : ∀ c ∈ blanks, isAsciiBlank c = true)
    (hhalt : reach (lastOr before (called ++ blanks)) (Quote.run none (called ++ blanks)) stop = []) :
    body before (called ++ (blanks ++ stop)) = called := by
  have hclear' : Clear before none (called ++ blanks) :=
    clear_append_iff.2 ⟨hclear, clear_of_isPassed
      (fun c hc => isPassed_of_isAsciiBlank (hblanks c hc)) _ _⟩
  unfold body
  rw [← List.append_assoc, reach_append hclear', hhalt, List.append_nil]
  exact Text.dropTail_append hblanks hlast

end Call
end ScriptUpgrade
