/-
# Where the calls of a line stand

`Call.all` reads a line from left to right with the quote that is open, and the body of a call is read by
a second scanner with a quote state of its own, from which the first one takes over where the body was
trimmed. What it finds can be said without either of them, from the quoted spans of the whole line:

| | |
| --- | --- |
| `KeywordAt` | the keyword stands there as a word of a command |
| `CommentAt` | a `#` outside quotes starts a comment there |
| `StopAt` | an operator outside quotes, a comment or the end of the line is there |
| `PlaceAt` | the keyword stands there outside quotes and in front of every comment |
| `IsCall` | a stretch from a keyword up to the next stop, without the blanks at its end |

A call starts exactly at the places that lie in no earlier call (`all_exact`). The proof follows the
scanner: `Lists` says of some calls that they are those from a place on, and each step of the scanner
keeps it, be it a character that is passed over (`Lists.skip`) or a call (`Lists.cons`).
-/

import Mathlib.Order.Bounds.Defs
import ScriptUpgrade.Proofs.Idempotence
import ScriptUpgrade.Proofs.Overlay
import ScriptUpgrade.Proofs.QuotedSpans

namespace ScriptUpgrade
namespace Call

open Text (isAsciiBlank)

/-- The characters behind which a command may begin. -/
def starters : List Char :=
  [' ', '\t', ';', '|', '&', '(', '`', '\x7b']

/-- The operators that end a command. -/
def stoppers : List Char :=
  ['|', ';', '&', ')', '`']

/-- The keyword stands at a byte of a line as a word of a command: at the start of the line or behind a
starter, and in front of an ASCII blank or the end of the line. -/
def KeywordAt (keyword line : Text) (position : Nat) : Prop :=
  ∃ front rest, line = front ++ (keyword ++ rest) ∧ Text.size front = position ∧
    (∀ c ∈ front.getLast?, c ∈ starters) ∧ ∀ c ∈ rest.head?, isAsciiBlank c = true

/-- A comment starts at a byte of a line: there is a `#` outside quotes, at the start of the line or behind
an ASCII blank. -/
def CommentAt (line : Text) (position : Nat) : Prop :=
  ∃ front rest, line = front ++ '#' :: rest ∧ Text.size front = position ∧
    (∀ c ∈ front.getLast?, isAsciiBlank c = true) ∧ ¬ Quote.Covers line position

/-- A command ends at a byte of a line: there is an operator outside quotes, or a comment, or the end of
the line. -/
def StopAt (line : Text) (position : Nat) : Prop :=
  position = Text.size line ∨ CommentAt line position ∨
    ∃ front c rest, line = front ++ c :: rest ∧ Text.size front = position ∧ c ∈ stoppers ∧
      ¬ Quote.Covers line position

/-- The keyword stands at a byte outside quotes and in front of every comment. -/
structure PlaceAt (keyword line : Text) (position : Nat) : Prop where
  keyword : KeywordAt keyword line position
  unquoted : ¬ Quote.Covers line position
  uncommented : ∀ earlier < position, ¬ CommentAt line earlier

/-- A stretch of a line starts with the keyword and goes up to the first stop behind it, less the ASCII
blanks at its end. -/
def IsCall (keyword line : Text) (call : Stretch) : Prop :=
  ∃ front inside rest, line = front ++ (keyword ++ (inside ++ rest)) ∧
    IsLeast {position | Text.size (front ++ keyword) ≤ position ∧ StopAt line position}
      (Text.size (front ++ (keyword ++ inside))) ∧
    call = .starting (Text.size front) (Text.dropTail isAsciiBlank (keyword ++ inside))

/-! ### The scanner's tests, at a place -/

theorem mayFollow_iff {before : Option Char} : mayFollow before = true ↔ ∀ c ∈ before, c ∈ starters := by
  cases before with
  | none => simp [mayFollow]
  | some c => simp [mayFollow, starters, or_assoc]

theorem commentMayFollow_iff {before : Option Char} :
    commentMayFollow before = true ↔ ∀ c ∈ before, isAsciiBlank c = true := by
  cases before with
  | none => simp [commentMayFollow]
  | some c => simp [commentMayFollow]

theorem isOperator_iff {c : Char} : isOperator c = true ↔ c ∈ stoppers := by
  simp [isOperator, stoppers, or_assoc]

theorem isMark_eq_false_of_mem_stoppers {c : Char} (h : c ∈ stoppers) : Quote.isMark c = false := by
  have hall : ∀ c ∈ stoppers, Quote.isMark c = false := by decide
  exact hall c h

variable {keyword line front text : Text} {c : Char}

/-- A place of a line, seen from a character of it. -/
theorem boundary_cases (hline : line = front ++ c :: text) {front' rest : Text}
    (hline' : line = front' ++ rest) :
    Text.size front' < Text.size front ∨ front' = front ∨
      Text.size (front ++ [c]) ≤ Text.size front' := by
  have hcut : front ++ c :: text = front' ++ rest := hline.symm.trans hline'
  rcases Nat.lt_trichotomy (Text.size front') (Text.size front) with hlt | heq | hgt
  · exact .inl hlt
  · exact .inr (.inl (Text.front_eq_of_size hcut.symm heq))
  · obtain ⟨more, hne, rfl, hmore⟩ := Text.exists_append_of_size_lt hcut hgt
    obtain ⟨d, more, rfl⟩ := List.exists_cons_of_ne_nil hne
    obtain ⟨rfl, -⟩ := List.cons.inj hmore
    refine .inr (.inr ?_)
    simp only [Text.size_append, Text.size]
    omega

theorem keywordAt_iff (hline : line = front ++ text) :
    KeywordAt keyword line (Text.size front) ↔
      mayFollow front.getLast? = true ∧
        ∃ rest, text = keyword ++ rest ∧ ∀ c ∈ rest.head?, isAsciiBlank c = true := by
  rw [mayFollow_iff]
  constructor
  · rintro ⟨front', rest, hline', hsize, hfront, hrest⟩
    have hcut := hline'.symm.trans hline
    obtain rfl := Text.front_eq_of_size hcut hsize
    exact ⟨hfront, rest, (List.append_cancel_left hcut).symm, hrest⟩
  · rintro ⟨hfront, rest, rfl, hrest⟩
    exact ⟨front, rest, hline, rfl, hfront, hrest⟩

theorem commentAt_iff (hline : line = front ++ c :: text) :
    CommentAt line (Text.size front) ↔
      c = '#' ∧ commentMayFollow front.getLast? = true ∧ Quote.run none front = none := by
  have hcovers := Quote.covers_iff front c text
  rw [← hline] at hcovers
  rw [commentMayFollow_iff]
  constructor
  · rintro ⟨front', rest, hline', hsize, hfront, hunquoted⟩
    have hcut := hline'.symm.trans hline
    obtain rfl := Text.front_eq_of_size hcut hsize
    obtain ⟨rfl, -⟩ := List.cons.inj (List.append_cancel_left hcut)
    rw [hcovers] at hunquoted
    exact ⟨rfl, hfront, by simpa using (not_or.1 hunquoted).1⟩
  · rintro ⟨rfl, hfront, hrun⟩
    refine ⟨front, text, hline, rfl, hfront, ?_⟩
    rw [hcovers, hrun]
    decide

/-- A stop is where reading the body of a call halts. -/
theorem stopAt_iff (hline : line = front ++ text) :
    StopAt line (Text.size front) ↔ reach front.getLast? (Quote.run none front) text = [] := by
  cases text with
  | nil =>
    rw [List.append_nil] at hline
    exact iff_of_true (.inl (by rw [hline])) rfl
  | cons c text =>
    have hend : Text.size front ≠ Text.size line := by
      have := c.utf8Size_pos
      rw [hline, Text.size_append, Text.size]
      omega
    have hcovers := Quote.covers_iff front c text
    rw [← hline] at hcovers
    have hoperator : (∃ front' d rest, line = front' ++ d :: rest ∧ Text.size front' = Text.size front ∧
        d ∈ stoppers ∧ ¬ Quote.Covers line (Text.size front)) ↔
        isOperator c = true ∧ Quote.run none front = none := by
      rw [isOperator_iff]
      constructor
      · rintro ⟨front', d, rest, hline', hsize, hd, hunquoted⟩
        have hcut := hline'.symm.trans hline
        obtain rfl := Text.front_eq_of_size hcut hsize
        obtain ⟨rfl, -⟩ := List.cons.inj (List.append_cancel_left hcut)
        rw [hcovers] at hunquoted
        exact ⟨hd, by simpa using (not_or.1 hunquoted).1⟩
      · rintro ⟨hc, hrun⟩
        refine ⟨front, c, text, hline, rfl, hc, ?_⟩
        rw [hcovers, hrun, isMark_eq_false_of_mem_stoppers hc]
        decide
    rw [StopAt, hoperator, commentAt_iff hline, reach]
    simp only [hend, false_or]
    split
    · rename_i hstop
      simp only [Bool.and_eq_true, Bool.or_eq_true, beq_iff_eq, Option.isNone_iff_eq_none] at hstop
      tauto
    · rename_i hstop
      simp only [Bool.and_eq_true, Bool.or_eq_true, beq_iff_eq, Option.isNone_iff_eq_none] at hstop
      refine iff_of_false ?_ (by simp)
      tauto

/-- A stop is at a character or at the end of the line. -/
theorem StopAt.exists_append {position : Nat} (h : StopAt line position) :
    ∃ front rest, line = front ++ rest ∧ Text.size front = position := by
  rcases h with rfl | ⟨front, rest, hline, hsize, -⟩ | ⟨front, c, rest, hline, hsize, -⟩
  · exact ⟨line, [], by simp, rfl⟩
  · exact ⟨front, _, hline, hsize⟩
  · exact ⟨front, _, hline, hsize⟩

/-- **The body of a call is read up to the first stop behind the keyword.** -/
theorem isLeast_reach (hne : keyword ≠ []) (hrun : Quote.run none (front ++ keyword) = none)
    (hline : line = front ++ (keyword ++ text)) :
    IsLeast {position | Text.size (front ++ keyword) ≤ position ∧ StopAt line position}
      (Text.size (front ++ (keyword ++ reach keyword.getLast? none text))) := by
  obtain ⟨stop, htext, hclear, hhalt⟩ := exists_reach_append keyword.getLast? none text
  generalize reach keyword.getLast? none text = inside at htext hclear hhalt
  have hlast : ∀ read : Text, (front ++ (keyword ++ read)).getLast? = lastOr keyword.getLast? read := by
    intro read
    rw [lastOr, List.getLast?_append, List.getLast?_append, List.getLast?_eq_some_getLast hne]
    cases read.getLast? <;> rfl
  have hquote : ∀ read : Text, Quote.run none (front ++ (keyword ++ read)) = Quote.run none read := by
    intro read
    rw [← List.append_assoc, Quote.run_append, hrun]
  constructor
  · refine ⟨by simp only [Text.size_append]; omega, ?_⟩
    have hcut : line = front ++ (keyword ++ inside) ++ stop := by
      rw [hline, htext]
      simp
    rw [stopAt_iff hcut, hlast, hquote]
    exact hhalt
  · rintro position ⟨hle, hstop⟩
    by_contra hlt
    obtain ⟨front', rest, hline', rfl⟩ := hstop.exists_append
    -- the stop would stand inside what was read
    obtain ⟨read, rfl⟩ : ∃ read, front' = front ++ (keyword ++ read) := by
      have hcut : front ++ keyword ++ text = front' ++ rest := by rw [← hline', hline]; simp
      rcases Nat.eq_or_lt_of_le hle with heq | hlt'
      · exact ⟨[], by rw [← Text.front_eq_of_size hcut heq]; simp⟩
      · obtain ⟨read, -, rfl, -⟩ := Text.exists_append_of_size_lt hcut hlt'
        exact ⟨read, by simp⟩
    obtain ⟨unread, hunread, hinside, hrest⟩ : ∃ unread, unread ≠ [] ∧ inside = read ++ unread ∧
        rest = unread ++ stop := by
      have hcut : front ++ (keyword ++ read) ++ rest = front ++ (keyword ++ inside) ++ stop := by
        rw [← hline', hline, htext]
        simp
      obtain ⟨unread, hunread, heq, hrest⟩ :=
        Text.exists_append_of_size_lt hcut (Nat.lt_of_not_le hlt)
      refine ⟨unread, hunread, ?_, hrest⟩
      simpa using heq
    rw [hinside, clear_append_iff] at hclear
    rw [stopAt_iff hline', hlast, hquote] at hstop
    have hhead : unread.head? = rest.head? := by rw [hrest, List.head?_append_of_ne_nil _ hunread]
    exact hunread (hclear.2.symm.trans (reach_eq_nil_of_head? hstop hhead))

/-! ### The calls from a place on -/

/-- Some calls are those of a line from the place behind `front` on. -/
structure Lists (keyword line front : Text) (calls : List Stretch) : Prop where
  start_le : ∀ call ∈ calls, Text.size front ≤ call.span.start
  pairwise : calls.Pairwise fun left right => left.span.stop ≤ right.span.start
  isCall : ∀ call ∈ calls, IsCall keyword line call
  sound : ∀ call ∈ calls, PlaceAt keyword line call.span.start
  complete : ∀ position, Text.size front ≤ position → PlaceAt keyword line position →
    (∀ call ∈ calls, call.span.start < position → call.span.stop ≤ position) →
    ∃ call ∈ calls, call.span.start = position

variable {calls : List Stretch}

theorem Lists.nil (h : ∀ position, Text.size front ≤ position → ¬ PlaceAt keyword line position) :
    Lists keyword line front [] where
  start_le := by simp
  pairwise := .nil
  isCall := by simp
  sound := by simp
  complete position hle hplace _ := absurd hplace (h position hle)

/-- A character at which no call can start is passed over. -/
theorem Lists.skip (hline : line = front ++ c :: text)
    (hplace : ¬ PlaceAt keyword line (Text.size front))
    (h : Lists keyword line (front ++ [c]) calls) : Lists keyword line front calls where
  start_le call hcall := by
    have := h.start_le call hcall
    rw [Text.size_append] at this
    omega
  pairwise := h.pairwise
  isCall := h.isCall
  sound := h.sound
  complete position hle hat hlater := by
    refine h.complete position ?_ hat hlater
    obtain ⟨front', rest, hline', rfl, -⟩ := hat.keyword
    rcases boundary_cases hline hline' with hlt | rfl | hge
    · omega
    · exact absurd hat hplace
    · exact hge

/-- A call is listed, and what comes behind it. -/
theorem Lists.cons {called : Text} (hplace : PlaceAt keyword line (Text.size front))
    (hcall : IsCall keyword line (.starting (Text.size front) called))
    (h : Lists keyword line (front ++ called) calls) :
    Lists keyword line front (.starting (Text.size front) called :: calls) where
  start_le call hmem := by
    rcases List.mem_cons.1 hmem with rfl | hmem
    · exact Nat.le_refl _
    · have := h.start_le call hmem
      rw [Text.size_append] at this
      omega
  pairwise := by
    refine List.pairwise_cons.2 ⟨fun call hmem => ?_, h.pairwise⟩
    have := h.start_le call hmem
    rwa [Text.size_append] at this
  isCall := List.forall_mem_cons.2 ⟨hcall, h.isCall⟩
  sound := List.forall_mem_cons.2 ⟨hplace, h.sound⟩
  complete position hle hat hlater := by
    rcases Nat.eq_or_lt_of_le hle with rfl | hlt
    · exact ⟨_, List.mem_cons_self, rfl⟩
    · have hstop := hlater _ List.mem_cons_self hlt
      obtain ⟨call, hmem, hstart⟩ := h.complete position (by rw [Text.size_append]; exact hstop) hat
        fun call hmem => hlater call (List.mem_cons_of_mem _ hmem)
      exact ⟨call, List.mem_cons_of_mem _ hmem, hstart⟩

/-- No comment starts in front of a place if none starts at the character in front of it, nor before. -/
theorem uncommented_snoc (hline : line = front ++ c :: text)
    (h : ∀ earlier < Text.size front, ¬ CommentAt line earlier)
    (hc : ¬ CommentAt line (Text.size front)) :
    ∀ earlier < Text.size (front ++ [c]), ¬ CommentAt line earlier := by
  intro earlier hlt hcomment
  obtain ⟨front', rest, hline', rfl, -⟩ := id hcomment
  rcases boundary_cases hline hline' with hbefore | rfl | hge
  · exact h _ hbefore hcomment
  · exact hc hcomment
  · omega

/-- A keyword that can be a word of a command: it is not empty, and no character of it is a quote
character, an ASCII blank or `#`. -/
def IsKeyword (keyword : Text) : Prop :=
  keyword ≠ [] ∧ ∀ c ∈ keyword, Quote.isMark c = false ∧ isAsciiBlank c = false ∧ c ≠ '#'

/-- What has to hold behind `front` for the scanner to go on with a quote state: it is the state of the
line there, or only blanks are left. -/
def Resumes (front : Text) (quote : Quote.State) (text : Text) : Prop :=
  quote = Quote.run none front ∨ ∀ c ∈ text, isAsciiBlank c = true

theorem Resumes.step {quote : Quote.State} (h : Resumes front quote (c :: text)) :
    Resumes (front ++ [c]) (Quote.step quote c) text := by
  rcases h with rfl | hblank
  · exact .inl (by rw [Quote.run_append]; rfl)
  · exact .inr fun d hd => hblank d (List.mem_cons_of_mem _ hd)

/-- Outside quotes a character that is no quote character changes nothing. -/
theorem Resumes.step_of_not_mark {quote : Quote.State} (h : Resumes front quote (c :: text))
    (hmark : ¬ (quote.isSome || Quote.isMark c) = true) : Resumes (front ++ [c]) none text := by
  have hclosed : quote = none ∧ Quote.isMark c = false := by simpa using hmark
  have hstep := h.step
  rwa [hclosed.1, Quote.step, hclosed.2] at hstep

/-- The scanner has seen that no comment starts at a character. -/
theorem not_commentAt (hline : line = front ++ c :: text) {before : Option Char}
    (hbefore : front.getLast? = before) (h : ¬ (c == '#' && commentMayFollow before) = true) :
    ¬ CommentAt line (Text.size front) := by
  intro hcomment
  obtain ⟨rfl, hfollow, -⟩ := (commentAt_iff hline).1 hcomment
  rw [hbefore] at hfollow
  exact h (by simp [hfollow])

/-- A call starts with the first character of the keyword. -/
theorem eq_of_placeAt {k : Char} {ks : Text} (hline : line = front ++ c :: text)
    (h : PlaceAt (k :: ks) line (Text.size front)) : c = k := by
  obtain ⟨-, rest, htext, -⟩ := (keywordAt_iff hline).1 h.keyword
  exact (List.cons.inj htext).1

/-- Where no quote is open to the scanner none is open in the line, unless only blanks are left. -/
theorem Resumes.run_eq_none {quote : Quote.State} (h : Resumes front quote (c :: text))
    (hquoted : ¬ (quote.isSome || Quote.isMark c) = true) (hc : isAsciiBlank c = false) :
    Quote.run none front = none := by
  obtain ⟨rfl, -⟩ := Quote.eq_none_of_not_quoted hquoted
  rcases h with hrun | hblank
  · exact hrun.symm
  · rw [hblank c List.mem_cons_self] at hc
    cases hc

/-- The scanner has seen that a character is quoted: neither a call nor a comment starts there. -/
theorem not_at_quoted {k : Char} {ks : Text} (hkeyword : IsKeyword (k :: ks)) {quote : Quote.State}
    (hline : line = front ++ c :: text) (hquote : Resumes front quote (c :: text))
    (hquoted : (quote.isSome || Quote.isMark c) = true) :
    ¬ PlaceAt (k :: ks) line (Text.size front) ∧ ¬ CommentAt line (Text.size front) := by
  rcases hquote with rfl | hblank
  · have hcovers : Quote.Covers line (Text.size front) := by
      rw [hline, Quote.covers_iff]
      simpa using hquoted
    refine ⟨fun hplace => hplace.unquoted hcovers, ?_⟩
    rintro ⟨_, _, _, _, _, hunquoted⟩
    exact hunquoted hcovers
  · -- neither the keyword nor a comment begins with a blank
    have hc := hblank c List.mem_cons_self
    refine ⟨fun hplace => ?_, fun hcomment => ?_⟩
    · rw [eq_of_placeAt hline hplace, (hkeyword.2 k List.mem_cons_self).2.1] at hc
      cases hc
    · rw [((commentAt_iff hline).1 hcomment).1] at hc
      exact absurd hc (by decide)

/-- No call starts at the end of a line. -/
theorem not_placeAt_end (hne : keyword ≠ []) {position : Nat} (hle : Text.size line ≤ position) :
    ¬ PlaceAt keyword line position := by
  intro hplace
  obtain ⟨front, rest, hline, rfl, -⟩ := hplace.keyword
  have hpos := Text.size_pos hne
  have hsize : Text.size line = Text.size front + (Text.size keyword + Text.size rest) := by
    rw [hline, Text.size_append, Text.size_append]
  omega

/-- The scanner may go on behind the body of a call as if no quote were open. -/
theorem resumes_body (hrun : Quote.run none (front ++ keyword) = none) (before : Option Char) :
    Resumes (front ++ (keyword ++ body before text)) none (text.drop (body before text).length) := by
  obtain ⟨blanks, stop, htext, -, -, hblanks, hhalt⟩ := exists_body_append before text
  generalize body before text = called at htext hhalt
  have hdrop : text.drop called.length = blanks ++ stop := by
    rw [htext, List.drop_left]
  have hquote : Quote.run none (front ++ (keyword ++ called)) = Quote.run none called := by
    rw [← List.append_assoc, Quote.run_append, hrun]
  rw [Resumes, hdrop, hquote]
  cases stop with
  | nil => exact .inr (by simpa using hblanks)
  | cons d stop =>
    -- reading halts at a character only outside quotes
    have hclosed : Quote.run none (called ++ blanks) = none := by
      rw [reach] at hhalt
      split at hhalt
      · rename_i hstop
        simp only [Bool.and_eq_true, Option.isNone_iff_eq_none] at hstop
        exact hstop.1
      · cases hhalt
    rw [Quote.run_append, Quote.run_eq_self (Quote.isOpen_run Quote.isOpen_none called)
      fun c hc => isMark_eq_false_of_isAsciiBlank (hblanks c hc)] at hclosed
    exact .inl hclosed.symm

/-- **What is read behind a keyword makes a call.** -/
theorem isCall_body (hkeyword : IsKeyword keyword) (hrun : Quote.run none (front ++ keyword) = none)
    (hline : line = front ++ (keyword ++ text)) :
    IsCall keyword line (.starting (Text.size front) (keyword ++ body keyword.getLast? text)) := by
  obtain ⟨rest, htext, -⟩ := exists_reach_append keyword.getLast? none text
  refine ⟨front, reach keyword.getLast? none text, rest, ?_, isLeast_reach hkeyword.1 hrun hline, ?_⟩
  · rw [← htext]
    exact hline
  · obtain ⟨blanks, hreach, hblanks, hlast⟩ :=
      Text.exists_dropTail_append isAsciiBlank (reach keyword.getLast? none text)
    have hend : ∀ c ∈ (keyword ++ body keyword.getLast? text).getLast?, isAsciiBlank c = false := by
      intro c hc
      rw [List.getLast?_append, Option.mem_def, Option.or_eq_some_iff] at hc
      rcases hc with hc | ⟨-, hc⟩
      · exact hlast c hc
      · exact (hkeyword.2 c (List.mem_of_getLast? hc)).2.1
    rw [hreach, ← List.append_assoc]
    exact congrArg (Stretch.starting _) (Text.dropTail_append hblanks hend).symm

/-- No comment starts inside a call. -/
theorem uncommented_body (hkeyword : IsKeyword keyword)
    (hrun : Quote.run none (front ++ keyword) = none) (hline : line = front ++ (keyword ++ text))
    (h : ∀ earlier < Text.size front, ¬ CommentAt line earlier) :
    ∀ earlier < Text.size (front ++ (keyword ++ body keyword.getLast? text)),
      ¬ CommentAt line earlier := by
  intro earlier hlt hcomment
  have hread : Text.size (body keyword.getLast? text) ≤
      Text.size (reach keyword.getLast? none text) := by
    obtain ⟨blanks, hreach, -⟩ :=
      Text.exists_dropTail_append isAsciiBlank (reach keyword.getLast? none text)
    rw [hreach, Text.size_append]
    exact Nat.le_add_right _ _
  have hleast := isLeast_reach hkeyword.1 hrun hline
  rcases Nat.lt_or_ge earlier (Text.size front) with hbefore | hge
  · exact h earlier hbefore hcomment
  rcases Nat.lt_or_ge earlier (Text.size (front ++ keyword)) with hinside | hbehind
  · -- a `#` would stand in the keyword
    obtain ⟨front', rest, hline', rfl, -⟩ := hcomment
    obtain ⟨lead, rfl⟩ : ∃ lead, front' = front ++ lead := by
      rcases Nat.eq_or_lt_of_le hge with heq | hgt
      · exact ⟨[], by rw [← Text.front_eq_of_size (hline.symm.trans hline') heq, List.append_nil]⟩
      · obtain ⟨lead, -, rfl, -⟩ := Text.exists_append_of_size_lt (hline.symm.trans hline') hgt
        exact ⟨lead, rfl⟩
    have hcut : front ++ lead ++ '#' :: rest = front ++ keyword ++ text := by
      rw [← hline', hline, List.append_assoc]
    obtain ⟨more, hne, hkey, hrest⟩ := Text.exists_append_of_size_lt hcut hinside
    obtain ⟨d, more, rfl⟩ := List.exists_cons_of_ne_nil hne
    obtain ⟨rfl, -⟩ := List.cons.inj hrest
    have hmem : '#' ∈ keyword := by
      rw [List.append_assoc, List.append_cancel_left_eq] at hkey
      rw [hkey]
      simp
    exact (hkeyword.2 _ hmem).2.2 rfl
  · have hstop := hleast.2 ⟨hbehind, .inr (.inl hcomment)⟩
    simp only [Text.size_append] at hlt hstop
    omega

/-- **The scanner lists the calls from where it is on.** -/
theorem lists_scan {k : Char} {ks : Text} (hkeyword : IsKeyword (k :: ks)) {quote : Quote.State}
    (hline : line = front ++ text) (hquote : Resumes front quote text)
    (hcomment : ∀ earlier < Text.size front, ¬ CommentAt line earlier) :
    Lists (k :: ks) line front
      (locate (k :: ks) (Text.size front) (scan k ks front.getLast? quote text)) := by
  have hk := hkeyword.2 k List.mem_cons_self
  have hsnoc : ∀ (front : Text) (c : Char), Text.size front + c.utf8Size = Text.size (front ++ [c]) :=
    fun front c => by simp [Text.size_append, Text.size]
  generalize hbefore : front.getLast? = before
  fun_induction scan k ks before quote text generalizing front with
  | case1 before quote =>
    rw [List.append_nil] at hline
    exact .nil fun position hle => not_placeAt_end hkeyword.1 (by rwa [hline])
  | case2 before quote c text hquoted ih =>
    obtain ⟨hplace, hnone⟩ := not_at_quoted hkeyword hline hquote hquoted
    rw [locate, hsnoc]
    exact .skip hline hplace (ih (by rw [hline]; simp) hquote.step
      (uncommented_snoc hline hcomment hnone) (by simp))
  | case3 before quote c text hquoted hstart =>
    rw [(Migration.locate_eq_nil_iff _ _ _).2 (by simp)]
    obtain ⟨rfl, hfollow⟩ : c = '#' ∧ commentMayFollow before = true := by simpa using hstart
    have hcomment' : CommentAt line (Text.size front) :=
      (commentAt_iff hline).2 ⟨rfl, by rwa [hbefore], hquote.run_eq_none hquoted (by decide)⟩
    refine .nil fun position hle hplace => ?_
    rcases Nat.eq_or_lt_of_le hle with rfl | hlt
    · exact hk.2.2 (eq_of_placeAt hline hplace).symm
    · exact hplace.uncommented _ hlt hcomment'
  | case4 before quote c text hquoted hstart hfollow rest hrest called =>
    rename_i ih
    obtain ⟨hmay, rfl⟩ : mayFollow before = true ∧ c = k := by simpa using hfollow
    obtain ⟨rfl, hblank⟩ := afterKeyword?_eq_some_iff.1 hrest
    have hclosed := hquote.run_eq_none hquoted hk.2.1
    have hrun : Quote.run none (front ++ (c :: ks)) = none := by
      rw [Quote.run_append, hclosed]
      exact Quote.run_eq_self Quote.isOpen_none fun d hd => (hkeyword.2 d hd).1
    have hplace : PlaceAt (c :: ks) line (Text.size front) := by
      refine ⟨(keywordAt_iff hline).2 ⟨by rwa [hbefore], rest, rfl, hblank⟩, ?_, hcomment⟩
      rw [hline, Quote.covers_iff, hclosed, hk.1]
      decide
    have hsplit : called ++ rest.drop called.length = rest := by
      obtain ⟨tail, htail⟩ := body_isPrefix (c :: ks).getLast? rest
      rw [← htail]
      simp [called]
    refine .cons hplace (isCall_body hkeyword hrun hline) ?_
    rw [← Text.size_append]
    refine ih ?_ (resumes_body hrun _) (uncommented_body hkeyword hrun hline hcomment) ?_
    · rw [hline, List.append_assoc, List.append_assoc, hsplit]
      rfl
    · exact List.getLast?_append_of_ne_nil _ (by simp)
  | case5 before quote c text hquoted hstart hfollow hnone ih =>
    have hplace : ¬ PlaceAt (k :: ks) line (Text.size front) := by
      intro hplace
      obtain ⟨-, rest, htext, hblank⟩ := (keywordAt_iff hline).1 hplace.keyword
      rw [afterKeyword?_eq_some_iff.2 ⟨(List.cons.inj htext).2, hblank⟩] at hnone
      cases hnone
    rw [locate, hsnoc]
    exact .skip hline hplace (ih (by rw [hline]; simp) (hquote.step_of_not_mark hquoted)
      (uncommented_snoc hline hcomment (not_commentAt hline hbefore hstart)) (by simp))
  | case6 before quote c text hquoted hstart hfollow ih =>
    have hplace : ¬ PlaceAt (k :: ks) line (Text.size front) := by
      intro hplace
      have hmay := ((keywordAt_iff hline).1 hplace.keyword).1
      rw [hbefore] at hmay
      exact hfollow (by simp [hmay, eq_of_placeAt hline hplace])
    rw [locate, hsnoc]
    exact .skip hline hplace (ih (by rw [hline]; simp) (hquote.step_of_not_mark hquoted)
      (uncommented_snoc hline hcomment (not_commentAt hline hbefore hstart)) (by simp))

/-! ### The calls of a line -/

theorem lists_all (hkeyword : IsKeyword keyword) (hcomment : isComment line = false) :
    Lists keyword line [] (all keyword line) := by
  obtain ⟨k, ks, rfl⟩ := List.exists_cons_of_ne_nil hkeyword.1
  rw [all, dissect_cons hcomment]
  have hline : line = [] ++ line := rfl
  exact lists_scan hkeyword hline (.inl rfl) fun earlier hlt => absurd hlt (Nat.not_lt_zero _)

theorem all_of_isComment (keyword : Text) (h : isComment line = true) : all keyword line = [] := by
  rw [all, dissect_of_isComment h, Migration.locate_eq_nil_iff]
  simp

/-- A call is not empty, and starts and ends between two characters. -/
theorem IsCall.bounds (hkeyword : IsKeyword keyword) {call : Stretch} (h : IsCall keyword line call) :
    call.span.start < call.span.stop ∧ line.IsBoundary call.span.start ∧
      line.IsBoundary call.span.stop := by
  obtain ⟨front, inside, rest, hline, -, rfl⟩ := h
  obtain ⟨blanks, hinside, hblanks, -⟩ := Text.exists_dropTail_append isAsciiBlank (keyword ++ inside)
  have hcalled : Text.dropTail isAsciiBlank (keyword ++ inside) ≠ [] := by
    intro hnil
    rw [hnil, List.nil_append] at hinside
    obtain ⟨c, hc⟩ := List.exists_mem_of_ne_nil _ hkeyword.1
    have hblank := hblanks c (by rw [← hinside]; exact List.mem_append_left _ hc)
    rw [(hkeyword.2 c hc).2.1] at hblank
    cases hblank
  refine ⟨Nat.lt_add_of_pos_right (Text.size_pos hcalled), ⟨front, _, hline, rfl⟩,
    front ++ Text.dropTail isAsciiBlank (keyword ++ inside), blanks ++ rest, ?_, Text.size_append _ _⟩
  rw [hline, ← List.append_assoc keyword, List.append_assoc front, ← List.append_assoc _ blanks,
    ← hinside]

/-- An earlier call ends before a call starts. -/
theorem Lists.stop_le (hkeyword : IsKeyword keyword) (h : Lists keyword line front calls)
    {earlier call : Stretch} (hearlier : earlier ∈ calls) (hcall : call ∈ calls)
    (hlt : earlier.span.start < call.span.start) : earlier.span.stop ≤ call.span.start := by
  have hapart : calls.Pairwise fun left right => left.span.Apart right.span := h.pairwise.imp .inl
  have : Std.Symm fun left right : Stretch => left.span.Apart right.span := ⟨fun _ _ => Or.symm⟩
  have hne : earlier ≠ call := by
    rintro rfl
    exact Nat.lt_irrefl _ hlt
  have hbounds := (h.isCall call hcall).bounds hkeyword
  rcases hapart.forall hearlier hcall hne with hstop | hstop
  · exact hstop
  · omega

/-- **The calls of a line stand exactly where they should.** They come in order, none reaches into
another, and they start and end between characters; each goes from its keyword up to the first operator or
comment outside quotes or the end of the line, less the blanks there. A line that begins with `#` has none. In
any other line a call starts exactly where the keyword stands as a word of a command outside quotes, no
comment comes earlier, and no earlier call is still going on. -/
theorem all_exact (hkeyword : IsKeyword keyword) (line : Text) :
    let calls := all keyword line
    (calls.Pairwise fun left right => left.span.stop ≤ right.span.start) ∧
    (∀ call ∈ calls, IsCall keyword line call ∧ call.span.start < call.span.stop ∧
      line.IsBoundary call.span.start ∧ line.IsBoundary call.span.stop) ∧
    ((Text.trimStart line).head? = some '#' → calls = []) ∧
    ((Text.trimStart line).head? ≠ some '#' → ∀ position,
      (∃ call ∈ calls, call.span.start = position) ↔
        PlaceAt keyword line position ∧
          ∀ call ∈ calls, ¬ (call.span.start < position ∧ position < call.span.stop)) := by
  intro calls
  cases hcomment : isComment line with
  | true =>
    have hnone : calls = [] := all_of_isComment keyword hcomment
    rw [hnone]
    refine ⟨.nil, by simp, fun _ => rfl, fun hno => absurd ?_ hno⟩
    simpa [isComment] using hcomment
  | false =>
    have hlists : Lists keyword line [] calls := lists_all hkeyword hcomment
    have hno : (Text.trimStart line).head? ≠ some '#' := by simpa [isComment] using hcomment
    refine ⟨hlists.pairwise, fun call hcall => ⟨hlists.isCall call hcall,
      (hlists.isCall call hcall).bounds hkeyword⟩, fun hyes => absurd hyes hno, fun _ position => ?_⟩
    constructor
    · rintro ⟨call, hcall, rfl⟩
      refine ⟨hlists.sound call hcall, fun earlier hearlier => ?_⟩
      rintro ⟨hlt, hinside⟩
      exact absurd (hlists.stop_le hkeyword hearlier hcall hlt) (Nat.not_le_of_lt hinside)
    · rintro ⟨hplace, houtside⟩
      refine hlists.complete position (Nat.zero_le _) hplace fun call hcall hlt => ?_
      exact Nat.le_of_not_lt fun hinside => houtside call hcall ⟨hlt, hinside⟩

/-- A line with the keyword in quotes, twice as a command, and in a comment. -/
def mixedLine : Text :=
  "é 'usacloud x' |usacloud b 'p;q'  ;(usacloud c # usacloud d".toList

theorem all_exact_mixed_line :
    IsKeyword "usacloud".toList ∧ (Text.trimStart mixedLine).head? ≠ some '#' ∧
    IsCall "usacloud".toList mixedLine (.starting 17 "usacloud b 'p;q'".toList) ∧
    PlaceAt "usacloud".toList mixedLine 17 ∧ PlaceAt "usacloud".toList mixedLine 37 ∧
    ¬ PlaceAt "usacloud".toList mixedLine 4 := by
  have hkeyword : IsKeyword "usacloud".toList := by
    unfold IsKeyword
    decide
  have hline : (Text.trimStart mixedLine).head? ≠ some '#' := by decide +kernel
  have hcalls : all "usacloud".toList mixedLine =
      [.starting 17 "usacloud b 'p;q'".toList, .starting 37 "usacloud c".toList] := by
    decide +kernel
  obtain ⟨-, hcall, -, hplaces⟩ := all_exact hkeyword mixedLine
  rw [hcalls] at hcall hplaces
  have hplace := hplaces hline
  refine ⟨hkeyword, hline, (hcall _ List.mem_cons_self).1, ((hplace 17).1 ⟨_, List.mem_cons_self, rfl⟩).1,
    ((hplace 37).1 ⟨_, List.mem_cons_of_mem _ List.mem_cons_self, rfl⟩).1, fun hquoted => ?_⟩
  -- no call starts at the quoted keyword, and none reaches over it
  obtain ⟨call, hmem, hstart⟩ := (hplace 4).2 ⟨hquoted, by decide +kernel⟩
  revert hstart
  revert call
  decide +kernel

end Call
end ScriptUpgrade
