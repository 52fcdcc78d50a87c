/-
# What selectors leave

A selector becomes its value, and the value keeps much of it: it has the same last character, it
leaves no quote open, and what ended no call before ends none now. There is one exception. A value that
starts with `#` stood to the right of `=`, of a label or of a quote, and now it stands to the right of a blank,
where `#` starts a comment: the value is *exposed*, and the call ends before it.

| values of a body | the body that is read again |
| --- | --- |
| none exposed | as it was rewritten (`keeps_selector`) |
| a first exposed one | what was rewritten before that value, without blanks at its end (`body_exposed`) |

Without line breaks in the body the rules cut between what selectors left (`isAligned_selector`).
-/

import Mathlib.Data.List.Induction
import ScriptUpgrade.Proofs.RewrittenLine
import ScriptUpgrade.Proofs.Standing

namespace ScriptUpgrade
namespace Call

/-- Where no `#` comes first it does not matter what stands before. -/
theorem Clear.of_head?_ne {before before' : Option Char} {quote : Quote.State} {text : Text}
    (h : Clear before quote text) (hhead : text.head? ≠ some '#') : Clear before' quote text := by
  cases text with
  | nil => rfl
  | cons c text =>
    have hc : (c == '#') = false := by simpa using hhead
    unfold Clear at h ⊢
    rw [reach, hc, Bool.false_and, Bool.or_false] at h ⊢
    exact h

/-- While a quote is open nothing ends a call, and its end does not either. -/
theorem clear_open {before : Option Char} {mark : Char} {inside : Text} (hinside : mark ∉ inside) :
    Clear before (some mark) (inside ++ [mark]) := by
  induction inside generalizing before with
  | nil => rfl
  | cons c inside ih =>
    rw [List.mem_cons, not_or] at hinside
    have hstep : Quote.step (some mark) c = some mark := by
      simp [Quote.step, Ne.symm hinside.1]
    unfold Clear at ih ⊢
    rw [List.cons_append, reach, hstep, ih hinside.2]
    rfl

/-- Nothing inside quotes ends a call. -/
theorem clear_quoted {before : Option Char} {mark : Char} {inside : Text} (hmark : Quote.isMark mark = true)
    (hinside : mark ∉ inside) : Clear before none (mark :: inside ++ [mark]) := by
  have hpassed : isOperator mark = false ∧ (mark == '#') = false := by
    simp only [Quote.isMark, Bool.or_eq_true, beq_iff_eq] at hmark
    rcases hmark with rfl | rfl <;> decide
  have hstep : Quote.step none mark = some mark := by simp [Quote.step, hmark]
  have hopen : reach (some mark) (some mark) (inside ++ [mark]) = inside ++ [mark] := clear_open hinside
  unfold Clear
  rw [List.cons_append, reach, hpassed.1, hpassed.2, hstep, hopen]
  rfl

/-- An option is not the first thing in a call body. -/
theorem IsBody.head?_ne_dash {last : Option Char} {body : Text} (h : IsBody last body) :
    body.head? ≠ some '-' := by
  intro hhead
  exact absurd (h.head '-' hhead) (by decide)

end Call

namespace Migration

open Fragment Call
open Text (isGap isAsciiBlank)

/-- What a selector and the value that it becomes have in common. -/
structure Selects (old new : Text) : Prop where
  dash : old.head? = some '-'
  ne_nil : new ≠ []
  last : new.getLast? = old.getLast?
  subset : ∀ c ∈ new, c ∈ old
  closed : Quote.run none old = none ∧ Quote.run none new = none
  shape : (∀ c ∈ new, isBare c = true) ∨
    ∃ mark inside, Quote.isMark mark = true ∧ mark ∉ inside ∧ new = mark :: inside ++ [mark]
  clear : ∀ before before', Clear before none old → new.head? ≠ some '#' → Clear before' none new

theorem DropsLabel.suffix {text rest : Text} (h : DropsLabel text rest) : ∃ label, text = label ++ rest := by
  rcases h with rfl | ⟨label, -, rfl⟩
  · exact ⟨[], rfl⟩
  · exact ⟨label, rfl⟩

theorem isMark_eq_false_of_isSelectorChar {c : Char} (h : isSelectorChar c = true) :
    Quote.isMark c = false := by
  by_contra hmark
  simp only [Quote.isMark, Bool.not_eq_false, Bool.or_eq_true, beq_iff_eq] at hmark
  rcases hmark with rfl | rfl <;> exact absurd h (by decide)

/-- A selector has no quote character in front of its value. -/
theorem isMark_eq_false_of_selector {lead : Text} (hlead : ∀ c ∈ lead, isSelectorChar c = true) :
    ∀ c ∈ "--selector".toList ++ lead, Quote.isMark c = false := by
  intro c hc
  refine isMark_eq_false_of_isSelectorChar ?_
  rcases List.mem_append.1 hc with hc | hc
  · exact (by decide : ∀ c ∈ "--selector".toList, isSelectorChar c = true) c hc
  · exact hlead c hc

theorem isMark_eq_false_of_isBare {c : Char} (h : isBare c = true) : Quote.isMark c = false := by
  simp only [isBare, Bool.and_eq_true, bne_iff_ne] at h
  simp [Quote.isMark, h.1.2, h.2]

/-- **A selector that is taken becomes its value.** -/
theorem Taken.selects {front old new rest : Text} (h : Taken selector? front old new rest) :
    Selects old new := by
  obtain ⟨lead, taken, value, rest', hlead, hvalue, -, hhit⟩ := selector?_shape h.hit
  simp only [Hit.mk.injEq, Option.some.injEq] at hhit
  obtain ⟨rfl, rfl⟩ := hhit
  have hrun : Quote.run none ("--selector".toList ++ lead) = none :=
    Quote.run_eq_self Quote.isOpen_none (isMark_eq_false_of_selector hlead)
  have hdash : ("--selector".toList ++ lead ++ taken).head? = some '-' := rfl
  cases hvalue with
  | @quoted mark inside kept rest hmark hinside hkept =>
    obtain ⟨label, rfl⟩ := hkept.suffix
    have hkept : mark ∉ kept := fun hmem => hinside (List.mem_append_right _ hmem)
    exact {
      dash := hdash
      ne_nil := by simp
      last := by
        rw [List.getLast?_concat, ← List.append_assoc, List.getLast?_concat]
      subset := by
        intro c hc
        simp only [List.cons_append, List.mem_cons, List.mem_append, List.not_mem_nil, or_false] at hc ⊢
        tauto
      closed := by
        rw [Quote.run_append, hrun]
        exact ⟨Quote.run_closed hmark hinside, Quote.run_closed hmark hkept⟩
      shape := Or.inr ⟨mark, kept, hmark, hkept, rfl⟩
      clear := fun _ _ _ _ => clear_quoted hmark hkept }
  | bare htaken hrest hvalue hkept =>
    obtain ⟨label, rfl⟩ := hkept.suffix
    have hne : new ≠ [] := by
      rintro rfl
      simp [isBareValue] at hvalue
    have hbare : ∀ c ∈ new, isBare c = true := fun c hc => htaken c (List.mem_append_right _ hc)
    have hnoMark : ∀ text : Text, (∀ c ∈ text, isBare c = true) → Quote.run none text = none :=
      fun text htext => Quote.run_eq_self Quote.isOpen_none fun c hc =>
        isMark_eq_false_of_isBare (htext c hc)
    exact {
      dash := hdash
      ne_nil := hne
      last := by rw [← List.append_assoc, List.getLast?_append_of_ne_nil _ hne]
      subset := fun c hc => by simp [hc]
      closed := by
        rw [Quote.run_append, hrun]
        exact ⟨hnoMark _ htaken, hnoMark _ hbare⟩
      shape := Or.inl hbare
      clear := by
        intro before before' hclear hhead
        rw [← List.append_assoc, clear_append_iff, Quote.run_append, hrun,
          hnoMark label fun c hc => htaken c (List.mem_append_left _ hc)] at hclear
        exact hclear.2.of_head?_ne hhead }

/-! ### The body after the selector rule -/

/-- Fragments to the right of `front` that replace selectors outside quotes by their values. -/
def IsSelection (front : Text) (fragments : List Fragment) : Prop :=
  Each (fun front old new _ => Quote.run none front = none ∧ Selects old new) front fragments

/-- Whether a value starts with `#`. -/
def Exposes (fragments : List Fragment) : Prop :=
  ∃ old new, .replaced old new ∈ fragments ∧ new.head? = some '#'

theorem isSelection_fragments (body : Text) : IsSelection [] (selectorRule.fragments body) :=
  (each_taken anchored_selector? body).mono fun _ _ _ _ h => ⟨h.outside, h.selects⟩

/-- There is a first value that starts with `#`. -/
theorem Exposes.exists_first {fragments : List Fragment} (h : Exposes fragments) :
    ∃ left old value right, fragments = left ++ .replaced old ('#' :: value) :: right ∧
      ¬ Exposes left := by
  induction fragments with
  | nil =>
    obtain ⟨_, _, hmem, _⟩ := h
    exact absurd hmem (by simp)
  | cons fragment fragments ih =>
    by_cases hfirst : ∃ old new, fragment = .replaced old new ∧ new.head? = some '#'
    · obtain ⟨old, new, rfl, hhead⟩ := hfirst
      obtain ⟨value, rfl⟩ : ∃ value, new = '#' :: value := List.head?_eq_some_iff.1 hhead
      refine ⟨[], old, value, fragments, rfl, ?_⟩
      rintro ⟨_, _, hmem, _⟩
      exact absurd hmem (by simp)
    · obtain ⟨old, new, hmem, hhead⟩ := h
      rcases List.mem_cons.1 hmem with rfl | hmem
      · exact absurd ⟨old, new, rfl, hhead⟩ hfirst
      · obtain ⟨left, old, value, right, rfl, hleft⟩ := ih ⟨old, new, hmem, hhead⟩
        refine ⟨fragment :: left, old, value, right, rfl, ?_⟩
        rintro ⟨old', new', hmem', hhead'⟩
        rcases List.mem_cons.1 hmem' with rfl | hmem'
        · exact hfirst ⟨old', new', rfl, hhead'⟩
        · exact hleft ⟨old', new', hmem', hhead'⟩

namespace IsSelection

variable {front : Text} {fragments : List Fragment}

theorem selects (h : IsSelection front fragments) {old new : Text} (hmem : .replaced old new ∈ fragments) :
    Selects old new := by
  obtain ⟨_, _, _, hselects⟩ := Each.of_mem h hmem
  exact hselects

theorem left {left right : List Fragment} (h : IsSelection front (left ++ right)) :
    IsSelection front left :=
  Each.left h

/-- Selectors and their values end with the same character. -/
theorem getLast?_newText (h : IsSelection front fragments) :
    (newText fragments).getLast? = (oldText fragments).getLast? := by
  induction fragments generalizing front with
  | nil => rfl
  | cons fragment fragments ih =>
    cases fragment with
    | kept c =>
      have hih := ih h
      rw [newText_kept, oldText_kept, List.getLast?_cons, List.getLast?_cons, hih]
    | replaced old new =>
      have hih := ih h.2
      rw [newText_replaced, oldText_replaced, List.getLast?_append, List.getLast?_append, hih,
        h.1.2.last]

/-- A text that starts with no selector still starts in the same way. -/
theorem head?_newText (h : IsSelection front fragments) (hhead : (oldText fragments).head? ≠ some '-') :
    (newText fragments).head? = (oldText fragments).head? := by
  cases fragments with
  | nil => rfl
  | cons fragment fragments =>
    cases fragment with
    | kept c => rfl
    | replaced old new =>
      refine absurd ?_ hhead
      rw [oldText_replaced, List.head?_append, h.1.2.dash]
      rfl

/-- Values leave the same quote open as selectors. -/
theorem run_newText (h : IsSelection front fragments) :
    Quote.run (Quote.run none front) (newText fragments) =
      Quote.run (Quote.run none front) (oldText fragments) := by
  induction fragments generalizing front with
  | nil => rfl
  | cons fragment fragments ih =>
    cases fragment with
    | kept c =>
      have hih := ih h
      rw [Quote.run_append] at hih
      exact hih
    | replaced old new =>
      obtain ⟨⟨houtside, hselects⟩, hrest⟩ := h
      have hih := ih hrest
      rw [Quote.run_append, houtside, hselects.closed.1] at hih
      rw [newText_replaced, oldText_replaced, houtside, Quote.run_append, Quote.run_append,
        hselects.closed.1, hselects.closed.2, hih]

/-- **Values that are not exposed end no call.** -/
theorem clear_newText (h : IsSelection front fragments) (hexposes : ¬ Exposes fragments)
    {before before' : Option Char} (hbefore : commentMayFollow before = commentMayFollow before')
    (hclear : Clear before (Quote.run none front) (oldText fragments)) :
    Clear before' (Quote.run none front) (newText fragments) := by
  induction fragments generalizing front before before' with
  | nil => rfl
  | cons fragment fragments ih =>
    have hexposes' : ¬ Exposes fragments := fun ⟨old, new, hmem, hhead⟩ =>
      hexposes ⟨old, new, List.mem_cons_of_mem _ hmem, hhead⟩
    cases fragment with
    | kept c =>
      rw [oldText_kept, ← List.singleton_append, clear_append_iff] at hclear
      rw [newText_kept, ← List.singleton_append, clear_append_iff]
      have hih := ih h hexposes' rfl (by rw [Quote.run_append]; exact hclear.2)
      rw [Quote.run_append] at hih
      refine ⟨?_, hih⟩
      have hfirst := hclear.1
      unfold Clear at hfirst ⊢
      rw [← reach_congr hbefore]
      exact hfirst
    | replaced old new =>
      obtain ⟨⟨houtside, hselects⟩, hrest⟩ := h
      have hhead : new.head? ≠ some '#' := fun hhead => hexposes ⟨old, new, by simp, hhead⟩
      rw [oldText_replaced, clear_append_iff, houtside, hselects.closed.1] at hclear
      rw [newText_replaced, clear_append_iff, houtside, hselects.closed.2]
      refine ⟨hselects.clear _ _ hclear.1 hhead, ?_⟩
      have hrun : Quote.run none (front ++ old) = none := by
        rw [Quote.run_append, houtside, hselects.closed.1]
      have hold : old ≠ [] := by
        rintro rfl
        exact absurd hselects.dash (by simp)
      have hih := ih hrest hexposes' rfl (by rw [hrun]; exact hclear.2)
      rw [hrun] at hih
      rwa [lastOr_of_ne_nil hselects.ne_nil, hselects.last, ← lastOr_of_ne_nil hold]

end IsSelection

/-- **A call body of which no value is exposed is read again as it was rewritten.** -/
theorem keeps_selector {last : Option Char} {body : Text} (hbody : IsBody last body)
    (hexposes : ¬ Exposes (selectorRule.fragments body)) :
    Keeps last body (selectorRule.rewrite body) := by
  have hselection := isSelection_fragments body
  have hold := oldText_ruleFragments selectorRule body
  unfold Rule.rewrite
  generalize selectorRule.fragments body = fragments at hexposes hselection hold
  subst hold
  have hlast := hselection.getLast?_newText
  exact {
    head := hselection.head?_newText hbody.head?_ne_dash
    follow := by rw [hlast]
    comment := by rw [hlast]
    quote := hselection.run_newText
    clear := hselection.clear_newText hexposes rfl hbody.clear }

/-- **A call body ends before the first value that is exposed.** -/
theorem body_exposed {last : Option Char} {left right : List Fragment} {old value : Text}
    (hselection : IsSelection [] (left ++ .replaced old ('#' :: value) :: right))
    (hstarts : tokenMayFollow (oldText left).getLast? = true) (hexposes : ¬ Exposes left)
    (hbody : IsBody last (oldText (left ++ .replaced old ('#' :: value) :: right))) (tail : Text) :
    (∃ c ∈ (newText left).getLast?, isAsciiBlank c = true) ∧
      body last (newText left ++ '#' :: tail) = Text.dropTail isAsciiBlank (newText left) := by
  have hleft := hselection.left
  have hmid : Quote.run none (oldText left) = none := (Each.at_replaced hselection).1
  have hdash : old.head? = some '-' := (Each.at_replaced hselection).2.dash
  have hne : oldText left ≠ [] := by
    intro hnil
    refine hbody.head?_ne_dash ?_
    rw [oldText_append, hnil, oldText_replaced, List.nil_append, List.head?_append, hdash]
    rfl
  have hblank : ∃ c ∈ (newText left).getLast?, isAsciiBlank c = true := by
    rw [hleft.getLast?_newText]
    exact exists_blank_getLast? hne (by rwa [List.nil_append])
  refine ⟨hblank, ?_⟩
  have hclear : Clear last none (newText left) := by
    have hclear := hbody.clear
    rw [oldText_append, clear_append_iff] at hclear
    exact hleft.clear_newText hexposes rfl hclear.1
  have hrun : Quote.run none (newText left) = none := hleft.run_newText.trans hmid
  obtain ⟨blanks, hsplit, hblanks, hlast⟩ := Text.exists_dropTail_append isAsciiBlank (newText left)
  generalize Text.dropTail isAsciiBlank (newText left) = called at hsplit hlast
  rw [hsplit, List.append_assoc]
  rw [hsplit] at hclear hrun hblank
  refine body_append (clear_append_iff.1 hclear).1 hlast hblanks ?_
  obtain ⟨c, hc, hcblank⟩ := hblank
  have hlastOr : lastOr last (called ++ blanks) = some c := by
    unfold lastOr
    rw [Option.mem_def.1 hc]
    rfl
  rw [hrun, hlastOr, reach, commentMayFollow, hcblank]
  rfl

/-! ### Cutting between values -/

theorem tokenMayPrecede_of_append {front back : Text} (h : tokenMayPrecede (front ++ back) = true) :
    tokenMayPrecede front = true := by
  cases front with
  | nil => rfl
  | cons c front => exact h

theorem IsAligned.left {left right : List Fragment} (h : IsAligned (left ++ right)) : IsAligned left where
  solid := (isSolid_append_iff.1 h.solid).1
  standing := by
    intro left' old new right' hsplit
    have hstands := h.standing left' old new (right' ++ right) (by rw [hsplit]; simp)
    rw [newText_append] at hstands
    exact ⟨hstands.starts, tokenMayPrecede_of_append hstands.ends, hstands.written⟩
  smooth := by
    intro c hc
    exact h.smooth c (by rw [newText_append]; exact List.mem_append_left _ hc)

/-- Values have no character that their body has not. -/
theorem mem_of_mem_value {body old new : Text} (hmem : .replaced old new ∈ selectorRule.fragments body)
    {c : Char} (hc : c ∈ new) : c ∈ body := by
  have hold := ((isSelection_fragments body).selects hmem).subset c hc
  rw [← oldText_ruleFragments selectorRule body]
  exact List.mem_flatMap.2 ⟨_, hmem, hold⟩

theorem isSolid_selector (body : Text) : IsSolid (selectorRule.fragments body) := by
  intro old new hmem
  have hselects := (isSelection_fragments body).selects hmem
  refine ⟨?_, hselects.ne_nil⟩
  rintro rfl
  exact absurd hselects.dash (by simp)

/-- **Without line breaks the rules cut between the values of selectors.** -/
theorem isAligned_selector {body : Text} (hsmooth : IsSmooth body) :
    IsAligned (selectorRule.fragments body) where
  solid := isSolid_selector body
  standing := by
    intro left old new right hsplit
    have hselection := isSelection_fragments body
    have heach : Each (Taken selector?) [] (selectorRule.fragments body) :=
      each_taken anchored_selector? body
    have hmem : .replaced old new ∈ selectorRule.fragments body := by
      rw [hsplit]
      simp
    have hselects := hselection.selects hmem
    rw [hsplit] at hselection heach
    have htaken : Taken selector? (oldText left) old new (oldText right) := heach.at_replaced
    refine ⟨?_, ?_, ?_⟩
    · rw [hselection.left.getLast?_newText]
      exact htaken.starts
    · cases right with
      | nil => rfl
      | cons fragment right =>
        cases fragment with
        | kept c => exact htaken.ends
        | replaced old' new' =>
          -- a selector does not follow another one without a blank between them
          have hmem' : .replaced old' new' ∈ left ++ .replaced old new :: .replaced old' new' :: right := by
            simp
          obtain ⟨ms, rfl⟩ := List.head?_eq_some_iff.1 (hselection.selects hmem').dash
          have hends := htaken.ends
          rw [oldText_replaced, List.cons_append, tokenMayPrecede] at hends
          exact absurd hends (by decide)
    · rcases hselects.shape with hbare | ⟨mark, inside, hmark, hinside, rfl⟩
      · refine IsWritten.bare fun c hc => ?_
        by_contra hblank
        have hgap := hsmooth c (mem_of_mem_value hmem hc) (by simpa using hblank)
        have hchar := hbare c hc
        rw [isBare, hgap] at hchar
        exact absurd hchar (by simp)
      · refine IsWritten.quoted hmark hinside ?_
        exact hselection.left.run_newText.trans htaken.outside
  smooth := by
    intro c hc
    rcases mem_newText hc with hc | ⟨old, new, hmem, hc⟩
    · rw [oldText_ruleFragments] at hc
      exact hsmooth c hc
    · exact hsmooth c (mem_of_mem_value hmem hc)

theorem IsWritten.last {front now : Text} (h : IsWritten front now) :
    ∀ c ∈ now.getLast?, isAsciiBlank c = false := by
  intro c hc
  cases h with
  | bare hbare => exact hbare c (List.mem_of_getLast? hc)
  | @quoted mark inside hmark hinside houtside =>
    rw [List.getLast?_concat, Option.mem_some] at hc
    rw [← hc]
    simp only [Quote.isMark, Bool.or_eq_true, beq_iff_eq] at hmark
    rcases hmark with rfl | rfl <;> decide
  | @option flag gaps hflag hgaps =>
    rw [List.getLast?_append_of_ne_nil _ (by simp)] at hc
    have hjson : ∀ c ∈ "json".toList, isAsciiBlank c = false := by decide
    exact hjson c (List.mem_of_getLast? hc)

/-- The blanks at the end of what a history reads now are kept characters. -/
theorem IsAligned.exists_keep_blanks {history : List Fragment} (h : IsAligned history) :
    ∃ left blanks, history = left ++ keep blanks ∧
      newText left = Text.dropTail isAsciiBlank (newText history) := by
  have hsplit : ∃ left blanks, history = left ++ keep blanks ∧
      (∀ c ∈ blanks, isAsciiBlank c = true) ∧ ∀ c ∈ (newText left).getLast?, isAsciiBlank c = false := by
    induction history using List.reverseRecOn with
    | nil => exact ⟨[], [], rfl, by simp, by simp⟩
    | append_singleton history fragment ih =>
      cases fragment with
      | kept c =>
        by_cases hblank : isAsciiBlank c = true
        · obtain ⟨left, blanks, hhistory, hblanks, hlast⟩ := ih h.left
          refine ⟨left, blanks ++ [c], ?_, ?_, hlast⟩
          · rw [hhistory, keep_append, List.append_assoc]
            rfl
          · intro d hd
            rcases List.mem_append.1 hd with hd | hd
            · exact hblanks d hd
            · rwa [List.mem_singleton.1 hd]
        · refine ⟨history ++ [.kept c], [], by simp, by simp, ?_⟩
          intro d hd
          rw [newText_append, newText_kept, newText_nil, List.getLast?_concat, Option.mem_some] at hd
          rw [← hd]
          simpa using hblank
      | replaced old new =>
        refine ⟨history ++ [.replaced old new], [], by simp, by simp, ?_⟩
        have hne := (h.solid old new (by simp)).2
        intro d hd
        rw [newText_append, newText_replaced, newText_nil, List.append_nil,
          List.getLast?_append_of_ne_nil _ hne] at hd
        exact (h.standing history old new [] rfl).written.last d hd
  obtain ⟨left, blanks, rfl, hblanks, hlast⟩ := hsplit
  refine ⟨left, blanks, rfl, ?_⟩
  rw [newText_append, newText_keep, Text.dropTail_append hblanks hlast]

end Migration
end ScriptUpgrade
