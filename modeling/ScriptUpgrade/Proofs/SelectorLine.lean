/-
# A line after the selector rule

After the selector rule a line is cut into calls again. As long as no value is exposed, its calls are those
of before with rewritten bodies. The first call with an exposed value ends before that value, and
the `#` that stands there starts a comment:

| line | `a; tool x --selector=y; tool z --selector=#1; tool w` |
| --- | --- |
| calls | `tool x --selector=y`, `tool z --selector=#1`, `tool w` |
| after the rule | `a; tool x y; tool z #1; tool w` |
| calls | `tool x y`, `tool z` |
-/

import ScriptUpgrade.Proofs.Selection

namespace ScriptUpgrade
namespace Migration

open Fragment Call
open Text (isAsciiBlank)

/-- Whether a call has a value that is exposed. -/
def IsExposing (part : Part) : Prop :=
  ∃ body, part = .call body ∧ Exposes (selectorRule.fragments body)

/-- There is a first call with an exposed value, or none. -/
theorem exists_first_exposing (parts : List Part) :
    (∀ part ∈ parts, ¬ IsExposing part) ∨
      ∃ left body right, parts = left ++ .call body :: right ∧ (∀ part ∈ left, ¬ IsExposing part) ∧
        Exposes (selectorRule.fragments body) := by
  induction parts with
  | nil => exact Or.inl (by simp)
  | cons part parts ih =>
    by_cases hpart : IsExposing part
    · obtain ⟨body, rfl, hbody⟩ := hpart
      exact Or.inr ⟨[], body, parts, rfl, by simp, hbody⟩
    · rcases ih with hnone | ⟨left, body, right, rfl, hleft, hbody⟩
      · exact Or.inl (List.forall_mem_cons.2 ⟨hpart, hnone⟩)
      · exact Or.inr ⟨part :: left, body, right, rfl, List.forall_mem_cons.2 ⟨hpart, hleft⟩, hbody⟩

/-- **A line without exposed values has its calls with rewritten bodies**, unless it has become a
comment. -/
theorem dissect_selector_of_not_exposing {keyword line : Text}
    (h : ∀ part ∈ dissect keyword line, ¬ IsExposing part)
    (hcomment : isComment (passText keyword line selectorRule) = isComment line) :
    dissect keyword (passText keyword line selectorRule) =
      rewrite selectorRule.rewrite (dissect keyword line) := by
  rw [passText_eq] at hcomment ⊢
  refine dissect_rewrite (rewrite_empty selectorRule) (fun body hbody => ?_) hcomment
  exact keeps_selector (isBody_of_mem_dissect hbody) fun hexposes => h _ hbody ⟨body, rfl, hexposes⟩

/-- A rewritten call with an exposed value ends before the blanks in front of that value, whatever
follows. -/
theorem exists_blanks_of_exposing {last : Option Char} {called : Text} (hbody : IsBody last called)
    {kept dropped : List Fragment} {old value : Text}
    (hcalled : selectorRule.fragments called = kept ++ .replaced old ('#' :: value) :: dropped)
    (hkept : ¬ Exposes kept) (tail : Text) :
    ∃ blanks, blanks ≠ [] ∧ (∀ c ∈ blanks, isAsciiBlank c = true) ∧
      newText kept = Text.dropTail isAsciiBlank (newText kept) ++ blanks ∧
      (∀ c ∈ (newText kept ++ '#' :: tail).head?, isAsciiBlank c = true) ∧
      body last (newText kept ++ '#' :: tail) = Text.dropTail isAsciiBlank (newText kept) := by
  have hselection := isSelection_fragments called
  have hold := oldText_ruleFragments selectorRule called
  have hstarts : tokenMayFollow (oldText kept).getLast? = true := by
    have heach : Each (Taken selector?) [] (selectorRule.fragments called) :=
      each_taken anchored_selector? called
    rw [hcalled] at heach
    have htaken : Taken selector? (oldText kept) old ('#' :: value) (oldText dropped) := heach.at_replaced
    exact htaken.starts
  have hhead := hselection.head?_newText (by rw [hold]; exact hbody.head?_ne_dash)
  rw [hcalled] at hselection hold hhead
  rw [← hold] at hbody
  obtain ⟨hblank, hended⟩ := body_exposed hselection hstarts hkept hbody tail
  obtain ⟨blanks, hsplit, hblanks, hlast⟩ := Text.exists_dropTail_append isAsciiBlank (newText kept)
  have hne : blanks ≠ [] := by
    rintro rfl
    obtain ⟨c, hc, hcblank⟩ := hblank
    rw [List.append_nil] at hsplit
    rw [hlast c (hsplit ▸ hc)] at hcblank
    exact absurd hcblank (by simp)
  have hkeptNe : newText kept ≠ [] := by
    rw [hsplit]
    simp [hne]
  refine ⟨blanks, hne, hblanks, hsplit, ?_, hended⟩
  rw [newText_append, List.head?_append_of_ne_nil _ hkeptNe] at hhead
  rw [List.head?_append_of_ne_nil _ hkeptNe, hhead]
  exact hbody.head

/-- **A line with exposed values has the calls before the first one, and a comment starts there.** -/
theorem dissect_selector_of_exposing {k : Char} {ks line : Text} {left right : List Part} {called : Text}
    {kept dropped : List Fragment} {old value : Text}
    (hparts : dissect (k :: ks) line = left ++ .call called :: right)
    (hleft : ∀ part ∈ left, ¬ IsExposing part)
    (hcalled : selectorRule.fragments called = kept ++ .replaced old ('#' :: value) :: dropped)
    (hkept : ¬ Exposes kept) (hcomment : isComment (passText (k :: ks) line selectorRule) = false) :
    ∃ before blanks tail, blanks ≠ [] ∧ (∀ c ∈ blanks, isAsciiBlank c = true) ∧
      newText kept = Text.dropTail isAsciiBlank (newText kept) ++ blanks ∧
      dissect (k :: ks) (passText (k :: ks) line selectorRule) =
        rewrite selectorRule.rewrite left ++ .call (Text.dropTail isAsciiBlank (newText kept)) ::
          scan k ks before none (blanks ++ '#' :: tail) := by
  have hmem : .call called ∈ dissect (k :: ks) line := by
    rw [hparts]
    simp
  have hkeeps : ∀ body, .call body ∈ left →
      Keeps (k :: ks).getLast? body (selectorRule.rewrite body) := by
    intro body hbody
    have hmem' : .call body ∈ dissect (k :: ks) line := by
      rw [hparts]
      exact List.mem_append_left _ hbody
    exact keeps_selector (isBody_of_mem_dissect hmem') fun hexposes => hleft _ hbody ⟨body, rfl, hexposes⟩
  have hscan := (dissect_cons (isComment_eq_false_of_call hmem)).symm.trans hparts
  obtain ⟨before, hmay, hagain⟩ := exists_scan_rewrite (rewrite_empty selectorRule) hscan
    (Or.inr ⟨called, right, rfl⟩) hkeeps
  -- the rewritten call and what stands after it
  let tail := value ++ newText dropped ++ assemble (k :: ks) (rewrite selectorRule.rewrite right)
  have hassemble : assemble (k :: ks) (rewrite selectorRule.rewrite (.call called :: right)) =
      k :: ks ++ (newText kept ++ '#' :: tail) := by
    have hrewritten : selectorRule.rewrite called =
        newText kept ++ '#' :: (value ++ newText dropped) := by
      rw [Rule.rewrite, hcalled, newText_append, newText_replaced, List.cons_append]
    rw [rewrite_call, assemble_cons_call, hrewritten]
    simp [tail]
  obtain ⟨blanks, hne, hblanks, hsplit, hfirst, hended⟩ :=
    exists_blanks_of_exposing (isBody_of_mem_dissect hmem) hcalled hkept tail
  have hdrop : (newText kept ++ '#' :: tail).drop
      (Text.dropTail isAsciiBlank (newText kept)).length = blanks ++ '#' :: tail := by
    generalize Text.dropTail isAsciiBlank (newText kept) = front at hsplit
    rw [hsplit, List.append_assoc, List.drop_left]
  refine ⟨(k :: ks ++ Text.dropTail isAsciiBlank (newText kept)).getLast?, blanks, tail, hne, hblanks,
    hsplit, ?_⟩
  rw [dissect_cons hcomment, passText_eq, hparts, hagain, hassemble, scan_call (hmay (by simp)) hfirst,
    hended, hdrop]

/-- A keyword with a character to be seen hides what the bodies begin with. -/
theorem firstVisible_assemble_rewrite {keyword : Text} (h : firstVisible keyword ≠ none)
    (change : Text → Text) (parts : List Part) :
    firstVisible (assemble keyword (rewrite change parts)) =
      firstVisible (assemble keyword parts) := by
  induction parts with
  | nil => rfl
  | cons part parts ih =>
    cases part with
    | outside c =>
      rw [rewrite_outside, assemble_cons_outside, assemble_cons_outside]
      simp only [firstVisible, List.find?_cons] at ih ⊢
      rw [ih]
    | call body =>
      obtain ⟨c, hc⟩ := Option.ne_none_iff_exists'.1 h
      rw [rewrite_call, assemble_cons_call, assemble_cons_call]
      simp only [firstVisible] at hc ⊢
      simp [List.find?_append, hc]

/-- **No rule makes a line a comment**, if the keyword has a character to be seen. -/
theorem isComment_visible {keyword : Text} (h : firstVisible keyword ≠ none) (line : Text)
    (rule : Rule) : isComment (passText keyword line rule) = isComment line := by
  rw [passText_eq, isComment_eq, firstVisible_assemble_rewrite h, assemble_dissect, ← isComment_eq]

/-- Whether a `#` after blanks can complete a keyword: it starts with a blank, and all of it is
blanks or its first other character is `#`. -/
def isCompletable (keyword : Text) : Bool :=
  keyword.head?.any isAsciiBlank && (keyword.dropWhile isAsciiBlank).head?.all (· == '#')

theorem isCompletable_of_eq_append {c : Char} {ks rest blanks tail : Text}
    (hc : isAsciiBlank c = true) (hblanks : ∀ c ∈ blanks, isAsciiBlank c = true)
    (h : blanks ++ '#' :: tail = ks ++ rest) : isCompletable (c :: ks) = true := by
  have hdrop : ∀ text : Text, (c :: text).dropWhile isAsciiBlank = text.dropWhile isAsciiBlank :=
    fun text => List.dropWhile_cons_of_pos hc
  rw [isCompletable, hdrop, List.head?_cons, Option.any_some, hc, Bool.true_and]
  rcases Text.append_eq_append_cases h with ⟨right, hleft, -⟩ | ⟨right, hne, hks, hright⟩
  · have hall : ∀ d ∈ ks, isAsciiBlank d = true :=
      fun d hd => hblanks d (by rw [hleft]; exact List.mem_append_left _ hd)
    rw [List.dropWhile_eq_nil_iff.2 hall]
    rfl
  · obtain ⟨d, right, rfl⟩ := List.exists_cons_of_ne_nil hne
    obtain ⟨rfl, -⟩ := List.cons_eq_cons.1 hright
    rw [hks, Text.dropWhile_append_stops hblanks (Text.stops_cons.2 (by decide))]
    rfl

/-- **The comment that an exposed value starts has no calls**, if the value cannot complete the
keyword. -/
theorem call_notMem_scan_comment {k : Char} {ks : Text} (hkeyword : isCompletable (k :: ks) = false)
    {before : Option Char} {blanks : Text} (hne : blanks ≠ [])
    (hblanks : ∀ c ∈ blanks, isAsciiBlank c = true) (tail called : Text) :
    .call called ∉ scan k ks before none (blanks ++ '#' :: tail) := by
  have hscan : ∀ before, commentMayFollow (lastOr before blanks) = true →
      .call called ∉ scan k ks before none (blanks ++ '#' :: tail) := by
    clear hne
    induction blanks with
    | nil =>
      intro before hcomment
      rw [lastOr_nil] at hcomment
      rw [List.nil_append, scan, if_neg (by decide), if_pos (by simp [hcomment])]
      simp
    | cons c blanks ih =>
      intro before hcomment
      have hc : isAsciiBlank c = true := hblanks c List.mem_cons_self
      have hrest : ∀ d ∈ blanks, isAsciiBlank d = true :=
        fun d hd => hblanks d (List.mem_cons_of_mem c hd)
      have hmark : Quote.isMark c = false := isMark_eq_false_of_isAsciiBlank hc
      have hhash : c ≠ '#' := by
        rintro rfl
        revert hc
        decide
      have hnone : (mayFollow before && c == k) = true → afterKeyword? ks (blanks ++ '#' :: tail) = none := by
        intro hk
        obtain ⟨-, rfl⟩ : mayFollow before = true ∧ c = k := by simpa using hk
        by_contra hsome
        obtain ⟨rest, hafter⟩ := Option.ne_none_iff_exists'.1 hsome
        have hcompletable := isCompletable_of_eq_append hc hrest (afterKeyword?_eq_some_iff.1 hafter).1
        rw [hkeyword] at hcompletable
        cases hcompletable
      rw [lastOr_cons] at hcomment
      rw [List.cons_append, scan_outside hmark (by simp [hhash]) hnone]
      simpa using ih hrest (some c) hcomment
  refine hscan before ?_
  rw [lastOr_of_ne_nil hne, List.getLast?_eq_some_getLast hne]
  exact hblanks _ (List.getLast_mem hne)

end Migration
end ScriptUpgrade
