/-
# Quoted spans and quote states

The quotes of a text are seen in two ways: as its quoted spans, which are stretches with byte offsets, and
as the quote that is open at a place when the text is read up to it. `covers_iff` says that the two agree: a
character stands in a quoted span exactly if a quote is open in front of it or it opens one.

A text that leaves no quote open can be cut off (`spansFrom_append`): what follows has the spans that it
has by itself.
-/

import Mathlib.Data.List.Induction
import ScriptUpgrade.Proofs.Standing

namespace ScriptUpgrade
namespace Text

/-- Where a text is cut can be told from the number of bytes in front of the cut. -/
theorem front_eq_of_size {front front' rest rest' : Text} (h : front ++ rest = front' ++ rest')
    (hsize : size front = size front') : front = front' := by
  rcases append_eq_append_cases h with ⟨more, rfl, -⟩ | ⟨more, hne, rfl, -⟩
  · by_cases hmore : more = []
    · rw [hmore, List.append_nil]
    · have := size_pos hmore
      rw [size_append] at hsize
      omega
  · have := size_pos hne
    rw [size_append] at hsize
    omega

/-- What is in front of an earlier cut is in front of a later one. -/
theorem exists_append_of_size_lt {front front' rest rest' : Text}
    (h : front ++ rest = front' ++ rest') (hsize : size front < size front') :
    ∃ more, more ≠ [] ∧ front' = front ++ more ∧ rest = more ++ rest' := by
  rcases append_eq_append_cases h with ⟨more, rfl, -⟩ | hmore
  · rw [size_append] at hsize
    omega
  · exact hmore

end Text

namespace Quote

theorem isOpen_run {state : State} (h : IsOpen state) (text : Text) : IsOpen (run state text) := by
  induction text generalizing state with
  | nil => exact h
  | cons c text ih => exact ih (isOpen_step h c)

/-- A quoted span ends with the first mark of its own, or with the text. -/
theorem closing_cases (mark : Char) (text : Text) :
    (mark ∉ text ∧ closing mark text = (text, [])) ∨
    ∃ inside rest, mark ∉ inside ∧ text = inside ++ mark :: rest ∧
      closing mark text = (inside ++ [mark], rest) := by
  induction text with
  | nil => exact .inl ⟨by simp, rfl⟩
  | cons c text ih =>
    by_cases hc : c = mark
    · subst hc
      exact .inr ⟨[], text, by simp, rfl, by simp [closing]⟩
    · rcases ih with ⟨hnot, heq⟩ | ⟨inside, rest, hnot, htext, heq⟩
      · exact .inl ⟨by simp [hnot, Ne.symm hc], by simp [closing, hc, heq]⟩
      · exact .inr ⟨c :: inside, rest, by simp [hnot, Ne.symm hc], by rw [htext]; rfl,
          by simp [closing, hc, heq]⟩

theorem closing_append_mark {mark : Char} {inside : Text} (hinside : mark ∉ inside) (rest : Text) :
    closing mark (inside ++ mark :: rest) = (inside ++ [mark], rest) := by
  induction inside with
  | nil => simp [closing]
  | cons c inside ih =>
    rw [List.mem_cons, not_or] at hinside
    simp [closing, Ne.symm hinside.1, ih hinside.2]

/-- What comes first after a text without its mark is in a quoted span. -/
theorem exists_closing_append {mark : Char} {inside : Text} (hinside : mark ∉ inside) (c : Char)
    (rest : Text) : ∃ more, (closing mark (inside ++ c :: rest)).1 = inside ++ c :: more := by
  induction inside with
  | nil =>
    by_cases hc : c = mark
    · exact ⟨[], by simp [closing, hc]⟩
    · exact ⟨(closing mark rest).1, by simp [closing, hc]⟩
  | cons d inside ih =>
    rw [List.mem_cons, not_or] at hinside
    obtain ⟨more, hmore⟩ := ih hinside.2
    exact ⟨more, by simp [closing, Ne.symm hinside.1, hmore]⟩

theorem spansFrom_of_isMark {c : Char} (hc : isMark c = true) (start : Nat) (text : Text) :
    spansFrom start (c :: text) =
      .starting start (c :: (closing c text).1) ::
        spansFrom (start + Text.size (c :: (closing c text).1)) (closing c text).2 := by
  rw [spansFrom, if_pos hc]

theorem spansFrom_of_not_isMark {c : Char} (hc : isMark c = false) (start : Nat) (text : Text) :
    spansFrom start (c :: text) = spansFrom (start + c.utf8Size) text := by
  rw [spansFrom, if_neg (by simp [hc])]

/-- A text without quote characters is passed over. -/
theorem spansFrom_plain_append {front : Text} (hfront : ∀ c ∈ front, isMark c = false) (start : Nat)
    (text : Text) : spansFrom start (front ++ text) = spansFrom (start + Text.size front) text := by
  induction front generalizing start with
  | nil => rfl
  | cons c front ih =>
    rw [List.cons_append, spansFrom_of_not_isMark (hfront c (by simp)),
      ih fun d hd => hfront d (by simp [hd]), Text.size, Nat.add_assoc]

/-- A closed quote is one span. -/
theorem spansFrom_quoted_append {mark : Char} {inside : Text} (hmark : isMark mark = true)
    (hinside : mark ∉ inside) (start : Nat) (text : Text) :
    spansFrom start (mark :: inside ++ [mark] ++ text) =
      .starting start (mark :: inside ++ [mark]) ::
        spansFrom (start + Text.size (mark :: inside ++ [mark])) text := by
  have hclosing := closing_append_mark hinside text
  rw [List.cons_append, List.cons_append, List.append_assoc, List.singleton_append,
    spansFrom_of_isMark hmark, hclosing]

/-- No span starts before the text does. -/
theorem start_le_of_mem_spansFrom {start : Nat} {text : Text} {quoted : Stretch}
    (h : quoted ∈ spansFrom start text) : start ≤ quoted.span.start := by
  fun_induction spansFrom start text with
  | case1 => simp at h
  | case2 start c text hc inside ih =>
    rcases List.mem_cons.1 h with rfl | h
    · exact Nat.le_refl start
    · have := ih h
      omega
  | case3 start c text hc ih =>
    have := ih h
    omega

/-- No span goes beyond the text. -/
theorem stop_le_of_mem_spansFrom {start : Nat} {text : Text} {quoted : Stretch}
    (h : quoted ∈ spansFrom start text) : quoted.span.stop ≤ start + Text.size text := by
  fun_induction spansFrom start text with
  | case1 => simp at h
  | case2 start c text hc inside ih =>
    have hsplit : Text.size text = Text.size (closing c text).1 + Text.size (closing c text).2 := by
      rw [← Text.size_append, closing_append]
    have hinside : Text.size inside = c.utf8Size + Text.size (closing c text).1 := rfl
    rw [Text.size, hsplit]
    rcases List.mem_cons.1 h with rfl | h
    · simp only [Stretch.starting]
      omega
    · have := ih h
      omega
  | case3 start c text hc ih =>
    have := ih h
    rw [Text.size]
    omega

/-- **A text that leaves no quote open can be cut off.** -/
theorem spansFrom_append {front : Text} (hfront : run none front = none) (start : Nat) (back : Text) :
    spansFrom start (front ++ back) =
      spansFrom start front ++ spansFrom (start + Text.size front) back := by
  fun_induction spansFrom start front with
  | case1 => rfl
  | case2 start c front hc inside ih =>
    rcases closing_cases c front with ⟨hnot, -⟩ | ⟨quoted, rest, hnot, rfl, hclosing⟩
    · rw [run_quoted hc hnot] at hfront
      cases hfront
    · have hsplit : c :: (quoted ++ c :: rest) = c :: quoted ++ [c] ++ rest := by simp
      have hrest : run none rest = none := by
        rwa [hsplit, run_append, run_closed hc hnot] at hfront
      have hinside : inside = c :: quoted ++ [c] := by
        simp only [inside, hclosing, List.cons_append]
      simp only [hclosing] at ih
      rw [hinside] at ih ⊢
      rw [hsplit, List.append_assoc, spansFrom_quoted_append hc hnot, hclosing, ih hrest,
        Text.size_append (c :: quoted ++ [c]) rest, ← Nat.add_assoc, ← List.cons_append]
  | case3 start c front hc ih =>
    have hc' : isMark c = false := by simpa using hc
    have hstep : run none (c :: front) = run none front := by
      change run (step none c) front = _
      simp [step, hc']
    rw [List.cons_append, spansFrom_of_not_isMark hc', ih (hstep ▸ hfront), Text.size, Nat.add_assoc]

/-- Where a quote is open it was opened, and not closed since. -/
theorem exists_open {text : Text} {mark : Char} (h : run none text = some mark) :
    ∃ closed inside, text = closed ++ mark :: inside ∧ run none closed = none ∧
      isMark mark = true ∧ mark ∉ inside := by
  induction text using List.reverseRecOn with
  | nil => cases h
  | append_singleton text c ih =>
    rw [run_append] at h
    change step (run none text) c = some mark at h
    cases hrun : run none text with
    | none =>
      rw [hrun, step] at h
      split at h
      · rename_i hc
        cases h
        exact ⟨text, [], rfl, hrun, hc, by simp⟩
      · cases h
    | some mark' =>
      rw [hrun, step] at h
      split at h
      · cases h
      · rename_i hc
        cases h
        obtain ⟨closed, inside, rfl, hclosed, hmark, hinside⟩ := ih hrun
        exact ⟨closed, inside ++ [c], by simp, hclosed, hmark, by simp [hinside, Ne.symm hc]⟩

/-- A byte of a text lies in one of its quoted spans. -/
def Covers (text : Text) (position : Nat) : Prop :=
  ∃ quoted ∈ spans text, quoted.span.start ≤ position ∧ position < quoted.span.stop

/-- **A character stands in a quoted span exactly if a quote is open in front of it or it opens one.** -/
theorem covers_iff (front : Text) (c : Char) (rest : Text) :
    Covers (front ++ c :: rest) (Text.size front) ↔
      (run none front).isSome = true ∨ isMark c = true := by
  have hpos : 0 < c.utf8Size := c.utf8Size_pos
  unfold Covers spans
  cases hrun : run none front with
  | some mark =>
    -- the span that was opened last goes on beyond the character
    obtain ⟨closed, inside, rfl, hclosed, hmark, hinside⟩ := exists_open hrun
    obtain ⟨more, hmore⟩ := exists_closing_append hinside c rest
    refine iff_of_true ⟨.starting (0 + Text.size closed) (mark :: (inside ++ c :: more)), ?_, ?_⟩
      (.inl rfl)
    · rw [List.append_assoc, List.cons_append, spansFrom_append hclosed, spansFrom_of_isMark hmark, hmore]
      exact List.mem_append_right _ List.mem_cons_self
    · simp only [Stretch.starting, Text.size_append, Text.size]
      omega
  | none =>
    rw [spansFrom_append hrun]
    cases hc : isMark c with
    | true =>
      refine iff_of_true ⟨.starting (0 + Text.size front) (c :: (closing c rest).1), ?_, ?_⟩ (.inr rfl)
      · rw [spansFrom_of_isMark hc]
        exact List.mem_append_right _ List.mem_cons_self
      · simp only [Stretch.starting, Text.size]
        omega
    | false =>
      refine iff_of_false ?_ (by simp)
      rintro ⟨quoted, hquoted, hstart, hstop⟩
      rcases List.mem_append.1 hquoted with hquoted | hquoted
      · have := stop_le_of_mem_spansFrom hquoted
        omega
      · rw [spansFrom_of_not_isMark hc] at hquoted
        have := start_le_of_mem_spansFrom hquoted
        omega

end Quote
end ScriptUpgrade
