/-
# The history of a line along its calls

While rule after rule rewrites a line, the history of the line follows its calls: between the calls nothing has
changed, and inside a call the rules cut between what earlier rules wrote (`Tracks`). The selector rule
starts such a history (`tracks_selector`), and a rule that exchanges tokens continues it
(`Tracks.exists_blocks`). In a line a rule replaces what it replaces in the bodies of its calls, each
moved to where the body starts (`edits_fragments`).

A value that the selector rule exposes starts a comment. The keyword may still occur among the blanks before
that comment if it is made of blanks itself, but the calls there have empty bodies, to which no rule
does anything; so what was rewritten after the value stays as it is. That fails for a keyword that is one or more
gaps followed by `#` (`beginsComment`): it finds a call in the comment itself.
-/

import ScriptUpgrade.Proofs.Overlay
import ScriptUpgrade.Proofs.SelectorLine

namespace ScriptUpgrade
namespace Migration

open Fragment Call
open Text (isGap isAsciiBlank)

/-- Whether a keyword is one or more gaps followed by `#` and anything. -/
def beginsComment (keyword : Text) : Bool :=
  keyword.head?.any isGap && (keyword.dropWhile isGap).head? == some '#'

theorem beginsComment_append {gaps : Text} (hgaps : IsGaps gaps) (rest : Text) :
    beginsComment (gaps ++ '#' :: rest) = true := by
  obtain ⟨c, gaps, rfl⟩ := List.exists_cons_of_ne_nil hgaps.1
  have hdrop := Text.dropWhile_append_stops hgaps.2
    (Text.stops_cons.2 (by decide : isGap '#' = false) : Text.Stops isGap ('#' :: rest))
  unfold beginsComment
  rw [hdrop, List.cons_append, List.head?_cons, Option.any_some, hgaps.2 c (by simp)]
  rfl

/-- The body of a call that only gaps separate from a comment is empty. -/
theorem body_gaps {last : Option Char} {gaps tail : Text} (hne : gaps ≠ [])
    (hgaps : ∀ c ∈ gaps, isGap c = true) : body last (gaps ++ '#' :: tail) = [] := by
  have hblanks : ∀ c ∈ gaps, isAsciiBlank c = true := fun c hc => Text.isAsciiBlank_of_isGap (hgaps c hc)
  have hrun : Quote.run none gaps = none := Quote.run_eq_self Quote.isOpen_none fun c hc =>
    isMark_eq_false_of_isAsciiBlank (hblanks c hc)
  have hlast : commentMayFollow (lastOr last gaps) = true := by
    rw [lastOr_of_ne_nil hne, List.getLast?_eq_some_getLast hne]
    exact hblanks _ (List.getLast_mem hne)
  have hhalt : reach (lastOr last ([] ++ gaps)) (Quote.run none ([] ++ gaps)) ('#' :: tail) = [] := by
    rw [List.nil_append, hrun, reach, hlast]
    rfl
  have hnil : Clear last none [] := rfl
  exact body_append hnil (by simp) hblanks hhalt

/-- Before a comment that does not start here another gap stands. -/
theorem exists_gaps_of_not_comment {before : Option Char} {c : Char} {gaps text tail : Text}
    (hno : ¬ (c == '#' && commentMayFollow before) = true) (hgaps : ∀ c ∈ gaps, isGap c = true)
    (hcomment : commentMayFollow (lastOr before gaps) = true) (htext : gaps ++ '#' :: tail = c :: text) :
    ∃ gaps', gaps = c :: gaps' ∧ gaps' ++ '#' :: tail = text ∧ (∀ c ∈ gaps', isGap c = true) ∧
      commentMayFollow (lastOr (some c) gaps') = true := by
  cases gaps with
  | nil =>
    rw [List.nil_append, List.cons.injEq] at htext
    rw [← htext.1] at hno
    exact absurd hcomment (by simpa using hno)
  | cons b gaps =>
    rw [List.cons_append, List.cons.injEq] at htext
    obtain ⟨rfl, rfl⟩ := htext
    rw [lastOr_cons] at hcomment
    exact ⟨gaps, rfl, rfl, fun d hd => hgaps d (List.mem_cons_of_mem _ hd), hcomment⟩

/-- **Calls before a comment that only gaps separate from here have empty bodies.** -/
theorem eq_nil_of_mem_scan {k : Char} {ks : Text} (hkeyword : beginsComment (k :: ks) = false)
    {before : Option Char} {gaps tail called : Text} (hgaps : ∀ c ∈ gaps, isGap c = true)
    (hcomment : commentMayFollow (lastOr before gaps) = true)
    (h : .call called ∈ scan k ks before none (gaps ++ '#' :: tail)) : called = [] := by
  generalize htext : gaps ++ '#' :: tail = text at h
  generalize hquote : (none : Quote.State) = quote at h
  fun_induction scan k ks before quote text generalizing gaps with
  | case1 => simp at h
  | case2 before quote c text hquoted ih =>
    -- neither a gap nor `#` opens a quote
    subst hquote
    cases gaps with
    | nil =>
      rw [List.nil_append, List.cons.injEq] at htext
      rw [← htext.1] at hquoted
      exact absurd hquoted (by decide)
    | cons b gaps =>
      rw [List.cons_append, List.cons.injEq] at htext
      rw [← htext.1, isMark_eq_false_of_isAsciiBlank (Text.isAsciiBlank_of_isGap (hgaps b (by simp)))] at hquoted
      exact absurd hquoted (by simp)
  | case3 => simp at h
  | case4 before quote c text hquoted hno hk rest hrest called' =>
    rename_i ih
    obtain ⟨gaps, rfl, rfl, hgaps', -⟩ := exists_gaps_of_not_comment hno hgaps hcomment htext
    obtain ⟨hsplit, hhead⟩ := afterKeyword?_eq_some_iff.1 hrest
    have hc : c = k := by simpa using (Bool.and_eq_true_iff.1 hk).2
    rcases Text.append_eq_append_cases hsplit with ⟨rest', rfl, hrest'⟩ | ⟨rest', hne, rfl, hrest'⟩
    · -- the keyword is made of gaps, and more gaps follow
      have hne : rest' ≠ [] := by
        rintro rfl
        exact absurd (hhead '#' (by rw [hrest']; rfl)) (by decide)
      have hgaps'' : ∀ c ∈ rest', isGap c = true := fun d hd => hgaps' d (List.mem_append_right _ hd)
      have hnil : called' = [] := by
        rw [← body_gaps hne hgaps'', ← hrest']
      rcases List.mem_cons.1 h with heq | hmem
      · rw [Part.call.inj heq, hnil]
      · refine ih hgaps'' ?_ (by rw [hnil, hrest']; rfl) rfl hmem
        rw [lastOr_of_ne_nil hne, List.getLast?_eq_some_getLast hne]
        exact Text.isAsciiBlank_of_isGap (hgaps'' _ (List.getLast_mem hne))
    · -- the keyword reaches into the comment
      obtain ⟨d, rest', rfl⟩ := List.exists_cons_of_ne_nil hne
      rw [List.cons_append, List.cons.injEq] at hrest'
      rw [← hrest'.1, ← hc, ← List.cons_append, beginsComment_append ⟨by simp, hgaps⟩] at hkeyword
      exact absurd hkeyword (by simp)
  | case5 before quote c text hquoted hno hk hnone ih =>
    obtain ⟨gaps, -, rfl, hgaps, hcomment⟩ := exists_gaps_of_not_comment hno hgaps hcomment htext
    exact ih hgaps hcomment rfl rfl (by simpa using h)
  | case6 before quote c text hquoted hno hk ih =>
    obtain ⟨gaps, -, rfl, hgaps, hcomment⟩ := exists_gaps_of_not_comment hno hgaps hcomment htext
    exact ih hgaps hcomment rfl rfl (by simpa using h)

/-! ### Edits call by call -/

/-- An edit of a text that starts at byte `offset` of a line, as an edit of the line. -/
def Edit.shift (offset : Nat) (edit : Edit) : Edit :=
  { edit with span := ⟨offset + edit.span.start, offset + edit.span.stop⟩ }

theorem editsFrom_add (offset start : Nat) (fragments : List Fragment) :
    editsFrom (offset + start) fragments = (editsFrom start fragments).map (Edit.shift offset) := by
  induction fragments generalizing start with
  | nil => rfl
  | cons fragment fragments ih =>
    cases fragment with
    | kept c => rw [editsFrom, editsFrom, Nat.add_assoc, ih]
    | replaced old new =>
      rw [editsFrom, editsFrom, List.map_cons, Nat.add_assoc, ih]
      rfl

theorem editsFrom_eq_map_edits (start : Nat) (fragments : List Fragment) :
    editsFrom start fragments = (edits fragments).map (Edit.shift start) :=
  editsFrom_add start 0 fragments

/-- The edits of a rule in a call of the keyword: those of its body, which starts behind the keyword. -/
def callEdits (keyword : Text) (rule : Rule) (call : Stretch) : List Edit :=
  (edits (rule.fragments (call.text.drop keyword.length))).map
    (Edit.shift (call.span.start + Text.size keyword))

theorem editsFrom_flatMap_partFragments (keyword : Text) (rule : Rule) (start : Nat) (parts : List Part) :
    editsFrom start (parts.flatMap (partFragments keyword rule)) =
      (locate keyword start parts).flatMap (callEdits keyword rule) := by
  induction parts generalizing start with
  | nil => rfl
  | cons part parts ih =>
    cases part with
    | outside c => exact ih _
    | call body =>
      rw [List.flatMap_cons, partFragments, List.append_assoc, editsFrom_keep_append, editsFrom_append,
        oldText_ruleFragments, ih, locate, List.flatMap_cons, callEdits, Stretch.starting,
        List.drop_left, editsFrom_eq_map_edits, Text.size_append, Nat.add_assoc]

/-- **The edits of a pass are the edits of its calls**, from left to right. In a call every edit starts and
ends where the rule finds it in the body, moved by the start of the call and the size of the keyword. -/
theorem edits_fragments (keyword : Text) (rule : Rule) (line : Text) :
    edits (fragments keyword rule line) = (Call.all keyword line).flatMap (callEdits keyword rule) :=
  editsFrom_flatMap_partFragments keyword rule 0 (dissect keyword line)

/-- A call stands in the line where it is located. -/
theorem exists_of_mem_locate {keyword : Text} {start : Nat} {parts : List Part} {call : Stretch}
    (h : call ∈ locate keyword start parts) :
    ∃ left body right, parts = left ++ .call body :: right ∧
      call = .starting (start + Text.size (assemble keyword left)) (keyword ++ body) := by
  induction parts generalizing start with
  | nil => cases h
  | cons part parts ih =>
    cases part with
    | outside c =>
      obtain ⟨left, body, right, rfl, rfl⟩ := ih h
      refine ⟨.outside c :: left, body, right, rfl, ?_⟩
      rw [assemble_cons_outside, Text.size, Nat.add_assoc]
    | call called =>
      rcases List.mem_cons.1 h with rfl | h
      · exact ⟨[], called, parts, rfl, rfl⟩
      · obtain ⟨left, body, right, rfl, rfl⟩ := ih h
        refine ⟨.call called :: left, body, right, rfl, ?_⟩
        rw [assemble_cons_call, Text.size_append (keyword ++ called), Nat.add_assoc]

/-! ### Spans inside call bodies -/

/-- A span inside the body of a call of a line. -/
def InBody (keyword line : Text) (span : Span) : Prop :=
  ∃ call ∈ Call.all keyword line,
    call.span.start + Text.size keyword ≤ span.start ∧ span.stop ≤ call.span.stop

theorem InBody.mono {keyword line : Text} {inner outer : Span} (h : InBody keyword line outer)
    (hwithin : inner.Within outer) : InBody keyword line inner := by
  obtain ⟨call, hcall, hstart, hstop⟩ := h
  exact ⟨call, hcall, hstart.trans hwithin.1, hwithin.2.trans hstop⟩

/-- The body of a call that is located at `start`. -/
theorem inBody_of_locate {keyword line called : Text} {start : Nat} {parts : List Part}
    (h : ∀ call ∈ locate keyword start (.call called :: parts), call ∈ Call.all keyword line) :
    InBody keyword line
      ⟨start + Text.size keyword, start + Text.size keyword + Text.size called⟩ := by
  refine ⟨_, h _ (List.mem_cons_self ..), le_rfl, ?_⟩
  rw [Stretch.starting, Text.size_append, Nat.add_assoc]

/-- **What a rule replaces stands inside the call bodies.** -/
theorem inBody_of_mem_laid {keyword line : Text} {rule : Rule} {patch : Patch}
    (hsolid : ∀ body, IsSolid (rule.fragments body)) (h : patch ∈ laid 0 (fragments keyword rule line)) :
    InBody keyword line patch.1 := by
  obtain ⟨edit, hedit, rfl⟩ := List.mem_map.1 h
  rw [← edits, edits_fragments, List.mem_flatMap] at hedit
  obtain ⟨call, hcall, hedit⟩ := hedit
  obtain ⟨inner, hinner, rfl⟩ := List.mem_map.1 hedit
  have hbounds := bounds_of_mem_laid (hsolid _) (List.mem_map.2 ⟨inner, hinner, rfl⟩)
  obtain ⟨left, body, right, -, rfl⟩ := exists_of_mem_locate hcall
  rw [oldText_ruleFragments, Stretch.starting, List.drop_left] at hbounds
  refine ⟨_, hcall, Nat.le_add_right _ _, ?_⟩
  rw [Stretch.starting, Text.size_append]
  dsimp only [Edit.shift] at hbounds ⊢
  omega

/-! ### Histories that follow the calls -/

/-- A history, from byte `start` of the line as it was at first, that follows the parts of the line of now.
Behind a comment only calls without a body are left, and there it may be any history. -/
inductive Tracks (keyword line : Text) : Nat → List Fragment → List Part → Prop
  | idle {start : Nat} {history : List Fragment} {parts : List Part}
      (hidle : ∀ body, .call body ∈ parts → body = []) (hsolid : IsSolid history)
      (hnew : newText history = assemble keyword parts) : Tracks keyword line start history parts
  | outside {start : Nat} {c : Char} {history : List Fragment} {parts : List Part}
      (h : Tracks keyword line (start + c.utf8Size) history parts) :
      Tracks keyword line start (.kept c :: history) (.outside c :: parts)
  | call {start : Nat} {body history : List Fragment} {parts : List Part} (hbody : IsAligned body)
      (hinside : InBody keyword line
        ⟨start + Text.size keyword, start + Text.size keyword + Text.size (oldText body)⟩)
      (h : Tracks keyword line (start + Text.size keyword + Text.size (oldText body)) history parts) :
      Tracks keyword line start (keep keyword ++ (body ++ history)) (.call (newText body) :: parts)

variable {keyword line : Text}

theorem fragments_empty {rule : Rule} (hrule : rule ∈ exchangeRules) : rule.fragments [] = [] := by
  by_contra hne
  exact (isSolid_of_isPlain (isPlain_fragments hrule [])).oldText_ne_nil hne
    (oldText_ruleFragments rule [])

/-- A pass over calls without a body keeps everything. -/
theorem flatMap_partFragments_of_idle (keyword : Text) {rule : Rule} (hrule : rule ∈ exchangeRules) {parts : List Part}
    (hidle : ∀ body, .call body ∈ parts → body = []) :
    parts.flatMap (partFragments keyword rule) = keep (assemble keyword parts) ∧
      rewrite rule.rewrite parts = parts := by
  induction parts with
  | nil => exact ⟨rfl, rfl⟩
  | cons part parts ih =>
    obtain ⟨hflat, hrewrite⟩ := ih fun body hmem => hidle body (List.mem_cons_of_mem _ hmem)
    rw [List.flatMap_cons, hflat]
    cases part with
    | outside c => exact ⟨rfl, by rw [rewrite_outside, hrewrite]⟩
    | call called =>
      obtain rfl := hidle called (by simp)
      refine ⟨?_, by rw [rewrite_call, hrewrite, rewrite_empty]⟩
      rw [partFragments, fragments_empty hrule, assemble_cons_call, List.append_nil, List.append_nil,
        keep_append]

theorem fresh_unchanged (history : List Fragment) : fresh (unchanged history) = keep (oldText history) := by
  induction history with
  | nil => rfl
  | cons fragment history ih =>
    cases fragment with
    | kept c => exact congrArg (List.cons _) ih
    | replaced old new =>
      rw [oldText_replaced, keep_append, ← ih]
      rfl

theorem fresh_append (left right : List Block) : fresh (left ++ right) = fresh left ++ fresh right := by
  simp [fresh]

/-- **A rule that exchanges tokens continues the history of a line**, with changes inside call bodies. -/
theorem Tracks.exists_blocks {start : Nat} {history : List Fragment} {parts : List Part}
    (h : Tracks keyword line start history parts) {rule : Rule} (hrule : rule ∈ exchangeRules) :
    ∃ blocks, earlier blocks = history ∧ cut blocks = parts.flatMap (partFragments keyword rule) ∧
      Tracks keyword line start (later blocks) (rewrite rule.rewrite parts) ∧
      ∀ patch ∈ laid start (fresh blocks), InBody keyword line patch.1 := by
  induction h with
  | @idle start history parts hidle hsolid hnew =>
    obtain ⟨hearlier, hcut, hlater⟩ := unchanged_spec history
    obtain ⟨hflat, hrewrite⟩ := flatMap_partFragments_of_idle keyword hrule hidle
    refine ⟨unchanged history, hearlier, ?_, ?_, ?_⟩
    · rw [hcut, hnew, hflat]
    · rw [hlater, hrewrite]
      exact Tracks.idle hidle hsolid hnew
    · rw [fresh_unchanged, laid_keep]
      simp
  | @outside start c history parts _ ih =>
    obtain ⟨blocks, rfl, hcut, htracks, hpatches⟩ := ih
    refine ⟨.kept c :: blocks, rfl, ?_, Tracks.outside htracks, hpatches⟩
    rw [cut_cons, hcut]
    rfl
  | @call start body history parts hbody hinside _ ih =>
    obtain ⟨blocks, rfl, hcut, htracks, hpatches⟩ := ih
    obtain ⟨inner, rfl, hinner, haligned⟩ := hbody.exists_blocks
      (oldText_ruleFragments rule (newText body)) (each_exchanges hrule (newText body))
    obtain ⟨hearlier, hkeep, hlater⟩ := unchanged_spec (keep keyword)
    have hold := oldText_later inner
    refine ⟨unchanged (keep keyword) ++ (inner ++ blocks), ?_, ?_, ?_, ?_⟩
    · rw [earlier_append, earlier_append, hearlier]
    · rw [cut_append, cut_append, hkeep, newText_keep, hinner, hcut, List.flatMap_cons, partFragments,
        List.append_assoc]
    · have hnew : newText (later inner) = rule.rewrite (newText (earlier inner)) := by
        rw [newText_later, hinner, Rule.rewrite]
      rw [later_append, later_append, hlater, rewrite_call, ← hnew]
      refine Tracks.call haligned ?_ ?_
      · rwa [hold]
      · rwa [hold]
    · intro patch hpatch
      rw [fresh_append, fresh_append, fresh_unchanged, oldText_keep, laid_keep_append, laid_append,
        oldText_fresh, List.mem_append] at hpatch
      rcases hpatch with hpatch | hpatch
      · have hbounds := bounds_of_mem_laid (isSolid_fresh haligned.solid) hpatch
        rw [oldText_fresh] at hbounds
        exact hinside.mono ⟨hbounds.1, hbounds.2.2⟩
      · exact hpatches patch hpatch

/-! ### The history after the selector rule -/

theorem mem_assemble_of_call {parts : List Part} {called : Text} (h : .call called ∈ parts) {c : Char}
    (hc : c ∈ called) : c ∈ assemble keyword parts :=
  List.mem_flatMap.2 ⟨_, h, List.mem_append_right _ hc⟩

/-- Calls to which the selector rule was applied, in front of a history that follows the rest. -/
theorem Tracks.prepend {start : Nat} {left parts : List Part} {history : List Fragment}
    (hlocate : ∀ call ∈ locate keyword start left, call ∈ Call.all keyword line)
    (hsmooth : ∀ body, .call body ∈ left → IsSmooth body)
    (h : Tracks keyword line (start + Text.size (assemble keyword left)) history parts) :
    Tracks keyword line start (left.flatMap (partFragments keyword selectorRule) ++ history)
      (rewrite selectorRule.rewrite left ++ parts) := by
  induction left generalizing start with
  | nil => exact h
  | cons part left ih =>
    have hsmooth' : ∀ body, .call body ∈ left → IsSmooth body := fun body hmem =>
      hsmooth body (List.mem_cons_of_mem _ hmem)
    cases part with
    | outside c =>
      rw [assemble_cons_outside, Text.size, ← Nat.add_assoc] at h
      exact Tracks.outside (ih hlocate hsmooth' h)
    | call called =>
      rw [assemble_cons_call, Text.size_append, Text.size_append, ← Nat.add_assoc, ← Nat.add_assoc] at h
      have hinside := inBody_of_locate hlocate
      have hlocate' : ∀ call ∈ locate keyword (start + Text.size keyword + Text.size called) left,
          call ∈ Call.all keyword line := by
        intro call hcall
        rw [Nat.add_assoc, ← Text.size_append] at hcall
        exact hlocate call (List.mem_cons_of_mem _ hcall)
      have hrest := ih hlocate' hsmooth' h
      rw [List.flatMap_cons, partFragments, List.append_assoc, List.append_assoc, rewrite_call,
        List.cons_append]
      refine Tracks.call (isAligned_selector (hsmooth called (by simp))) ?_ ?_
      · rwa [oldText_ruleFragments]
      · rwa [oldText_ruleFragments]

theorem isSolid_flatMap_partFragments (keyword : Text) {rule : Rule}
    (hsolid : ∀ body, IsSolid (rule.fragments body)) (parts : List Part) :
    IsSolid (parts.flatMap (partFragments keyword rule)) := by
  induction parts with
  | nil => exact isSolid_keep []
  | cons part parts ih =>
    rw [List.flatMap_cons, isSolid_append_iff]
    refine ⟨?_, ih⟩
    cases part with
    | outside c => exact isSolid_keep [c]
    | call called => exact isSolid_append_iff.2 ⟨isSolid_keep keyword, hsolid called⟩

theorem locate_append (keyword : Text) (start : Nat) (left right : List Part) :
    locate keyword start (left ++ right) =
      locate keyword start left ++ locate keyword (start + Text.size (assemble keyword left)) right := by
  induction left generalizing start with
  | nil => rfl
  | cons part left ih =>
    cases part with
    | outside c =>
      rw [List.cons_append, locate, locate, ih, assemble_cons_outside, Text.size, Nat.add_assoc]
    | call called =>
      rw [List.cons_append, locate, locate, ih, assemble_cons_call, Text.size_append (keyword ++ called),
        Nat.add_assoc, List.cons_append]

/-- A line that was a comment is one after the selector rule. -/
theorem isComment_of_isComment_passText {rule : Rule}
    (h : isComment (passText keyword line rule) = false) : isComment line = false := by
  by_contra hline
  have hline : isComment line = true := by simpa using hline
  rw [passText_eq, dissect_of_isComment hline, rewrite_map_outside, assemble_outside, hline] at h
  exact absurd h (by simp)

theorem assemble_append (keyword : Text) (left right : List Part) :
    assemble keyword (left ++ right) = assemble keyword left ++ assemble keyword right := by
  simp [assemble]

/-- Where a value is exposed, the history of what follows it is one of a comment. -/
theorem tracks_exposing {k : Char} {ks : Text} (hkeyword : beginsComment (k :: ks) = false)
    (hbodies : ∀ body, .call body ∈ dissect (k :: ks) line → IsSmooth body)
    (hcomment : isComment (passText (k :: ks) line selectorRule) = false) {left right : List Part}
    {called : Text} (hparts : dissect (k :: ks) line = left ++ .call called :: right)
    (hleft : ∀ part ∈ left, ¬ IsExposing part) (hexposes : Exposes (selectorRule.fragments called)) :
    Tracks (k :: ks) line 0 (fragments (k :: ks) selectorRule line)
      (dissect (k :: ks) (passText (k :: ks) line selectorRule)) := by
  obtain ⟨kept, old, value, dropped, hcalled, hkept⟩ := hexposes.exists_first
  obtain ⟨before, blanks, tail, hne, hblanks, hsplit, hdissect⟩ :=
    dissect_selector_of_exposing hparts hleft hcalled hkept hcomment
  have haligned := isAligned_selector (hbodies called (by rw [hparts]; simp))
  rw [hcalled] at haligned
  obtain ⟨front, gaps, rfl, hfront⟩ := haligned.left.exists_keep_blanks
  have hgaps : ∀ c ∈ blanks, isGap c = true := by
    intro c hc
    refine haligned.left.smooth c ?_ (hblanks c hc)
    rw [hsplit]
    exact List.mem_append_right _ hc
  rw [← hfront] at hdissect
  let rest := keep gaps ++ .replaced old ('#' :: value) :: dropped ++
    right.flatMap (partFragments (k :: ks) selectorRule)
  have hhistory : fragments (k :: ks) selectorRule line =
      left.flatMap (partFragments (k :: ks) selectorRule) ++ (keep (k :: ks) ++ (front ++ rest)) := by
    rw [fragments_eq_flatMap, hparts, List.flatMap_append, List.flatMap_cons, partFragments, hcalled]
    simp only [rest, List.append_assoc, List.cons_append]
  have hlocate : ∀ call ∈ locate (k :: ks) 0 (left ++ .call called :: right),
      call ∈ Call.all (k :: ks) line := by
    rw [← hparts]
    exact fun _ h => h
  rw [locate_append] at hlocate
  have hsolid : IsSolid (fragments (k :: ks) selectorRule line) :=
    isSolid_flatMap_partFragments (k :: ks) isSolid_selector _
  have hnew : newText (fragments (k :: ks) selectorRule line) =
      assemble (k :: ks) (dissect (k :: ks) (passText (k :: ks) line selectorRule)) := by
    rw [assemble_dissect]
    rfl
  rw [hhistory] at hsolid hnew ⊢
  rw [hdissect] at hnew ⊢
  rw [newText_append, newText_append, newText_append, newText_keep, newText_flatMap_partFragments,
    assemble_append, assemble_cons_call, List.append_assoc] at hnew
  refine Tracks.prepend (fun call hcall => hlocate call (List.mem_append_left _ hcall)) ?_ ?_
  · intro body hmem
    refine hbodies body ?_
    rw [hparts]
    exact List.mem_append_left _ hmem
  · refine Tracks.call haligned.left.left ?_ (Tracks.idle ?_ ?_ ?_)
    · -- what is kept of the body is at its start
      refine (inBody_of_locate fun call hcall => hlocate call (List.mem_append_right _ hcall)).mono
        ⟨le_rfl, ?_⟩
      have hold := oldText_ruleFragments selectorRule called
      rw [hcalled, oldText_append, oldText_append] at hold
      rw [← hold, Text.size_append, Text.size_append]
      dsimp only
      omega
    · intro body hbody
      refine eq_nil_of_mem_scan hkeyword hgaps ?_ hbody
      rw [lastOr_of_ne_nil hne, List.getLast?_eq_some_getLast hne]
      exact hblanks _ (List.getLast_mem hne)
    · simp only [isSolid_append_iff] at hsolid
      exact hsolid.2.2.2
    · exact List.append_cancel_left (List.append_cancel_left (List.append_cancel_left hnew))

/-- **The selector rule starts a history that follows the calls.** -/
theorem tracks_selector (hkeyword : beginsComment keyword = false) (hsmooth : IsSmooth line) :
    Tracks keyword line 0 (fragments keyword selectorRule line)
      (dissect keyword (passText keyword line selectorRule)) := by
  have hbodies : ∀ body, .call body ∈ dissect keyword line → IsSmooth body := by
    intro body hmem c hc
    refine hsmooth c ?_
    rw [← assemble_dissect keyword line]
    exact mem_assemble_of_call hmem hc
  by_cases hcomment : isComment (passText keyword line selectorRule) = true
  · -- the whole line is a comment now
    refine Tracks.idle ?_ (isSolid_flatMap_partFragments keyword isSolid_selector _) ?_
    · rw [dissect_of_isComment hcomment]
      simp
    · rw [assemble_dissect]
      rfl
  · have hcomment : isComment (passText keyword line selectorRule) = false := by simpa using hcomment
    have hline := isComment_of_isComment_passText hcomment
    rcases exists_first_exposing (dissect keyword line) with hnone | ⟨left, called, right, hparts, hleft, hexposes⟩
    · rw [dissect_selector_of_not_exposing hnone (hcomment.trans hline.symm), fragments_eq_flatMap]
      have hend : Tracks keyword line (0 + Text.size (assemble keyword (dissect keyword line))) [] [] :=
        Tracks.idle (by simp) (isSolid_keep []) rfl
      have htracks := Tracks.prepend (fun _ h => h) hbodies hend
      rwa [List.append_nil, List.append_nil] at htracks
    · cases keyword with
      | nil =>
        have hmem : Part.call called ∈ dissect [] line := by
          rw [hparts]
          simp
        simp [dissect] at hmem
      | cons k ks => exact tracks_exposing hkeyword hbodies hcomment hparts hleft hexposes

end Migration
end ScriptUpgrade
