/-
# A pass as a substitution

The fragments of a pass replace all stretches of a rule at once. A line that is kept as one buffer is changed
one stretch at a time instead, and there a step can go wrong: an offset may lie past the end, inside a
character or behind the other end of its span, and a step moves the text behind it. `Text.cut?` cuts a
text at a span and fails in exactly these cases.

Begun with the last stretch no step fails, since what is still to be replaced has not moved, and the
outcome is the line of the pass (`replaceFromLast?_laid`).
-/

import ScriptUpgrade.Proofs.Idempotence
import ScriptUpgrade.Proofs.Tracking

namespace ScriptUpgrade

namespace Text

/-- The two sides of a byte offset, unless it lies past the end of the text or inside a character. -/
def splitAt? (offset : Nat) : Text → Option (Text × Text)
  | [] => if offset = 0 then some ([], []) else none
  | c :: text =>
    if offset = 0 then some ([], c :: text)
    else if offset < c.utf8Size then none
    else (splitAt? (offset - c.utf8Size) text).map fun sides => (c :: sides.1, sides.2)

/-- What stands in front of a span, inside and behind it, unless the span ends before it starts or one of
its ends is no place to split the text. -/
def cut? (text : Text) (span : Span) : Option (Text × Text × Text) :=
  if span.stop < span.start then none
  else (splitAt? span.start text).bind fun sides =>
    (splitAt? span.size sides.2).map fun inner => (sides.1, inner.1, inner.2)

/-- The characters of a span. -/
def slice? (text : Text) (span : Span) : Option Text :=
  (cut? text span).map fun pieces => pieces.2.1

theorem splitAt?_eq_some_iff {offset : Nat} {text front back : Text} :
    splitAt? offset text = some (front, back) ↔ text = front ++ back ∧ size front = offset := by
  constructor
  · intro h
    induction text generalizing offset front with
    | nil =>
      rw [splitAt?, Option.ite_none_right_eq_some] at h
      cases h.2
      exact ⟨rfl, h.1.symm⟩
    | cons c text ih =>
      rw [splitAt?] at h
      split at h
      next hzero =>
        cases h
        exact ⟨rfl, hzero.symm⟩
      next =>
        rw [Option.ite_none_left_eq_some] at h
        obtain ⟨sides, hsides, heq⟩ := Option.map_eq_some_iff.1 h.2
        cases heq
        obtain ⟨rfl, hsize⟩ := ih hsides
        exact ⟨rfl, by rw [size, hsize]; omega⟩
  · rintro ⟨rfl, rfl⟩
    induction front with
    | nil => cases back <;> rfl
    | cons c front ih =>
      have hpos := Char.utf8Size_pos c
      rw [List.cons_append, splitAt?, size, if_neg (by omega), if_neg (by omega),
        Nat.add_sub_cancel_left, ih]
      rfl

/-- **A span can be cut out exactly where the text splits at both its ends.** -/
theorem cut?_eq_some_iff {text front inside back : Text} {span : Span} :
    cut? text span = some (front, inside, back) ↔
      text = front ++ (inside ++ back) ∧ span = ⟨size front, size front + size inside⟩ := by
  rw [cut?, Option.ite_none_left_eq_some, Option.bind_eq_some_iff]
  constructor
  · rintro ⟨hle, ⟨front', rest⟩, hfront, hinner⟩
    obtain ⟨⟨inside', back'⟩, hinside, heq⟩ := Option.map_eq_some_iff.1 hinner
    cases heq
    obtain ⟨rfl, hstart⟩ := splitAt?_eq_some_iff.1 hfront
    obtain ⟨rfl, hsize⟩ := splitAt?_eq_some_iff.1 hinside
    refine ⟨rfl, ?_⟩
    rw [Span.size] at hsize
    cases span
    simp only [Span.mk.injEq] at hle hstart hsize ⊢
    omega
  · rintro ⟨rfl, rfl⟩
    have hsize : Span.size ⟨size front, size front + size inside⟩ = size inside :=
      Nat.add_sub_cancel_left ..
    refine ⟨by dsimp only; omega, (front, inside ++ back), splitAt?_eq_some_iff.2 ⟨rfl, rfl⟩, ?_⟩
    rw [hsize, splitAt?_eq_some_iff.2 ⟨rfl, rfl⟩]
    rfl

theorem slice?_append (front inside back : Text) :
    slice? (front ++ (inside ++ back)) ⟨size front, size front + size inside⟩ = some inside := by
  rw [slice?, cut?_eq_some_iff.2 ⟨rfl, rfl⟩]
  rfl

end Text

namespace Migration

open Fragment Call

/-- What an edit puts in the place of its span. -/
def Edit.patch (edit : Edit) : Patch :=
  (edit.span, edit.after)

/-- A text with one patch put in the place of its span. -/
def replace? (patch : Patch) (text : Text) : Option Text :=
  (text.cut? patch.1).map fun pieces => pieces.1 ++ (patch.2 ++ pieces.2.2)

/-- A text with one patch after the other put in the place of its span, the last one first. -/
def replaceFromLast? : List Patch → Text → Option Text
  | [], text => some text
  | patch :: patches, text => (replaceFromLast? patches text).bind (replace? patch)

/-- **Replacing from the last stretch to the first one never fails** and gives what the fragments read
afterwards. `front` is what stands before them. -/
theorem replaceFromLast?_laid (front : Text) (fragments : List Fragment) :
    replaceFromLast? (laid (Text.size front) fragments) (front ++ oldText fragments) =
      some (front ++ newText fragments) := by
  induction fragments generalizing front with
  | nil => rfl
  | cons fragment fragments ih =>
    cases fragment with
    | kept c =>
      have hih := ih (front ++ [c])
      rw [Text.size_append, List.append_assoc, List.append_assoc] at hih
      exact hih
    | replaced old new =>
      have hih := ih (front ++ old)
      rw [Text.size_append, List.append_assoc, List.append_assoc] at hih
      rw [laid_replaced, oldText_replaced, replaceFromLast?, hih, Option.bind_some, replace?,
        Text.cut?_eq_some_iff.2 ⟨rfl, rfl⟩, newText_replaced]
      rfl

/-- **The keyword and the body of a call can be cut out of the line.** -/
theorem slice?_of_mem_all {keyword line : Text} {call : Stretch} (h : call ∈ Call.all keyword line) :
    ∃ body, call.text = keyword ++ body ∧ line.slice? call.span = some call.text ∧
      line.slice? ⟨call.span.start + Text.size keyword, call.span.stop⟩ = some body := by
  obtain ⟨left, body, right, hparts, rfl⟩ := exists_of_mem_locate h
  have hline : line = assemble keyword left ++ (keyword ++ body ++ assemble keyword right) := by
    rw [← assemble_dissect keyword line, hparts, assemble_append, assemble_cons_call]
  refine ⟨body, rfl, ?_, ?_⟩
  · rw [hline, Stretch.starting, Nat.zero_add]
    exact Text.slice?_append ..
  · have hbody := Text.slice?_append (assemble keyword left ++ keyword) body (assemble keyword right)
    rw [Text.size_append, List.append_assoc, ← List.append_assoc keyword, ← hline] at hbody
    rw [Stretch.starting, Text.size_append, Nat.zero_add, ← Nat.add_assoc]
    exact hbody

/-- Every in-place rule replaces something by something. -/
theorem isSolid_ruleFragments {rule : Rule} (h : rule ∈ inPlaceRules) (body : Text) :
    IsSolid (rule.fragments body) := by
  rw [inPlaceRules_eq, List.mem_cons] at h
  rcases h with rfl | h
  · exact isSolid_selector body
  · exact isSolid_of_isPlain (isPlain_fragments h body)

/-- What an edit says it replaces stands at its span. -/
theorem slice?_of_mem_edits {fragments : List Fragment} {edit : Edit} (h : edit ∈ edits fragments) :
    (oldText fragments).slice? edit.span = some edit.before := by
  obtain ⟨left, right, rfl, hspan⟩ := exists_of_mem_editsFrom h
  rw [hspan, Nat.zero_add, oldText_append, oldText_replaced]
  exact Text.slice?_append ..

/-- **A pass is a simultaneous substitution.** For every line, keyword and in-place rule, the keyword and
the body of every call can be cut out of the line; what the rule replaces is never empty, stands where the
edit says, inside the body of one call, and in front of what it replaces next; and replacing it from the
last edit to the first one never fails and gives the line in which all of it is replaced at once, which is
the line of the pass. -/
theorem pass_substitutes (keyword : Text) (progress : Progress) {rule : Rule} (hrule : rule ∈ inPlaceRules) :
    let line := progress.line
    let found := edits (fragments keyword rule line)
    (∀ call ∈ Call.all keyword line, ∃ body, call.text = keyword ++ body ∧
      line.slice? call.span = some call.text ∧
      line.slice? ⟨call.span.start + Text.size keyword, call.span.stop⟩ = some body) ∧
    (∀ edit ∈ found, edit.span.start < edit.span.stop ∧ line.slice? edit.span = some edit.before ∧
      InBody keyword line edit.span) ∧
    found.Pairwise (fun left right => left.span.stop ≤ right.span.start) ∧
    replaceFromLast? (found.map Edit.patch) line = some (patch (found.map Edit.patch) line) ∧
    patch (found.map Edit.patch) line = (pass keyword progress rule).line := by
  intro line found
  have hsolid : IsSolid (fragments keyword rule line) :=
    isSolid_flatMap_partFragments keyword (isSolid_ruleFragments hrule) (dissect keyword line)
  have hold : oldText (fragments keyword rule line) = line := oldText_fragments keyword rule line
  have hlaid : found.map Edit.patch = laid 0 (fragments keyword rule line) := rfl
  have hpatch : patch (found.map Edit.patch) line = newText (fragments keyword rule line) := by
    have h := patchFrom_laid 0 hsolid [] (by simp)
    rwa [hold] at h
  refine ⟨fun call hcall => slice?_of_mem_all hcall, fun edit hedit => ?_, ?_, ?_, hpatch⟩
  · have hmem : edit.patch ∈ laid 0 (fragments keyword rule line) := List.mem_map.2 ⟨edit, hedit, rfl⟩
    have hslice := slice?_of_mem_edits hedit
    rw [hold] at hslice
    exact ⟨(bounds_of_mem_laid hsolid hmem).2.1, hslice,
      inBody_of_mem_laid (isSolid_ruleFragments hrule) hmem⟩
  · have h := pairwise_laid 0 hsolid
    rwa [← hlaid, List.pairwise_map] at h
  · have h := replaceFromLast?_laid [] (fragments keyword rule line)
    rw [List.nil_append, hold] at h
    rw [hpatch]
    exact h

/-- Two calls with three edits between characters of several bytes; the new texts are shorter. -/
theorem pass_substitutes_two_calls :
    let keyword := "usacloud".toList
    let line := "é; usacloud server read --selector=あ --selector 'é' | usacloud disk read --selector x ".toList
    let found := edits (fragments keyword selectorRule line)
    selectorRule ∈ inPlaceRules ∧
      found.map Edit.span = [⟨25, 39⟩, ⟨40, 55⟩, ⟨77, 89⟩] ∧
      found.Pairwise (fun left right => left.span.stop ≤ right.span.start) ∧
      (∀ edit ∈ found, InBody keyword line edit.span) ∧
      replaceFromLast? (found.map Edit.patch) line =
        some "é; usacloud server read あ 'é' | usacloud disk read x ".toList := by
  intro keyword line found
  have hrule : selectorRule ∈ inPlaceRules := List.mem_cons_self
  have hspans : found.map Edit.span = [⟨25, 39⟩, ⟨40, 55⟩, ⟨77, 89⟩] := by decide +kernel
  have hline : (pass keyword ⟨line, .untouched line, []⟩ selectorRule).line =
      "é; usacloud server read あ 'é' | usacloud disk read x ".toList := by
    decide +kernel
  obtain ⟨-, hedits, hpairs, hlast, hpass⟩ := pass_substitutes keyword ⟨line, .untouched line, []⟩ hrule
  exact ⟨hrule, hspans, hpairs, fun edit hedit => (hedits edit hedit).2.2,
    hlast.trans (congrArg some (hpass.trans hline))⟩

end Migration
end ScriptUpgrade
