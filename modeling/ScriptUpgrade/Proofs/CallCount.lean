/-
# Migrating a line and the number of its calls

The rules that change calls in place neither make calls nor lose them, with one exception: a
selector whose value starts with `#` leaves the value bare, and the `#` starts a comment that
swallows every call to its right.

| line | `usacloud server read --selector=#1; usacloud disk list` |
| --- | --- |
| calls | `usacloud server read --selector=#1`, `usacloud disk list` |
| migrated | `usacloud server read #1; usacloud disk list` |
| calls | `usacloud server read` |

The call that exposes the value is still there, so only a call that is not the last one does harm. A
keyword of blanks alone can also have its whole line become a comment. And where the keyword is
blanks, or blanks and a `#`, the exposed `#` may complete it; such a keyword makes calls of its own.
-/

import ScriptUpgrade.Proofs.Idempotence
import ScriptUpgrade.Proofs.SelectorLine

namespace ScriptUpgrade
namespace Migration

open Fragment Call

variable {keyword line : Text}

theorem bodies_eq_nil_iff : bodies keyword line = [] ↔ ∀ body, .call body ∉ dissect keyword line := by
  rw [List.eq_nil_iff_forall_not_mem]
  exact forall_congr' fun body => not_congr mem_filterMap_body?

theorem isComment_foldl_passText {rules : List Rule} (hrules : ∀ rule ∈ rules, rule ∈ exchangeRules)
    (keyword line : Text) :
    isComment (rules.foldl (passText keyword) line) = isComment line := by
  induction rules generalizing line with
  | nil => rfl
  | cons rule rules ih =>
    rw [List.foldl_cons, ih (fun r hr => hrules r (List.mem_cons_of_mem _ hr)),
      isComment_exchange (hrules rule List.mem_cons_self)]

/-- After the selector rule no rule makes or loses a call or a comment. -/
theorem shape_inPlace (keyword line : Text) :
    (bodies keyword (inPlace keyword line).line).length =
        (bodies keyword (passText keyword line selectorRule)).length ∧
      isComment (inPlace keyword line).line = isComment (passText keyword line selectorRule) := by
  rw [line_inPlace]
  refine ⟨?_, isComment_foldl_passText (fun _ h => h) keyword _⟩
  rw [bodies, dissect_foldl_passText fun _ h => h, filterMap_rewrite, List.length_map, bodies]

/-- A line with calls that is not retired is changed in place only. -/
theorem migrated_of_not_retired (hcalls : bodies keyword line ≠ [])
    (hretired : ∀ change ∈ (apply keyword line).changes,
      change.rule.category ≠ .deprecatedCommand) :
    (apply keyword line).migrated = (inPlace keyword line).line := by
  have hsome : ¬ (Call.all keyword line).isEmpty = true := by
    rw [List.isEmpty_iff, ← List.length_eq_zero_iff, length_all, List.length_eq_zero_iff]
    exact hcalls
  unfold apply at hretired ⊢
  rw [if_neg hsome] at hretired ⊢
  cases hguidance : guidance? keyword (inPlace keyword line).line with
  | none => simp only [hguidance]
  | some guidance =>
    simp only [hguidance] at hretired
    exact absurd rfl (hretired (retire guidance line) (List.mem_append_right _ List.mem_cons_self))

/-- The calls of a line whose first exposed value is in a given call: those up to that call. -/
theorem length_bodies_of_exposing {k : Char} {ks : Text} {left right : List Part} {called : Text}
    (hkeyword : isCompletable (k :: ks) = false)
    (hcomment : isComment (passText (k :: ks) line selectorRule) = false)
    (hparts : dissect (k :: ks) line = left ++ .call called :: right)
    (hleft : ∀ part ∈ left, ¬ IsExposing part) (hexposes : Exposes (selectorRule.fragments called)) :
    (bodies (k :: ks) (passText (k :: ks) line selectorRule)).length =
      (left.filterMap Part.body?).length + 1 := by
  obtain ⟨kept, old, value, dropped, hcalled, hkept⟩ := hexposes.exists_first
  obtain ⟨before, blanks, tail, hne, hblanks, -, hdissect⟩ :=
    dissect_selector_of_exposing hparts hleft hcalled hkept hcomment
  have hnone : (scan k ks before none (blanks ++ '#' :: tail)).filterMap Part.body? = [] := by
    rw [List.eq_nil_iff_forall_not_mem]
    exact fun body hbody =>
      call_notMem_scan_comment hkeyword hne hblanks tail body (mem_filterMap_body?.1 hbody)
  rw [bodies, hdissect, List.filterMap_append, filterMap_rewrite, List.filterMap_cons]
  simp [Part.body?, hnone]

/-- Without exposed values the selector rule keeps the number of calls. -/
theorem length_bodies_of_not_exposing
    (hcomment : isComment (passText keyword line selectorRule) = isComment line)
    (h : ∀ body ∈ bodies keyword line, ¬ Exposes (selectorRule.fragments body)) :
    (bodies keyword (passText keyword line selectorRule)).length =
      (bodies keyword line).length := by
  have hnone : ∀ part ∈ dissect keyword line, ¬ IsExposing part := by
    rintro _ hpart ⟨body, rfl, hexposes⟩
    exact h body (mem_filterMap_body?.2 hpart) hexposes
  rw [bodies, dissect_selector_of_not_exposing hnone hcomment, filterMap_rewrite, List.length_map,
    bodies]

/-- **The selector rule keeps the number of calls exactly if** it does not make a comment of the
line and no call but the last exposes a value. -/
theorem length_bodies_selector_iff (hkeyword : isCompletable keyword = false)
    (hcalls : bodies keyword line ≠ []) :
    (bodies keyword (passText keyword line selectorRule)).length = (bodies keyword line).length ↔
      isComment (passText keyword line selectorRule) = isComment line ∧
        ∀ body ∈ (bodies keyword line).dropLast, ¬ Exposes (selectorRule.fragments body) := by
  obtain ⟨first, hfirst⟩ := List.exists_mem_of_ne_nil _ hcalls
  have hline := isComment_eq_false_of_call (mem_filterMap_body?.1 hfirst)
  have hpositive : 0 < (bodies keyword line).length := List.length_pos_iff.2 hcalls
  cases hcomment : isComment (passText keyword line selectorRule) with
  | true =>
    have hnone : bodies keyword (passText keyword line selectorRule) = [] :=
      bodies_eq_nil_iff.2 fun body hbody => by
        rw [isComment_eq_false_of_call hbody] at hcomment
        cases hcomment
    rw [hnone, hline, List.length_nil]
    constructor
    · intro h
      omega
    · rintro ⟨h, -⟩
      cases h
  | false =>
    rw [hline]
    cases keyword with
    | nil =>
      have hmem := mem_filterMap_body?.1 hfirst
      simp [dissect] at hmem
    | cons k ks =>
      rcases exists_first_exposing (dissect (k :: ks) line) with
        hnone | ⟨left, called, right, hparts, hleft, hexposes⟩
      · have hnever : ∀ body ∈ bodies (k :: ks) line, ¬ Exposes (selectorRule.fragments body) :=
          fun body hbody hexposes => hnone _ (mem_filterMap_body?.1 hbody) ⟨body, rfl, hexposes⟩
        have hlength := length_bodies_of_not_exposing (by rw [hcomment, hline]) hnever
        constructor
        · intro _
          exact ⟨rfl, fun body hbody => hnever body (List.dropLast_subset _ hbody)⟩
        · intro _
          exact hlength
      · have hbodies : bodies (k :: ks) line =
            left.filterMap Part.body? ++ called :: right.filterMap Part.body? := by
          rw [bodies, hparts, List.filterMap_append, List.filterMap_cons]
          rfl
        rw [length_bodies_of_exposing hkeyword hcomment hparts hleft hexposes, hbodies,
          List.length_append, List.length_cons]
        constructor
        · intro h
          have hright : right.filterMap Part.body? = [] := List.length_eq_zero_iff.1 (by omega)
          rw [hright, List.dropLast_concat]
          refine ⟨rfl, fun body hbody hexposes => ?_⟩
          exact hleft _ (mem_filterMap_body?.1 hbody) ⟨body, rfl, hexposes⟩
        · rintro ⟨-, h⟩
          have hright : right.filterMap Part.body? = [] := by
            by_contra hne
            refine h called ?_ hexposes
            rw [List.dropLast_append_of_ne_nil (by simp), List.dropLast_cons_of_ne_nil hne]
            simp
          rw [hright, List.length_nil]

/-- **Migrating a line keeps the number of its calls as long as no value is exposed**, and for a
keyword that an exposed value cannot complete exactly if no call but the last exposes one; in both
cases the line must not have become a comment. -/
theorem length_all_migrated (keyword line : Text)
    (hretired : ∀ change ∈ (apply keyword line).changes,
      change.rule.category ≠ .deprecatedCommand) :
    let migrated := (apply keyword line).migrated
    (isComment migrated = isComment line →
      (∀ body ∈ bodies keyword line, ¬ Exposes (selectorRule.fragments body)) →
        (Call.all keyword migrated).length = (Call.all keyword line).length) ∧
    (isCompletable keyword = false →
      ((Call.all keyword migrated).length = (Call.all keyword line).length ↔
        isComment migrated = isComment line ∧
          ∀ body ∈ (bodies keyword line).dropLast, ¬ Exposes (selectorRule.fragments body))) := by
  intro migrated
  by_cases hcalls : bodies keyword line = []
  · have hmigrated : migrated = line := by
      rw [show migrated = (apply keyword line).migrated from rfl,
        apply_of_no_call (bodies_eq_nil_iff.1 hcalls)]
    rw [hmigrated, hcalls]
    simp
  · have hmigrated : migrated = (inPlace keyword line).line :=
      migrated_of_not_retired hcalls hretired
    obtain ⟨hlength, hcomment⟩ := shape_inPlace keyword line
    rw [hmigrated, length_all, length_all, hlength, hcomment]
    exact ⟨length_bodies_of_not_exposing, fun hkeyword => length_bodies_selector_iff hkeyword hcalls⟩

/-- Two calls of which the first exposes its value, so that the second is lost. -/
theorem length_all_migrated_exposed :
    let keyword := "usacloud".toList
    let line := "usacloud server read --selector=#1; usacloud disk list".toList
    let migrated := (apply keyword line).migrated
    (∀ change ∈ (apply keyword line).changes, change.rule.category ≠ .deprecatedCommand) ∧
      isCompletable keyword = false ∧ isComment migrated = isComment line ∧
      (Call.all keyword line).length = 2 ∧ (Call.all keyword migrated).length ≠ 2 := by
  intro keyword line migrated
  have hretired : ∀ change ∈ (apply keyword line).changes,
      change.rule.category ≠ .deprecatedCommand := by
    decide +kernel
  have hcount : (Call.all keyword line).length = 2 := by
    decide +kernel
  refine ⟨hretired, by decide, by decide +kernel, hcount, fun hsame => ?_⟩
  have hkept := ((length_all_migrated keyword line hretired).2 (by decide)).1 (hsame.trans hcount.symm)
  have hbody : " server read --selector=#1".toList ∈ (bodies keyword line).dropLast := by
    decide +kernel
  exact hkept.2 _ hbody ⟨"--selector=#1".toList, "#1".toList, by decide +kernel, by decide⟩

end Migration
end ScriptUpgrade
