/-
# A comment at the end of a line

What a comment behind a command does to the impact of the line. Each scanner of the line has an end of
its own, and only two of the four stop at the comment:

| part of the impact | scanner | effect of the comment |
| --- | --- | --- |
| resources | calls | none |
| operators | operators | none |
| risk, options, `create` and `delete` | tokens | its words count |
| dependencies | commands | the programs behind its first operator count |

So a note can make a line look more dangerous than it is. `analyze_trailing_comment` says for each part
of the impact exactly which comments leave it as it was.
-/

import ScriptUpgrade.Proofs.ImpactParts
import ScriptUpgrade.Proofs.MigratedOptions

namespace ScriptUpgrade

/-- A text without quote characters and comment marks. -/
def IsUnmarked (front : Text) : Prop :=
  ∀ c ∈ front, Quote.isMark c = false ∧ c ≠ '#'

namespace IsUnmarked

variable {front : Text}

theorem of_subset {part : Text} (h : IsUnmarked front) (hpart : ∀ c ∈ part, c ∈ front) :
    IsUnmarked part :=
  fun c hc => h c (hpart c hc)

theorem hash_notMem (h : IsUnmarked front) : '#' ∉ front :=
  fun hmem => (h _ hmem).2 rfl

theorem run_eq_none (h : IsUnmarked front) : Quote.run none front = none :=
  Quote.run_eq_self Quote.isOpen_none fun c hc => (h c hc).1

theorem isOpen_eq_false (h : IsUnmarked front) : Token.isOpen front = false := by
  have hcount : front.count '"' = 0 :=
    List.count_eq_zero.2 fun hmem => absurd (h _ hmem).1 (by decide)
  rw [Token.isOpen, hcount]
  rfl

/-- The tokens of a comment follow those of the command. -/
theorem split_append (h : IsUnmarked front) (comment : Text) :
    Token.split (front ++ ' ' :: '#' :: comment) = Token.split front ++ Token.split ('#' :: comment) :=
  Token.split_append_blank h.isOpen_eq_false (by decide) _

end IsUnmarked

/-! ### Calls -/

namespace Call

/-- The first character of a command stays the first one. -/
theorem firstVisible_append {front : Text} {c : Char} (h : firstVisible front = some c) (back : Text) :
    firstVisible (front ++ back) = some c := by
  rw [firstVisible, List.find?_append]
  exact congrArg (Option.or · _) h

theorem isComment_eq_false_of_firstVisible {line : Text} {c : Char} (h : firstVisible line = some c)
    (hc : c ≠ '#') : isComment line = false := by
  rw [isComment_eq, h]
  simpa using hc

theorem isComment_append_comment {front : Text} (h : firstVisible front = none) (comment : Text) :
    isComment (front ++ ' ' :: '#' :: comment) = true := by
  rw [isComment_eq, firstVisible, List.find?_append]
  exact congrArg (Option.or · _ == some '#') h

theorem bodies_append_comment {keyword front : Text} (hkeyword : '#' ∉ keyword)
    (hfront : IsUnmarked front) {c : Char} (hvisible : firstVisible front = some c) (comment : Text) :
    bodies keyword (front ++ ' ' :: '#' :: comment) = bodies keyword front := by
  have hc : c ≠ '#' := (hfront c (List.mem_of_find?_eq_some hvisible)).2
  cases keyword with
  | nil => simp [bodies, dissect, Part.body?]
  | cons k ks =>
    have hline : isComment (front ++ ' ' :: '#' :: comment) = false :=
      isComment_eq_false_of_firstVisible (firstVisible_append hvisible _) hc
    have hmarks : ∀ c ∈ k :: ks, c ∈ front → Quote.isMark c = false := fun c _ hmem => (hfront c hmem).1
    have hnoted : (scan k ks (some ' ') none ('#' :: comment)).filterMap Part.body? = [] := by
      rw [scan, if_neg (by decide), if_pos (by decide)]
      simp [Part.body?]
    rw [bodies, bodies, dissect_cons hline, dissect_cons (isComment_eq_false_of_firstVisible hvisible hc),
      filterMap_scan_append (by decide) hkeyword hfront.hash_notMem hmarks hfront.run_eq_none, hnoted,
      List.append_nil]

end Call

namespace Impact

open Call

variable {keyword front : Text}

/-! ### Resources -/

/-- A call made of blanks acts on nothing. -/
theorem resource?_of_isBlank {call : Text} (h : ∀ c ∈ call, Text.isBlank c = true) :
    resource? call = none := by
  have hsplit : Token.split call = [] := by
    have := Token.split_append_of_isBlank h []
    rwa [List.append_nil, Token.split_nil] at this
  rw [resource?, hsplit]
  rfl

/-- **A comment leaves the resources as they are.** -/
theorem resourcesOf_append_comment (hkeyword : '#' ∉ keyword) (hfront : IsUnmarked front)
    (comment : Text) :
    resourcesOf keyword (front ++ ' ' :: '#' :: comment) = resourcesOf keyword front := by
  rw [resourcesOf_eq, resourcesOf_eq]
  cases hvisible : firstVisible front with
  | none =>
    -- The line is a comment as a whole, and a call in front of the mark would be made of blanks.
    have hblank : ∀ c ∈ front, Text.isBlank c = true := by
      simpa [firstVisible] using hvisible
    have hline : bodies keyword (front ++ ' ' :: '#' :: comment) = [] := by
      rw [bodies, dissect_of_isComment (isComment_append_comment hvisible comment)]
      simp [Part.body?]
    have hcalls : (bodies keyword front).filterMap (fun body => resource? (keyword ++ body)) = [] := by
      refine List.filterMap_eq_nil_iff.2 fun body hbody => resource?_of_isBlank fun c hc => ?_
      exact hblank c (Migration.mem_of_mem_call (mem_filterMap_body?.1 hbody) c hc)
    rw [hline, hcalls]
    rfl
  | some c => rw [bodies_append_comment hkeyword hfront hvisible]

/-! ### Dependencies -/

theorem programOf?_of_hash (token : Text) : programOf? ('#' :: token) = some ('#' :: token) := by
  unfold programOf? Text.cutAt?
  rw [if_neg (by decide : ¬ '#' = '=')]
  cases Text.cutAt? '=' token with
  | none => rfl
  | some parts => rfl

/-- A command that starts with a comment mark runs no program that counts. -/
theorem exists_program?_of_hash (text : Text) :
    ∃ program, program? ('#' :: text) = some ('#' :: program) := by
  have hblank : Text.isBlank '#' = false := by decide
  have hsplit : Token.split ('#' :: text) =
      ('#' :: (Token.read false text).1) :: Token.split (Token.read false text).2 := by
    rw [Token.split_cons_of_not_isBlank hblank,
      Token.resume_cons (by decide) fun h => by rw [hblank] at h; cases h]
    rfl
  refine ⟨(Token.read false text).1, ?_⟩
  rw [program?, hsplit, List.findSome?_cons_of_isSome, programOf?_of_hash]
  rw [programOf?_of_hash]
  rfl

theorem programsOf_last (keyword : Text) {last : Text} (hlast : IsUnmarked last) (text : Text) :
    programsOf keyword [last ++ ' ' :: '#' :: text] = programsOf keyword [last] := by
  obtain ⟨noted, hnoted⟩ := exists_program?_of_hash text
  have hprogram : program? (last ++ ' ' :: '#' :: text) = (program? last).or (some ('#' :: noted)) := by
    rw [← hnoted, program?, hlast.split_append, List.findSome?_append]
    rfl
  cases hmain : program? last with
  | some program => simp [programsOf, hprogram, hmain]
  | none => simp [programsOf, hprogram, hmain]

/-- **The programs behind the first operator of a comment count.** -/
theorem programsOf_append_comment (keyword : Text) (hfront : IsUnmarked front) (comment : Text) :
    programsOf keyword (commands none (front ++ ' ' :: '#' :: comment)) =
      programsOf keyword (commands none front) ++ programsOf keyword (commands none comment).tail := by
  have hback : ∀ c ∈ (' ' :: '#' :: comment).head?, endsCommand c = false := by
    intro c hc
    obtain rfl := Option.some.inj hc
    decide
  obtain ⟨init, last, first, rest, hcommands, hrest, hline⟩ := exists_commands_append none front hback
  obtain ⟨noted, others, hcomment⟩ := exists_cons_commands none comment
  have hlast : IsUnmarked last := hfront.of_subset fun c hc =>
    mem_of_mem_commands (hcommands ▸ List.mem_append_right init List.mem_cons_self) hc
  have hnoted : commands none (' ' :: '#' :: comment) = (' ' :: '#' :: noted) :: others := by
    rw [commands_cons, if_neg (by decide), commands_cons, if_neg (by decide)]
    exact congrArg (fun texts => extendFirst ' ' (extendFirst '#' texts)) hcomment
  rw [hfront.run_eq_none, hnoted] at hrest
  obtain ⟨rfl, rfl⟩ := List.cons_eq_cons.1 hrest
  calc programsOf keyword (commands none (front ++ ' ' :: '#' :: comment))
      = programsOf keyword (init ++ ([last ++ ' ' :: '#' :: noted] ++ others)) := by rw [hline]; rfl
    _ = programsOf keyword init ++ (programsOf keyword [last] ++ programsOf keyword others) := by
      rw [programsOf_append, programsOf_append, programsOf_last keyword hlast]
    _ = programsOf keyword (commands none front) ++ programsOf keyword (commands none comment).tail := by
      rw [hcommands, hcomment, programsOf_append, List.append_assoc, List.tail_cons]

/-! ### Complexity -/

/-- **A comment adds no operator.** -/
theorem operators_append_comment (hfront : IsUnmarked front) (comment : Text) :
    operators none none (front ++ ' ' :: '#' :: comment) = operators none none front := by
  have hback : ∀ c ∈ (' ' :: '#' :: comment).head?, c ≠ '|' ∧ c ≠ '&' := by
    intro c hc
    obtain rfl := Option.some.inj hc
    decide
  have hcomment : operators (lastOr none front) none (' ' :: '#' :: comment) = ⟨0, 0⟩ := by
    rw [operators_other (by decide) (by decide) (by decide) (fun h => absurd h (by decide)) (by decide),
      operators_cons, if_neg (by decide), if_pos (by decide)]
  rw [operators_append hfront.hash_notMem hback, hfront.run_eq_none, hcomment]
  rfl

/-- More tokens can only add the points for a word. -/
theorem exists_bonus {bonus : Nat} (hbonus : 0 < bonus) (word : Text) (left right : List Text) :
    ∃ extra, (if (left ++ right).contains word then bonus else 0) =
        (if left.contains word then bonus else 0) + extra ∧
      (extra = 0 ↔ (word ∈ right → word ∈ left)) := by
  by_cases hleft : word ∈ left
  · exact ⟨0, by simp [hleft], by simp [hleft]⟩
  · by_cases hright : word ∈ right
    · exact ⟨bonus, by simp [hleft, hright], by simp [hleft, hright, Nat.pos_iff_ne_zero.1 hbonus]⟩
    · exact ⟨0, by simp [hleft, hright], by simp [hright]⟩

theorem complexityOf_append_eq_iff {left right : List Text} {line line' : Text}
    (hoperators : operators none none line' = operators none none line) :
    complexityOf (left ++ right) line' = complexityOf left line ↔
      (∀ token ∈ right, token.head? ≠ some '-') ∧
        ("create".toList ∈ right → "create".toList ∈ left) ∧
          ("delete".toList ∈ right → "delete".toList ∈ left) := by
  have hdashed : (right.filter fun token => token.head? == some '-').length = 0 ↔
      ∀ token ∈ right, token.head? ≠ some '-' := by
    rw [List.length_eq_zero_iff, List.filter_eq_nil_iff]
    simp only [beq_iff_eq, ne_eq]
  obtain ⟨created, hcreated, hcreate⟩ := exists_bonus (by decide : 0 < 2) "create".toList left right
  obtain ⟨deleted, hdeleted, hdelete⟩ := exists_bonus (by decide : 0 < 3) "delete".toList left right
  unfold complexityOf
  dsimp only
  rw [hoperators, hcreated, hdeleted, List.filter_append, List.length_append, ← hdashed, ← hcreate,
    ← hdelete]
  omega

/-! ### The impact -/

/-- **What a comment behind a command does to its impact.** The resources stay. The risk stays if and only
if no word of the comment is more dangerous than the command; the complexity if and only if no word of the
comment starts with a dash and none is a first `create` or `delete`; the dependencies if and only if every
program behind the first operator of the comment is one of the command already. -/
theorem analyze_trailing_comment {keyword front : Text} (hkeyword : '#' ∉ keyword)
    (hfront : IsUnmarked front) (comment : Text) :
    let line := front ++ " #".toList ++ comment
    let tokens := (Token.split front).map Text.lower
    let noted := (Token.split ('#' :: comment)).map Text.lower
    (analyze keyword line).resources = (analyze keyword front).resources ∧
      ((analyze keyword line).risk = (analyze keyword front).risk ↔
        (riskOf noted).level ≤ (riskOf tokens).level) ∧
      ((analyze keyword line).complexity = (analyze keyword front).complexity ↔
        (∀ token ∈ noted, token.head? ≠ some '-') ∧
          ("create".toList ∈ noted → "create".toList ∈ tokens) ∧
            ("delete".toList ∈ noted → "delete".toList ∈ tokens)) ∧
      ((analyze keyword line).dependencies = (analyze keyword front).dependencies ↔
        ∀ program ∈ programsOf keyword (commands none comment).tail,
          program ∈ programsOf keyword (commands none front)) := by
  intro line tokens noted
  have hline : line = front ++ ' ' :: '#' :: comment := List.append_assoc ..
  have htokens : (Token.split line).map Text.lower = tokens ++ noted := by
    rw [hline, hfront.split_append, List.map_append]
  clear_value line
  subst hline
  unfold analyze
  simp only [htokens]
  refine ⟨resourcesOf_append_comment hkeyword hfront comment, ?_, ?_, ?_⟩
  · rw [riskOf_append]
    exact max_eq_left_iff _ _
  · exact complexityOf_append_eq_iff (operators_append_comment hfront comment)
  · rw [dependenciesOf_eq, dependenciesOf_eq, programsOf_append_comment keyword hfront]
    exact distinct_append_eq_iff

/-- A note on what was done before changes all but the resources, and a pointer to another call changes
nothing. -/
theorem analyze_trailing_comment_old_command :
    let keyword := "usacloud".toList
    let front := "usacloud server list".toList
    let line := front ++ " #".toList ++ " old: delete --force | jq .".toList
    ('#' ∉ keyword ∧ IsUnmarked front) ∧
      (analyze keyword line).resources = (analyze keyword front).resources ∧
      (analyze keyword line).risk ≠ (analyze keyword front).risk ∧
      (analyze keyword line).complexity ≠ (analyze keyword front).complexity ∧
      (analyze keyword line).dependencies ≠ (analyze keyword front).dependencies ∧
      analyze keyword (front ++ " #".toList ++ "see | usacloud".toList) = analyze keyword front := by
  intro keyword front line
  have hkeyword : '#' ∉ keyword := by decide
  have hfront : IsUnmarked front := by
    unfold IsUnmarked
    decide
  obtain ⟨hresources, hrisk, hcomplexity, hdependencies⟩ :=
    analyze_trailing_comment hkeyword hfront " old: delete --force | jq .".toList
  obtain ⟨hresources', hrisk', hcomplexity', hdependencies'⟩ :=
    analyze_trailing_comment hkeyword hfront "see | usacloud".toList
  refine ⟨⟨hkeyword, hfront⟩, hresources, mt hrisk.1 (by decide +kernel),
    mt hcomplexity.1 (by decide +kernel), mt hdependencies.1 (by decide +kernel), ?_⟩
  exact (Impact.mk.injEq ..).mpr ⟨hrisk'.2 (by decide +kernel), hcomplexity'.2 (by decide +kernel),
    hresources', hdependencies'.2 (by decide +kernel)⟩

end Impact
end ScriptUpgrade
