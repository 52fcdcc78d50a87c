/-
# The impact of a pipeline

Two texts with a pipe between them are read by four scanners, each with quotes and a look-ahead of its own. If
no quote is open at the joint, each of them takes the line apart there, whatever operators or blanks stand next
to it:

| scanner | what it finds in the line | statement |
| --- | --- | --- |
| tokens | those of the first stage, the pipe, those of the second | `IsStage.split_piped` |
| operators | those of both stages and one more pipe | `IsStage.operators_piped` |
| calls | those of both stages | `IsStage.bodies_piped` |
| commands | the programs of both stages | `IsStage.programsOf_piped` |

So the impact of the pipeline is that of its stages put together (`analyze_pipeline`): the greater risk, the
resources and dependencies of both, and the sum of the complexities, in which the points for `create` and
`delete` count once.
-/

import ScriptUpgrade.Proofs.ImpactParts

namespace ScriptUpgrade

/-- Two texts with a pipe between them. -/
def piped (left right : Text) : Text :=
  left ++ ' ' :: '|' :: ' ' :: right

/-- A text without single quotes and comment marks in which every double quote is closed. -/
structure IsStage (text : Text) : Prop where
  noSingle : '\'' ∉ text
  noHash : '#' ∉ text
  closed : text.count '"' % 2 = 0

/-- Where there are no single quotes, the double quotes decide. -/
theorem Quote.run_eq_of_no_single {text : Text} (h : '\'' ∉ text) :
    run none text = if Token.isOpen text then some '"' else none := by
  induction text using List.reverseRecOn with
  | nil => rfl
  | append_singleton text c ih =>
    rw [List.mem_append, List.mem_singleton, not_or] at h
    rw [run_append, ih h.1, Token.isOpen_snoc]
    by_cases hc : c = '"'
    · rw [hc]
      cases Token.isOpen text <;> rfl
    · have hmark : isMark c = false := by simp [isMark, hc, Ne.symm h.2]
      cases Token.isOpen text <;> simp [run, step, hc, hmark]

theorem Token.isOpen_eq_false_of_run {text : Text} (h : '\'' ∉ text) (hrun : Quote.run none text = none) :
    isOpen text = false := by
  rw [Quote.run_eq_of_no_single h] at hrun
  cases hopen : isOpen text with
  | false => rfl
  | true => simp [hopen] at hrun

namespace Impact

/-- The last command of a text ends with the quote that is open at the end of the text. -/
theorem exists_last_command (quote : Quote.State) (text : Text) :
    ∃ init last, commands quote text = init ++ [last] ∧
      Quote.run (if init = [] then quote else none) last = Quote.run quote text := by
  fun_induction commands quote text with
  | case1 quote => exact ⟨[], [], rfl, rfl⟩
  | case2 quote c text hends ih =>
    obtain ⟨init, last, hcommands, hrun⟩ := ih
    obtain ⟨rfl, hc⟩ : quote = none ∧ endsCommand c = true := by simpa using hends
    refine ⟨[] :: init, last, by rw [hcommands]; rfl, ?_⟩
    rw [ite_self, run_none_dropWhile] at hrun
    · rw [ite_self, hrun, Quote.run_none_cons (isMark_of_endsCommand hc)]
    · intro d hd
      exact isMark_of_endsCommand (by rwa [beq_iff_eq.1 hd])
  | case3 quote c text hends ih =>
    obtain ⟨init, last, hcommands, hrun⟩ := ih
    rw [hcommands]
    cases init with
    | nil => exact ⟨[], c :: last, rfl, hrun⟩
    | cons command init => exact ⟨(c :: command) :: init, last, rfl, hrun⟩

/-- Nothing but the chance of a comment is seen of what stands in front of a text. -/
theorem operators_congr {before before' : Option Char} (h : commentFollows before = commentFollows before')
    (quote : Quote.State) (text : Text) : operators before quote text = operators before' quote text := by
  cases text with
  | nil => rfl
  | cons c text => rw [operators_cons, operators_cons, h]

/-! ### Texts without repetition -/

theorem distinct_append_distinct (left right : List Text) :
    distinct (left ++ distinct right) = distinct (left ++ right) := by
  induction right using List.reverseRecOn with
  | nil => rfl
  | append_singleton right last ih =>
    have hmem : last ∈ distinct right → last ∈ distinct (left ++ right) := fun h =>
      mem_distinct.2 (List.mem_append_right left (mem_distinct.1 h))
    rw [distinct_snoc, ← List.append_assoc, distinct_snoc]
    split
    · rename_i hlast
      rw [if_pos (hmem hlast), ih]
    · rw [← List.append_assoc, distinct_snoc, ih]

/-- **Repetitions may be dropped before or after texts are put together.** -/
theorem distinct_distinct_append (left right : List Text) :
    distinct (distinct left ++ distinct right) = distinct (left ++ right) := by
  rw [distinct_append_distinct]
  induction right using List.reverseRecOn with
  | nil =>
    rw [List.append_nil, List.append_nil]
    exact distinct_append_distinct [] left
  | append_singleton right last ih =>
    rw [← List.append_assoc, ← List.append_assoc, distinct_snoc, distinct_snoc, ih]

end Impact

namespace Call

theorem isComment_eq_false_of_no_hash {line : Text} (h : '#' ∉ line) : isComment line = false := by
  rw [isComment_eq, beq_eq_false_iff_ne]
  exact fun hfirst => h (List.mem_of_find?_eq_some hfirst)

end Call

/-! ### Two stages -/

namespace IsStage

variable {keyword left right : Text}

theorem isOpen_eq_false (h : IsStage left) : Token.isOpen left = false := by
  rw [Token.isOpen, h.closed]
  rfl

theorem run_eq_none (h : IsStage left) : Quote.run none left = none := by
  rw [Quote.run_eq_of_no_single h.noSingle, h.isOpen_eq_false]
  rfl

theorem split_piped (hleft : IsStage left) (right : Text) :
    Token.split (piped left right) = Token.split left ++ ['|'] :: Token.split right := by
  have hpipe : Token.split (['|'] ++ ' ' :: right) = ['|'] :: Token.split right := by
    rw [Token.split_word ⟨by simp, by decide⟩ (by simp; decide), Token.split_cons_of_isBlank (by decide)]
  rw [piped, Token.split_append_blank hleft.isOpen_eq_false (by decide)]
  exact congrArg (Token.split left ++ ·) hpipe

theorem operators_piped (hleft : IsStage left) (right : Text) :
    Impact.operators none none (piped left right) =
      ((Impact.operators none none left).add (Impact.operators none none right)).pipe := by
  have hback : ∀ c ∈ (' ' :: '|' :: ' ' :: right).head?, c ≠ '|' ∧ c ≠ '&' := by
    intro c hc
    obtain rfl := Option.some.inj hc
    decide
  have hspace : ∀ before text, Impact.operators before none (' ' :: text) =
      Impact.operators (some ' ') none text := fun before text =>
    Impact.operators_other (by decide) (by decide) (by decide) (fun h => absurd h (by decide)) (by decide)
  have hfirst : Impact.operators (some ' ') none right = Impact.operators none none right :=
    Impact.operators_congr (by rfl) none right
  rw [piped, Impact.operators_append hleft.noHash hback, hleft.run_eq_none, hspace,
    Impact.operators_pipe (by simp), hspace, hfirst]
  rfl

theorem bodies_piped (hkeyword : ∀ c ∈ keyword, c ∉ [' ', '|', '"', '\''])
    (hleft : IsStage left) (hright : IsStage right) :
    Call.bodies keyword (piped left right) =
      Call.bodies keyword left ++ Call.bodies keyword right := by
  cases keyword with
  | nil => simp [Call.bodies, Call.dissect, Call.Part.body?, Function.comp_def]
  | cons k ks =>
    have hmarks : ∀ c ∈ k :: ks, c ∈ left → Quote.isMark c = false := by
      intro c hc _
      have := hkeyword c hc
      simp_all [Quote.isMark]
    have hpipe : '|' ∉ k :: ks := fun hmem => hkeyword _ hmem (by decide)
    have hpass : ∀ c ∈ [' ', '|'], ∀ before text, Call.scan k ks before none (c :: text) =
        .outside c :: Call.scan k ks (some c) none text := by
      intro c hc before text
      have hnoMark : ∀ c ∈ [' ', '|'], Quote.isMark c = false ∧ c ≠ '#' ∧ c ∈ [' ', '|', '"', '\''] := by
        decide
      obtain ⟨hmark, hhash, hmem⟩ := hnoMark c hc
      refine Call.scan_outside hmark (by simp [hhash]) fun h => absurd hmem (hkeyword c ?_)
      rw [beq_iff_eq.1 (Bool.and_eq_true_iff.1 h).2]
      exact List.mem_cons_self
    have hline : '#' ∉ piped left right := by simp [piped, hleft.noHash, hright.noHash]
    rw [Call.bodies, Call.bodies, Call.bodies, Call.dissect_cons (Call.isComment_eq_false_of_no_hash hline),
      Call.dissect_cons (Call.isComment_eq_false_of_no_hash hleft.noHash),
      Call.dissect_cons (Call.isComment_eq_false_of_no_hash hright.noHash), piped,
      Call.filterMap_scan_append (by decide) hpipe hleft.noHash hmarks hleft.run_eq_none,
      hpass '|' (by decide), hpass ' ' (by decide),
      Call.scan_congr (⟨rfl, rfl⟩ : Call.Alike (some ' ') none)]
    rfl

/-- The commands at the joint are the last one of the first stage and the first one of the second, each with
a blank that separates nothing. -/
theorem programsOf_piped (keyword : Text) (hleft : IsStage left) (right : Text) :
    Impact.programsOf keyword (Impact.commands none (piped left right)) =
      Impact.programsOf keyword (Impact.commands none left) ++
        Impact.programsOf keyword (Impact.commands none right) := by
  have hback : ∀ c ∈ (' ' :: '|' :: ' ' :: right).head?, Impact.endsCommand c = false := by
    intro c hc
    obtain rfl := Option.some.inj hc
    decide
  obtain ⟨init, last, first, rest, hcommands, hrest, hline⟩ :=
    Impact.exists_commands_append none left hback
  obtain ⟨head, tail, hright⟩ := Impact.exists_cons_commands none right
  have hjoint : Impact.commands none (' ' :: '|' :: ' ' :: right) = [' '] :: (' ' :: head) :: tail := by
    rw [Impact.commands_cons, if_neg (by decide), Impact.commands_cons, if_pos (by decide),
      List.dropWhile_cons_of_neg (by decide), Impact.commands_cons, if_neg (by decide)]
    exact congrArg (fun texts => [' '] :: Impact.extendFirst ' ' texts) hright
  rw [hleft.run_eq_none, hjoint] at hrest
  obtain ⟨rfl, rfl⟩ := List.cons_eq_cons.1 hrest
  have hlast : Token.isOpen last = false := by
    obtain ⟨init', last', hcommands', hrun⟩ := Impact.exists_last_command none left
    obtain ⟨rfl, hsame⟩ := List.append_inj' (hcommands.symm.trans hcommands') rfl
    obtain rfl := List.singleton_inj.1 hsame
    rw [ite_self, hleft.run_eq_none] at hrun
    refine Token.isOpen_eq_false_of_run (fun hmem => hleft.noSingle ?_) hrun
    exact Impact.mem_of_mem_commands (hcommands ▸ List.mem_append_right init List.mem_cons_self) hmem
  have hleftProgram : Impact.program? (last ++ [' ']) = Impact.program? last := by
    rw [Impact.program?, Token.split_append_blank hlast (by decide), Token.split_nil, List.append_nil]
    rfl
  have hrightProgram : Impact.program? (' ' :: head) = Impact.program? head := by
    rw [Impact.program?, Token.split_cons_of_isBlank (by decide)]
    rfl
  have hone : ∀ {command command' : Text}, Impact.program? command = Impact.program? command' →
      Impact.programsOf keyword [command] = Impact.programsOf keyword [command'] := by
    intro command command' h
    simp only [Impact.programsOf, List.filterMap_cons, h]
  calc Impact.programsOf keyword (Impact.commands none (piped left right))
      = Impact.programsOf keyword (init ++ ([last ++ [' ']] ++ ([' ' :: head] ++ tail))) := by
        rw [piped, hline]
        rfl
    _ = Impact.programsOf keyword init ++ (Impact.programsOf keyword [last] ++
        (Impact.programsOf keyword [head] ++ Impact.programsOf keyword tail)) := by
      rw [Impact.programsOf_append, Impact.programsOf_append, Impact.programsOf_append,
        hone hleftProgram, hone hrightProgram]
    _ = Impact.programsOf keyword (Impact.commands none left) ++
        Impact.programsOf keyword (Impact.commands none right) := by
      rw [hcommands, hright, Impact.programsOf_append, List.append_assoc,
        ← Impact.programsOf_append keyword [head] tail]
      rfl

end IsStage

/-! ### The impact -/

namespace Impact

/-- Points for a word count once where two texts have it. -/
theorem bonus_append {word mark : Text} (hmark : word ≠ mark) (bonus : Nat) (left right : List Text) :
    (if (left ++ mark :: right).contains word then bonus else 0) +
        (if word ∈ left ∧ word ∈ right then bonus else 0) =
      (if left.contains word then bonus else 0) + (if right.contains word then bonus else 0) := by
  by_cases hleft : word ∈ left <;> by_cases hright : word ∈ right <;> simp [hleft, hright, hmark]

/-- The tokens of a text in lower case. -/
def wordsOf (text : Text) : List Text :=
  (Token.split text).map Text.lower

theorem wordsOf_piped {left : Text} (hleft : IsStage left) (right : Text) :
    wordsOf (piped left right) = wordsOf left ++ ['|'] :: wordsOf right := by
  rw [wordsOf, hleft.split_piped, List.map_append, List.map_cons]
  rfl

theorem riskOf_piped (left right : List Text) :
    riskOf (left ++ ['|'] :: right) = (riskOf left).max (riskOf right) := by
  have hpipe : riskOf (['|'] :: right) = riskOf right := by
    rw [← List.singleton_append, riskOf_append]
    cases riskOf right <;> decide
  rw [riskOf_append, hpipe]

theorem complexityOf_piped {left : Text} (hleft : IsStage left) (right : Text) :
    complexityOf (wordsOf (piped left right)) (piped left right) +
        (if "create".toList ∈ wordsOf left ∧ "create".toList ∈ wordsOf right then 2 else 0) +
        (if "delete".toList ∈ wordsOf left ∧ "delete".toList ∈ wordsOf right then 3 else 0) =
      complexityOf (wordsOf left) left + complexityOf (wordsOf right) right := by
  have hcreate := bonus_append (by decide : "create".toList ≠ ['|']) 2 (wordsOf left) (wordsOf right)
  have hdelete := bonus_append (by decide : "delete".toList ≠ ['|']) 3 (wordsOf left) (wordsOf right)
  have hdashed : (wordsOf left ++ ['|'] :: wordsOf right).filter (fun token => token.head? == some '-') =
      (wordsOf left).filter (fun token => token.head? == some '-') ++
        (wordsOf right).filter fun token => token.head? == some '-' := by
    rw [List.filter_append, List.filter_cons_of_neg (by decide)]
  rw [wordsOf_piped hleft]
  unfold complexityOf
  dsimp only
  rw [hleft.operators_piped, hdashed, List.length_append]
  dsimp only [Operators.pipe, Operators.add]
  omega

/-- **The impact of a pipeline is that of its stages.** The risk is the greater one, resources and
dependencies are those of the first stage followed by those of the second without repetition, and the
complexities add up, except that the points for `create` and for `delete` are given once. -/
theorem analyze_pipeline {keyword left right : Text}
    (hkeyword : ∀ c ∈ keyword, c ∉ [' ', '|', '"', '\'']) (hleft : IsStage left)
    (hright : IsStage right) :
    let line := left ++ " | ".toList ++ right
    (analyze keyword line).risk = (analyze keyword left).risk.max (analyze keyword right).risk ∧
      IsDistinct ((analyze keyword left).resources ++ (analyze keyword right).resources)
        (analyze keyword line).resources ∧
      IsDistinct ((analyze keyword left).dependencies ++ (analyze keyword right).dependencies)
        (analyze keyword line).dependencies ∧
      (analyze keyword line).complexity +
          (if "create".toList ∈ wordsOf left ∧ "create".toList ∈ wordsOf right then 2 else 0) +
          (if "delete".toList ∈ wordsOf left ∧ "delete".toList ∈ wordsOf right then 3 else 0) =
        (analyze keyword left).complexity + (analyze keyword right).complexity := by
  intro line
  have hline : line = piped left right := List.append_assoc ..
  clear_value line
  subst hline
  refine ⟨?_, ?_, ?_, complexityOf_piped hleft right⟩
  · change riskOf (wordsOf (piped left right)) = _
    rw [wordsOf_piped hleft]
    exact riskOf_piped _ _
  · have hresources : (analyze keyword (piped left right)).resources =
        distinct ((analyze keyword left).resources ++ (analyze keyword right).resources) := by
      change resourcesOf _ _ = distinct (resourcesOf _ _ ++ resourcesOf _ _)
      rw [resourcesOf_eq, resourcesOf_eq, resourcesOf_eq, distinct_distinct_append,
        IsStage.bodies_piped hkeyword hleft hright, List.filterMap_append]
    rw [hresources]
    exact isDistinct_distinct _
  · have hdependencies : (analyze keyword (piped left right)).dependencies =
        distinct ((analyze keyword left).dependencies ++ (analyze keyword right).dependencies) := by
      change dependenciesOf _ _ = distinct (dependenciesOf _ _ ++ dependenciesOf _ _)
      rw [dependenciesOf_eq, dependenciesOf_eq, dependenciesOf_eq, distinct_distinct_append,
        hleft.programsOf_piped]
    rw [hdependencies]
    exact isDistinct_distinct _

/-- A stage that ends with an operator, one that starts with one, a pipe inside quotes, and a word that both
stages have. -/
theorem analyze_pipeline_operators_at_joint :
    let keyword := "usacloud".toList
    let left := "usacloud server create \"a | b\" && jq . ;".toList
    let right := "&usacloud disk delete x|usacloud server create -y | jq".toList
    let line := left ++ " | ".toList ++ right
    ((∀ c ∈ keyword, c ∉ [' ', '|', '"', '\'']) ∧ IsStage left ∧ IsStage right) ∧
      (analyze keyword line).risk = .critical ∧
      IsDistinct ["server".toList, "disk".toList, "server".toList] (analyze keyword line).resources ∧
      IsDistinct ["jq".toList, "jq".toList] (analyze keyword line).dependencies ∧
      (analyze keyword line).complexity + 2 =
        (analyze keyword left).complexity + (analyze keyword right).complexity := by
  intro keyword left right line
  have hkeyword : ∀ c ∈ keyword, c ∉ [' ', '|', '"', '\''] := by decide
  have hleft : IsStage left := ⟨by decide, by decide, by decide⟩
  have hright : IsStage right := ⟨by decide, by decide, by decide⟩
  obtain ⟨hrisk, hresources, hdependencies, hcomplexity⟩ := analyze_pipeline hkeyword hleft hright
  have hlists : (analyze keyword left).resources ++ (analyze keyword right).resources =
        ["server".toList, "disk".toList, "server".toList] ∧
      (analyze keyword left).dependencies ++ (analyze keyword right).dependencies =
        ["jq".toList, "jq".toList] := by
    decide +kernel
  rw [hlists.1] at hresources
  rw [hlists.2] at hdependencies
  rw [if_pos (by decide +kernel), if_neg (by decide +kernel)] at hcomplexity
  exact ⟨⟨hkeyword, hleft, hright⟩, hrisk.trans (by decide +kernel), hresources, hdependencies, hcomplexity⟩

end Impact
end ScriptUpgrade
