/-
# Quoted text stays

The rules about options look for quotes only where a match starts. That is enough: a match that starts
outside quotes has no quote character in it, or it is a selector whose value is in quotes, and then it ends
with the mark that closes them (`Passes`). Between its marks the value may have marks of the other kind.

So a pass cuts no quoted span in two. Read again, the body has the same quoted spans in the same order, and
each holds the same text, but for the value of a selector, which may have lost its label
(`quoted_text_stays`).
-/

import Mathlib.Data.List.Forall2
import ScriptUpgrade.Proofs.QuotedSpans
import ScriptUpgrade.Proofs.Selection

namespace ScriptUpgrade
namespace Migration

open Fragment
open Quote (isMark Covers spans spansFrom closing spansFrom_of_isMark spansFrom_of_not_isMark
  spansFrom_plain_append spansFrom_quoted_append)

/-- The rules that look for legacy options. -/
def optionRules : List Rule :=
  [selectorRule, outputRule, zoneRule]

/-- A text ends with a quoted value: marks of one kind with none of that kind between them, and no quote
character in front of them. -/
def EndsQuoted (text : Text) : Prop :=
  ∃ name mark inside, text = name ++ (mark :: inside ++ [mark]) ∧ (∀ c ∈ name, isMark c = false) ∧
    isMark mark = true ∧ mark ∉ inside

/-- How what a rule replaces stands to quotes: there is no quote character in it, or it is a selector with a
quoted value, and the value stays, with or without its label. -/
inductive Passes (rule : Rule) : (old new : Text) → Prop
  | plain {old new : Text} (hold : ∀ c ∈ old, isMark c = false) (hnew : ∀ c ∈ new, isMark c = false) :
      Passes rule old new
  | quoted {name inside kept : Text} {mark : Char} (hrule : rule = selectorRule)
      (hname : ∀ c ∈ name, isMark c = false) (hmark : isMark mark = true) (hinside : mark ∉ inside)
      (hkept : DropsLabel inside kept) :
      Passes rule (name ++ (mark :: inside ++ [mark])) (mark :: kept ++ [mark])

/-- What a rule replaces to the right of `front`: an option outside quotes. -/
structure Spares (rule : Rule) (front old new : Text) : Prop where
  outside : Quote.run none front = none
  dash : old.head? = some '-'
  passes : Passes rule old new

theorem DropsLabel.subset {inside kept : Text} (h : DropsLabel inside kept) : ∀ c ∈ kept, c ∈ inside := by
  obtain ⟨label, rfl⟩ := h.suffix
  exact fun c hc => List.mem_append_right _ hc

theorem Taken.passes_selector {front old new rest : Text} (h : Taken selector? front old new rest) :
    Passes selectorRule old new := by
  obtain ⟨lead, taken, value, rest', hlead, hvalue, -, hhit⟩ := selector?_shape h.hit
  simp only [Hit.mk.injEq, Option.some.injEq] at hhit
  obtain ⟨rfl, rfl⟩ := hhit
  have hname := isMark_eq_false_of_selector hlead
  cases hvalue with
  | quoted rest hmark hinside hkept => exact .quoted rfl hname hmark hinside hkept
  | bare htaken hrest hvalue hkept =>
    have hbare : ∀ c ∈ taken, isMark c = false := fun c hc => isMark_eq_false_of_isBare (htaken c hc)
    refine .plain (fun c hc => ?_) fun c hc => hbare c (hkept.subset c hc)
    rcases List.mem_append.1 hc with hc | hc
    · exact hname c hc
    · exact hbare c hc

/-- **What the rules about options replace spares quoted text.** -/
theorem each_spares {rule : Rule} (hrule : rule ∈ optionRules) (body : Text) :
    Each (fun front old new _ => Spares rule front old new) [] (rule.fragments body) := by
  have hplain : ∀ {hit? : Text → Option Hit}, IsPlainPattern hit? →
      Each (fun front old new _ => Spares rule front old new) [] (optionFragments hit? none none body) :=
    fun hpattern => (each_taken hpattern.toAnchored body).mono fun _ _ _ _ h =>
      ⟨h.outside, hpattern.dash h.hit, .plain (hpattern.swap h).old.noMark (hpattern.swap h).new.noMark⟩
  simp only [optionRules, List.mem_cons, List.not_mem_nil, or_false] at hrule
  rcases hrule with rfl | rfl | rfl
  · exact (each_taken anchored_selector? body).mono fun _ _ _ _ h =>
      ⟨h.outside, anchored_selector?.dash h.hit, h.passes_selector⟩
  · exact hplain isPlainPattern_outputType?
  · exact hplain isPlainPattern_zone?

/-- An edit replaces a selector whose value was in quotes by the value, which was a quoted span of its own
and has lost its label. -/
def LosesLabel (edit : Edit) (before after : Stretch) : Prop :=
  ∃ name label kept mark, label ∈ selectorLabels ∧ isMark mark = true ∧
    before.text = mark :: (label ++ kept) ++ [mark] ∧ after.text = mark :: kept ++ [mark] ∧
    edit.before = name ++ before.text ∧ edit.after = after.text ∧
    before.span = ⟨edit.span.start + Text.size name, edit.span.stop⟩

/-- What becomes of a quoted span: it stays what it is, or it loses its label. -/
def Stays (rule : Rule) (edits : List Edit) (before after : Stretch) : Prop :=
  after.text = before.text ∨ rule = selectorRule ∧ ∃ edit ∈ edits, LosesLabel edit before after

theorem Stays.mono {rule : Rule} {edits more : List Edit} (h : ∀ edit ∈ edits, edit ∈ more)
    {before after : Stretch} (hstays : Stays rule edits before after) : Stays rule more before after := by
  rcases hstays with hsame | ⟨hrule, edit, hmem, hloses⟩
  · exact .inl hsame
  · exact .inr ⟨hrule, edit, h edit hmem, hloses⟩

theorem run_snoc {front : Text} {state : Quote.State} (h : Quote.run none front = state) (c : Char) :
    Quote.run none (front ++ [c]) = Quote.step state c := by
  rw [Quote.run_append, h]
  rfl

/-- Nothing is replaced up to the end of a quote that is open. -/
theorem exists_keep_closing {front : Text} {mark : Char} {fragments : List Fragment}
    (h : Each (fun front _ _ _ => Quote.run none front = none) front fragments)
    (hopen : Quote.run none front = some mark) :
    ∃ inside rest, fragments = keep inside ++ rest ∧
      closing mark (oldText fragments) = (inside, oldText rest) ∧
      closing mark (newText fragments) = (inside, newText rest) ∧
      (Quote.run none (front ++ inside) = none ∨ rest = []) := by
  induction fragments generalizing front with
  | nil => exact ⟨[], [], rfl, rfl, rfl, .inr rfl⟩
  | cons fragment fragments ih =>
    cases fragment with
    | kept c =>
      have hstep := run_snoc hopen c
      by_cases hc : c = mark
      · refine ⟨[c], fragments, rfl, ?_, ?_, .inl ?_⟩
        · rw [oldText_kept, closing, if_pos hc]
        · rw [newText_kept, closing, if_pos hc]
        · rw [hstep, Quote.step, if_pos hc]
      · obtain ⟨inside, rest, rfl, hold, hnew, hend⟩ := ih h (by rw [hstep, Quote.step, if_neg hc])
        refine ⟨c :: inside, rest, rfl, ?_, ?_, ?_⟩
        · rw [oldText_kept, closing, if_neg hc, hold]
        · rw [newText_kept, closing, if_neg hc, hnew]
        · rwa [List.append_assoc, List.singleton_append] at hend
    | replaced old new =>
      rw [h.1] at hopen
      cases hopen

/-- Behind what is replaced no quote is open. -/
theorem Spares.run_append {rule : Rule} {front old new : Text} (h : Spares rule front old new) :
    Quote.run none (front ++ old) = none := by
  rw [Quote.run_append, h.outside]
  cases h.passes with
  | plain hold _ => exact Quote.run_eq_self Quote.isOpen_none hold
  | quoted _ hname hmark hinside _ =>
    rw [Quote.run_append, Quote.run_eq_self Quote.isOpen_none hname, Quote.run_closed hmark hinside]

/-- Quoted spans stay across one replaced stretch, if they do behind it. -/
theorem Passes.forall₂_spansFrom {rule : Rule} {old new : Text} (h : Passes rule old new)
    {fragments : List Fragment} {start start' : Nat}
    (hrest : ∀ start', List.Forall₂ (Stays rule (editsFrom (start + Text.size old) fragments))
      (spansFrom (start + Text.size old) (oldText fragments)) (spansFrom start' (newText fragments))) :
    List.Forall₂ (Stays rule (editsFrom start (.replaced old new :: fragments)))
      (spansFrom start (oldText (.replaced old new :: fragments)))
      (spansFrom start' (newText (.replaced old new :: fragments))) := by
  have hstays : ∀ {before after : Stretch},
      Stays rule (editsFrom (start + Text.size old) fragments) before after →
        Stays rule (editsFrom start (.replaced old new :: fragments)) before after :=
    Stays.mono fun _ => List.mem_cons_of_mem _
  rw [oldText_replaced, newText_replaced]
  cases h with
  | plain hold hnew =>
    rw [spansFrom_plain_append hold, spansFrom_plain_append hnew]
    exact (hrest _).imp fun _ _ => hstays
  | @quoted name inside kept mark hrule hname hmark hinside hkept =>
    have hkept' : mark ∉ kept := fun hmem => hinside (hkept.subset mark hmem)
    rw [List.append_assoc, spansFrom_plain_append hname, spansFrom_quoted_append hmark hinside,
      spansFrom_quoted_append hmark hkept', Nat.add_assoc, ← Text.size_append]
    refine .cons ?_ ((hrest _).imp fun _ _ => hstays)
    rcases hkept with rfl | ⟨label, hlabel, rfl⟩
    · exact .inl rfl
    · refine .inr ⟨hrule, _, List.mem_cons_self, name, label, kept, mark, hlabel, hmark, rfl, rfl, rfl, rfl, ?_⟩
      simp only [Stretch.starting, Text.size_append, Nat.add_assoc]

/-- **Quoted spans stay, in order.** The texts before and after a pass are read from any two offsets. -/
theorem forall₂_spansFrom {rule : Rule} {front : Text} {fragments : List Fragment}
    (h : Each (fun front old new _ => Spares rule front old new) front fragments)
    (hfront : Quote.run none front = none) (start start' : Nat) :
    List.Forall₂ (Stays rule (editsFrom start fragments)) (spansFrom start (oldText fragments))
      (spansFrom start' (newText fragments)) := by
  -- a quoted span is passed in one step, so the induction is on the number of fragments
  induction hlength : fragments.length using Nat.strong_induction_on
    generalizing front fragments start start' with
  | _ length ih =>
  subst hlength
  cases fragments with
  | nil =>
    simp only [oldText_nil, newText_nil, spansFrom]
    exact .nil
  | cons fragment fragments =>
    cases fragment with
    | kept c =>
      have hrest : Each (fun front old new _ => Spares rule front old new) (front ++ [c]) fragments := h
      have hstep := run_snoc hfront c
      rw [oldText_kept, newText_kept]
      cases hc : isMark c with
      | false =>
        have hclosed : Quote.run none (front ++ [c]) = none := by simp [hstep, Quote.step, hc]
        rw [spansFrom_of_not_isMark hc, spansFrom_of_not_isMark hc]
        exact ih fragments.length (by simp) hrest hclosed _ _ rfl
      | true =>
        have hopen : Quote.run none (front ++ [c]) = some c := by simp [hstep, Quote.step, hc]
        obtain ⟨inside, rest, rfl, hold, hnew, hend⟩ :=
          exists_keep_closing (hrest.mono fun _ _ _ _ hspares => hspares.outside) hopen
        rw [spansFrom_of_isMark hc, spansFrom_of_isMark hc, hold, hnew]
        refine .cons (.inl rfl) ?_
        rcases hend with hend | rfl
        · have hshorter : rest.length < (.kept c :: (keep inside ++ rest) : List Fragment).length := by
            rw [List.length_cons, List.length_append]
            omega
          rw [editsFrom, editsFrom_keep_append, Nat.add_assoc]
          exact ih rest.length hshorter ((each_keep_append _ _ _).1 hrest) hend _ _ rfl
        · simp only [oldText_nil, newText_nil, spansFrom]
          exact .nil
    | replaced old new =>
      obtain ⟨hspares, hrest⟩ := h
      exact hspares.passes.forall₂_spansFrom fun start' =>
        ih fragments.length (by simp) hrest hspares.run_append (start + Text.size old) start' rfl

/-- An edit of a rule about options stands outside quotes. -/
theorem spares_of_mem_edits {rule : Rule} (hrule : rule ∈ optionRules) {body : Text} {edit : Edit}
    (hedit : edit ∈ edits (rule.fragments body)) :
    ¬ Covers body edit.span.start ∧ Passes rule edit.before edit.after := by
  obtain ⟨left, right, hfragments, hspan⟩ := exists_of_mem_editsFrom hedit
  have heach := each_spares hrule body
  rw [hfragments] at heach
  have hspares := heach.at_replaced
  rw [List.nil_append] at hspares
  refine ⟨?_, hspares.passes⟩
  obtain ⟨more, hmore⟩ := List.head?_eq_some_iff.1 hspares.dash
  have hbody : body = oldText left ++ '-' :: (more ++ oldText right) := by
    rw [← oldText_ruleFragments rule body, hfragments, oldText_append, oldText_replaced, hmore,
      List.cons_append]
  rw [hspan, Nat.zero_add, hbody, Quote.covers_iff, hspares.outside]
  decide

/-- **The rules about options leave quoted text alone.** Every edit starts outside quotes, and it takes up
no quote character unless it ends with the quoted value of a selector. Afterwards the same quoted spans are
read in the same order, but for values of selectors that lose their labels. -/
theorem quoted_text_stays {rule : Rule} (hrule : rule ∈ optionRules) (body : Text) :
    (∀ edit ∈ edits (rule.fragments body), ¬ Covers body edit.span.start ∧
      ((∀ c ∈ edit.before, isMark c = false) ∨ rule = selectorRule ∧ EndsQuoted edit.before)) ∧
    List.Forall₂ (Stays rule (edits (rule.fragments body))) (spans body) (spans (rule.rewrite body)) := by
  constructor
  · intro edit hedit
    obtain ⟨houtside, hpasses⟩ := spares_of_mem_edits hrule hedit
    refine ⟨houtside, ?_⟩
    generalize edit.before = old at hpasses
    generalize edit.after = new at hpasses
    cases hpasses with
    | plain hold _ => exact .inl hold
    | quoted hselector hname hmark hinside _ =>
      exact .inr ⟨hselector, _, _, _, rfl, hname, hmark, hinside⟩
  · have h := forall₂_spansFrom (each_spares hrule body) rfl 0 0
    rwa [oldText_ruleFragments] at h

/-- A selector in quotes, a selector whose value has a label and a mark of the other kind, and a quote that
is never closed. -/
def quotingBody : Text :=
  " read 'é --selector x' --selector=\"name=it's\" 'open".toList

theorem quoted_text_stays_selector :
    selectorRule ∈ optionRules ∧
    edits (selectorRule.fragments quotingBody) =
      [⟨⟨24, 46⟩, "--selector=\"name=it's\"".toList, "\"it's\"".toList⟩] ∧
    ¬ Covers quotingBody 24 ∧
    List.Forall₂ (Stays selectorRule (edits (selectorRule.fragments quotingBody)))
      [.starting 6 "'é --selector x'".toList, .starting 35 "\"name=it's\"".toList,
        .starting 47 "'open".toList]
      [.starting 6 "'é --selector x'".toList, .starting 24 "\"it's\"".toList,
        .starting 31 "'open".toList] := by
  have hrule : selectorRule ∈ optionRules := List.mem_cons_self
  have hedits : edits (selectorRule.fragments quotingBody) =
      [⟨⟨24, 46⟩, "--selector=\"name=it's\"".toList, "\"it's\"".toList⟩] := by
    decide +kernel
  have hbefore : spans quotingBody =
      [.starting 6 "'é --selector x'".toList, .starting 35 "\"name=it's\"".toList,
        .starting 47 "'open".toList] := by
    decide +kernel
  have hafter : spans (selectorRule.rewrite quotingBody) =
      [.starting 6 "'é --selector x'".toList, .starting 24 "\"it's\"".toList,
        .starting 31 "'open".toList] := by
    decide +kernel
  obtain ⟨hedit, hspans⟩ := quoted_text_stays hrule quotingBody
  rw [hedits] at hedit
  rw [hbefore, hafter] at hspans
  exact ⟨hrule, hedits, (hedit _ List.mem_cons_self).1, hspans⟩

/-- A match may hold more quote characters than the pair around its value: those of the other kind between
them. -/
theorem selector_holds_foreign_mark :
    ¬ ∀ body, ∀ edit ∈ edits (selectorRule.fragments body),
      (∀ c ∈ edit.before, isMark c = false) ∨
        ∃ name mark inside, edit.before = name ++ (mark :: inside ++ [mark]) ∧ isMark mark = true ∧
          ∀ c ∈ name ++ inside, isMark c = false := by
  intro h
  have hedits : edits (selectorRule.fragments " read --selector \"it's\"".toList) =
      [⟨⟨6, 23⟩, "--selector \"it's\"".toList, "\"it's\"".toList⟩] := by
    decide +kernel
  have hmem : ⟨⟨6, 23⟩, "--selector \"it's\"".toList, "\"it's\"".toList⟩ ∈
      edits (selectorRule.fragments " read --selector \"it's\"".toList) := by
    rw [hedits]
    exact List.mem_cons_self
  -- the match has three marks, where the two sides allow none or two
  have hcount : "--selector \"it's\"".toList.countP isMark = 3 := by decide +kernel
  rcases h _ _ hmem with hnone | ⟨name, mark, inside, hold, hmark, hplain⟩
  · rw [List.countP_eq_zero.2 fun c hc => by simp [hnone c hc]] at hcount
    cases hcount
  · have hname : name.countP isMark = 0 :=
      List.countP_eq_zero.2 fun c hc => by simp [hplain c (List.mem_append_left _ hc)]
    have hinside : inside.countP isMark = 0 :=
      List.countP_eq_zero.2 fun c hc => by simp [hplain c (List.mem_append_right _ hc)]
    simp only at hold
    rw [hold] at hcount
    simp [hname, hinside, hmark] at hcount

end Migration
end ScriptUpgrade
