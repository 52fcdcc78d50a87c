/-
# Rules that settle in one pass

A call body is quiet for a pattern if the pattern finds nothing in it that may be replaced (`Quiet`);
a pass over a quiet body keeps every character (`optionFragments_of_quiet`). The passes about output
types and zones leave a quiet body behind, and no later pass disturbs that.

All of this is one argument (`quiet_newText`). A hit in the new text begins at the edge of an exchanged
token or at a character that was kept, for no dash follows a blank inside a plain token. It is none if
it begins at an exchanged token. If it begins at a kept character and ends before the next exchanged
token, it stood there before the pass. And it can hardly reach into an exchanged token, which begins
after a blank: inside a hit no dash follows a blank.
-/

import ScriptUpgrade.Proofs.PlainPattern

namespace ScriptUpgrade
namespace Migration

open Fragment

/-- The pattern finds nothing that may be replaced. -/
def Quiet (hit? : Text → Option Hit) (body : Text) : Prop :=
  ∀ front tail, body = front ++ tail → ¬ Accepts hit? front tail

/-- No hit that may be replaced begins at a kept character. -/
def Spared (hit? : Text → Option Hit) (fragments : List Fragment) : Prop :=
  ∀ left text right, fragments = left ++ keep text ++ right → text ≠ [] →
    ¬ Accepts hit? (oldText left) (text ++ oldText right)

namespace Fragment

/-- Where no stretch has the property that every replaced stretch has, nothing is replaced. -/
theorem Each.eq_keep {front : Text} {fragments : List Fragment} {Ok : Text → Text → Text → Text → Prop}
    (h : Each Ok front fragments)
    (hnone : ∀ left old new rest, oldText fragments = left ++ old ++ rest →
      ¬ Ok (front ++ left) old new rest) : fragments = keep (oldText fragments) := by
  induction fragments generalizing front with
  | nil => rfl
  | cons fragment fragments ih =>
    cases fragment with
    | kept c =>
      rw [oldText_kept, keep_cons, ← ih h]
      intro left old new rest hsplit
      rw [List.append_assoc, List.singleton_append]
      exact hnone (c :: left) old new rest (by rw [oldText_kept, hsplit]; rfl)
    | replaced old new =>
      refine absurd h.1 ?_
      have := hnone [] old new (oldText fragments) (by rw [oldText_replaced]; rfl)
      rwa [List.append_nil] at this

/-- A cut of the new text falls between two fragments or into a new stretch. -/
theorem exists_of_newText_eq_append {fragments : List Fragment} {front tail : Text}
    (h : newText fragments = front ++ tail) :
    (∃ left right, fragments = left ++ right ∧ newText left = front ∧ newText right = tail) ∨
      ∃ left old inner outer right, fragments = left ++ .replaced old (inner ++ outer) :: right ∧
        inner ≠ [] ∧ outer ≠ [] ∧ newText left ++ inner = front ∧ outer ++ newText right = tail := by
  induction fragments generalizing front with
  | nil =>
    obtain ⟨rfl, rfl⟩ := List.nil_eq_append_iff.1 h
    exact Or.inl ⟨[], [], rfl, rfl, rfl⟩
  | cons fragment fragments ih =>
    have hcut : fragment.after ++ newText fragments = front ++ tail := h
    rcases Text.append_eq_append_cases hcut.symm with ⟨front', rfl, htail⟩ | ⟨outer, hne, hfragment, htail⟩
    · rcases ih htail with ⟨left, right, rfl, rfl, rfl⟩ |
        ⟨left, old, inner, outer, right, rfl, hinner, houter, rfl, rfl⟩
      · exact Or.inl ⟨fragment :: left, right, rfl, rfl, rfl⟩
      · refine Or.inr ⟨fragment :: left, old, inner, outer, right, rfl, hinner, houter, ?_, rfl⟩
        rw [← List.append_assoc]
        rfl
    · by_cases hfront : front = []
      · subst hfront
        exact Or.inl ⟨[], fragment :: fragments, rfl, rfl, h⟩
      · cases fragment with
        | kept c =>
          have := congrArg List.length hfragment
          have h₁ := List.length_pos_iff.2 hfront
          have h₂ := List.length_pos_iff.2 hne
          simp only [after, List.length_append, List.length_singleton] at this
          omega
        | replaced old new =>
          exact Or.inr ⟨[], old, front, outer, fragments, by rw [← hfragment]; rfl, hfront, hne, rfl,
            htail.symm⟩

/-- The characters kept before the first replaced stretch. -/
theorem exists_keep_append (fragments : List Fragment) :
    ∃ text right, fragments = keep text ++ right ∧
      (right = [] ∨ ∃ old new rest, right = .replaced old new :: rest) := by
  induction fragments with
  | nil => exact ⟨[], [], rfl, Or.inl rfl⟩
  | cons fragment fragments ih =>
    cases fragment with
    | kept c =>
      obtain ⟨text, right, rfl, hright⟩ := ih
      exact ⟨c :: text, right, rfl, hright⟩
    | replaced old new => exact ⟨[], _, rfl, Or.inr ⟨old, new, fragments, rfl⟩⟩

end Fragment

/-- **A pass over a quiet body keeps every character.** -/
theorem optionFragments_of_quiet {hit? : Text → Option Hit} (hanchored : Anchored hit?) {body : Text}
    (h : Quiet hit? body) : optionFragments hit? none none body = keep body := by
  have heach := each_taken hanchored body
  have hold := oldText_optionFragments hanchored none none body
  refine (heach.eq_keep fun left old new rest hsplit htaken => ?_).trans (congrArg keep hold)
  refine h left (old ++ rest) ?_ ⟨old, new, rest, rfl, htaken⟩
  rw [← List.append_assoc, ← hsplit]
  exact hold.symm

theorem spared_of_quiet {hit? : Text → Option Hit} {fragments : List Fragment}
    (h : Quiet hit? (oldText fragments)) : Spared hit? fragments := by
  rintro left text right rfl -
  refine h _ _ ?_
  rw [oldText_append, oldText_append, oldText_keep, List.append_assoc]

/-- One place of the old text is not in front of a kept character and of a replaced stretch at once. -/
theorem kept_ne_replaced {left left' right right' : List Fragment} {c : Char} {old new : Text}
    (hne : ∀ old new, .replaced old new ∈ left → old ≠ [])
    (h : left ++ .kept c :: right = left' ++ .replaced old new :: right') :
    oldText left ≠ oldText left' := by
  induction left generalizing left' with
  | nil =>
    cases left' with
    | nil => simp at h
    | cons fragment left' =>
      rw [List.nil_append, List.cons_append] at h
      rw [← (List.cons.inj h).1]
      simp
  | cons fragment left ih =>
    cases left' with
    | nil =>
      rw [List.nil_append, List.cons_append] at h
      rw [(List.cons.inj h).1] at hne ⊢
      simp [hne old new (by simp)]
    | cons fragment' left' =>
      rw [List.cons_append, List.cons_append] at h
      obtain ⟨rfl, htail⟩ := List.cons.inj h
      intro heq
      refine ih (fun old new hmem => hne old new (List.mem_cons_of_mem _ hmem)) htail ?_
      exact List.append_cancel_left heq

/-- **A pass overlooks no hit of a plain pattern.** -/
theorem spared_optionFragments {hit? : Text → Option Hit} (h : IsPlainPattern hit?) (body : Text) :
    Spared hit? (optionFragments hit? none none body) := by
  intro left text right hsplit hne haccepts
  have hold := oldText_optionFragments h.toAnchored none none body
  rw [hsplit, oldText_append, oldText_append, oldText_keep, List.append_assoc] at hold
  obtain ⟨left', old, new, right', hreplaced, hfront⟩ := exists_replaced_of_accepts h.toAnchored
    h.solitary [] (oldText left) (text ++ oldText right) (by simpa using haccepts)
  rw [hold] at hreplaced
  obtain ⟨c, text, rfl⟩ := List.exists_cons_of_ne_nil hne
  rw [List.getLast?_nil, show Quote.run none [] = none from rfl, hsplit, keep_cons,
    List.append_assoc, List.cons_append] at hreplaced
  refine kept_ne_replaced (fun old new hmem => ?_) hreplaced hfront.symm
  have hplain := isPlain_of_each_swap (each_swap_optionFragments h body)
  rw [hsplit, List.append_assoc] at hplain
  exact (hplain.of_append.1 old new hmem).1.ne_nil

/-- **A new text is quiet** if no hit begins at a kept character, none begins at an exchanged token,
and none reaches from kept characters into an exchanged token. -/
theorem quiet_newText {hit? : Text → Option Hit} (hpattern : IsPlainPattern hit?)
    {fragments : List Fragment} (hswap : Each Swap [] fragments) (hspared : Spared hit? fragments)
    (hstart : ∀ left old new right, fragments = left ++ .replaced old new :: right →
      ¬ Accepts hit? (newText left) (new ++ newText right))
    (hreach : ∀ left text old new right,
      fragments = left ++ keep text ++ .replaced old new :: right → text ≠ [] →
        ∀ reached becomes rest, reached ≠ [] → new ++ newText right = reached ++ rest →
          ¬ Taken hit? (oldText left) (text ++ reached) becomes rest) :
    Quiet hit? (newText fragments) := by
  rintro front tail hbody ⟨old, new, rest, rfl, htaken⟩
  obtain ⟨ms, hdash⟩ := htaken.exists_cons hpattern.toAnchored
  have hplain := isPlain_of_each_swap hswap
  rcases exists_of_newText_eq_append hbody with ⟨left, right, rfl, rfl, htail⟩ |
    ⟨left, old', inner, outer, right, rfl, hinner, houter, rfl, htail⟩
  · obtain ⟨text, right, rfl, hright⟩ := exists_keep_append right
    by_cases htext : text = []
    · subst htext
      rcases hright with rfl | ⟨old', new', right, rfl⟩
      · simp [hdash] at htail
      · exact hstart left old' new' right rfl ⟨old, new, rest, htail, htaken⟩
    · obtain ⟨hleft, hright'⟩ := hplain.of_append
      have hbefore : Taken hit? (oldText left) old new rest := by
        refine ⟨htaken.hit, ?_, ?_, htaken.ends⟩
        · rw [← run_newText Quote.isOpen_none hleft]
          exact htaken.outside
        · rw [← (sameEnd_newText hleft).tokenMayFollow_eq]
          exact htaken.starts
      rw [newText_append, newText_keep] at htail
      rcases Text.append_eq_append_cases htail with ⟨e, rfl, rfl⟩ | ⟨reached, hne, rfl, hreached⟩
      · -- the hit ends before the next exchanged token, so it stood there before the pass
        have hends : tokenMayPrecede (e ++ oldText right) = true := by
          rw [← htaken.ends]
          cases e with
          | nil => exact (tokenMayPrecede_newText hright'.of_append.2).symm
          | cons c e => rfl
        refine hspared left (old ++ e) right (by rw [List.append_assoc]) htext
          ⟨old, new, e ++ oldText right, by rw [List.append_assoc], ?_⟩
        exact ⟨hpattern.anywhere htaken.hit hends, hbefore.outside, hbefore.starts, hends⟩
      · rcases hright with rfl | ⟨old', new', right, rfl⟩
        · simp [hne] at hreached
        · exact hreach left text old' new' right (by rw [List.append_assoc]) htext reached new rest hne
            hreached hbefore
  · -- inside a plain token no dash follows a blank
    have hnew : IsPlainToken (inner ++ outer) := (hplain old' (inner ++ outer) (by simp)).2
    have hstarts := htaken.starts
    rw [List.getLast?_append_of_ne_nil _ hinner] at hstarts
    obtain ⟨c, outer, rfl⟩ := List.exists_cons_of_ne_nil houter
    rw [hdash] at htail
    refine hnew.unbroken inner (c :: outer) rfl hinner hstarts ?_
    rw [(List.cons.inj htail).1]
    rfl

end Migration
end ScriptUpgrade
