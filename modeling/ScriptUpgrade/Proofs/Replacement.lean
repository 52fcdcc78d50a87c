/-
# Where a pass replaces text

A pass over a call body keeps characters and replaces stretches. `Fragment.Each` says of every
replaced stretch, together with the text in front of it and the text behind it, that it has a
property; the passes of the option rules replace only hits that stand outside quotes and are whole
tokens (`each_optionFragments`), and the passes of the renaming rules only the command word
(`each_commandFragments`).

A hit that is refused uses its text up, so a pass may overlook a hit that begins inside another one.
For a pattern whose hits leave no room for that (`Solitary`), the pass replaces every hit that may be
replaced (`exists_replaced_of_accepts`).
-/

import Mathlib.Data.List.Basic
import ScriptUpgrade.Migration.Rule
import ScriptUpgrade.Proofs.OptionShape

namespace ScriptUpgrade
namespace Migration

namespace Fragment

@[simp] theorem oldText_nil : oldText [] = [] := rfl

@[simp] theorem newText_nil : newText [] = [] := rfl

@[simp] theorem oldText_kept (c : Char) (fragments : List Fragment) :
    oldText (.kept c :: fragments) = c :: oldText fragments := rfl

@[simp] theorem newText_kept (c : Char) (fragments : List Fragment) :
    newText (.kept c :: fragments) = c :: newText fragments := rfl

@[simp] theorem oldText_replaced (old new : Text) (fragments : List Fragment) :
    oldText (.replaced old new :: fragments) = old ++ oldText fragments := rfl

@[simp] theorem newText_replaced (old new : Text) (fragments : List Fragment) :
    newText (.replaced old new :: fragments) = new ++ newText fragments := rfl

@[simp] theorem keep_nil : keep [] = [] := rfl

@[simp] theorem keep_cons (c : Char) (text : Text) : keep (c :: text) = .kept c :: keep text := rfl

theorem keep_append (front back : Text) : keep (front ++ back) = keep front ++ keep back := by
  simp [keep]

/-- Every replaced stretch has the property `Ok`, which sees the text in front of it, the stretch,
what it becomes and the text behind it, all but the third as they read before the pass. The first
fragment stands behind `front`. -/
def Each (Ok : (front old new rest : Text) → Prop) : (front : Text) → List Fragment → Prop
  | _, [] => True
  | front, .kept c :: fragments => Each Ok (front ++ [c]) fragments
  | front, .replaced old new :: fragments =>
    Ok front old new (oldText fragments) ∧ Each Ok (front ++ old) fragments

variable {Ok : Text → Text → Text → Text → Prop}

instance Each.decidable [∀ front old new rest, Decidable (Ok front old new rest)] :
    ∀ (front : Text) (fragments : List Fragment), Decidable (Each Ok front fragments)
  | _, [] => isTrue trivial
  | front, .kept c :: fragments => Each.decidable (front ++ [c]) fragments
  | front, .replaced old _ :: fragments =>
    have := Each.decidable (front ++ old) fragments
    inferInstanceAs (Decidable (_ ∧ _))

theorem Each.mono {Ok' : Text → Text → Text → Text → Prop} {front : Text} {fragments : List Fragment}
    (h : ∀ front old new rest, Ok front old new rest → Ok' front old new rest)
    (heach : Each Ok front fragments) : Each Ok' front fragments := by
  induction fragments generalizing front with
  | nil => trivial
  | cons fragment fragments ih =>
    cases fragment with
    | kept c => exact ih heach
    | replaced old new => exact ⟨h _ _ _ _ heach.1, ih heach.2⟩

theorem Each.and {Ok' : Text → Text → Text → Text → Prop} {front : Text}
    {fragments : List Fragment} (h : Each Ok front fragments) (h' : Each Ok' front fragments) :
    Each (fun front old new rest => Ok front old new rest ∧ Ok' front old new rest) front
      fragments := by
  induction fragments generalizing front with
  | nil => trivial
  | cons fragment fragments ih =>
    cases fragment with
    | kept c => exact ih h h'
    | replaced old new => exact ⟨⟨h.1, h'.1⟩, ih h.2 h'.2⟩

theorem each_keep_append (front text : Text) (fragments : List Fragment) :
    Each Ok front (keep text ++ fragments) ↔ Each Ok (front ++ text) fragments := by
  induction text generalizing front with
  | nil => simp
  | cons c text ih =>
    have := ih (front ++ [c])
    simpa [Each] using this

theorem each_keep (front text : Text) : Each Ok front (keep text) := by
  rw [← List.append_nil (keep text), each_keep_append]
  trivial

/-- **What holds of each replaced stretch holds of the one at hand.** -/
theorem Each.at_replaced {front : Text} {left right : List Fragment} {old new : Text}
    (h : Each Ok front (left ++ .replaced old new :: right)) :
    Ok (front ++ oldText left) old new (oldText right) := by
  induction left generalizing front with
  | nil => simpa using h.1
  | cons fragment left ih =>
    cases fragment with
    | kept c => simpa using ih h
    | replaced old' new' => simpa using ih h.2

theorem Each.of_mem {front : Text} {fragments : List Fragment} {old new : Text}
    (h : Each Ok front fragments) (hmem : .replaced old new ∈ fragments) :
    ∃ left rest, Ok left old new rest := by
  obtain ⟨left, right, rfl⟩ := List.append_of_mem hmem
  exact ⟨_, _, h.at_replaced⟩

/-- The left half of a list that is cut in two, if what is to the right does not matter. -/
theorem Each.left {Ok : Text → Text → Text → Prop} {front : Text} {left right : List Fragment}
    (h : Each (fun front old new _ => Ok front old new) front (left ++ right)) :
    Each (fun front old new _ => Ok front old new) front left := by
  induction left generalizing front with
  | nil => trivial
  | cons fragment left ih =>
    cases fragment with
    | kept c => exact ih h
    | replaced old new => exact ⟨h.1, ih h.2⟩

end Fragment

open Fragment

/-- What a pattern finds at the start of a text is there, and starts with a dash. -/
structure Anchored (hit? : Text → Option Hit) : Prop where
  dash : ∀ {text hit}, hit? text = some hit → hit.matched.head? = some '-'
  isPrefix : ∀ {text hit}, hit? text = some hit → ∃ rest, text = hit.matched ++ rest

/-- A hit that an option rule replaces: it stands outside quotes and is a whole token. -/
structure Taken (hit? : Text → Option Hit) (front old new rest : Text) : Prop where
  hit : hit? (old ++ rest) = some ⟨old, some new⟩
  outside : Quote.run none front = none
  starts : tokenMayFollow front.getLast? = true
  ends : tokenMayPrecede rest = true

theorem Taken.exists_cons {hit? : Text → Option Hit} (hanchored : Anchored hit?)
    {front old new rest : Text} (h : Taken hit? front old new rest) : ∃ ms, old = '-' :: ms := by
  have := hanchored.dash h.hit
  exact List.head?_eq_some_iff.1 this

/-- A nonempty hit is cut off the text it is found in. -/
theorem Anchored.append_drop {hit? : Text → Option Hit} (hanchored : Anchored hit?) {c m : Char}
    {text ms : Text} {replacement : Option Text}
    (h : hit? (c :: text) = some ⟨m :: ms, replacement⟩) :
    m :: ms ++ text.drop ms.length = c :: text := by
  obtain ⟨rest, hrest⟩ := hanchored.isPrefix h
  obtain ⟨rfl, rfl⟩ := List.cons.inj hrest
  simp

theorem oldText_optionFragments {hit? : Text → Option Hit} (hanchored : Anchored hit?)
    (before : Option Char) (quote : Quote.State) (text : Text) :
    oldText (optionFragments hit? before quote text) = text := by
  fun_induction optionFragments hit? before quote text with
  | case1 => rfl
  | case2 before quote c text m ms replacement hhit rest fragments ih =>
    have hfragments : oldText fragments = m :: ms := by
      simp only [fragments]
      split
      · split <;> simp
      · simp
    rw [oldText_append, hfragments, ih, hanchored.append_drop hhit]
  | case3 before quote c text _ ih => simpa using ih

/-- **An option rule replaces only hits that may be replaced.** -/
theorem each_optionFragments {hit? : Text → Option Hit} (hanchored : Anchored hit?)
    (front text : Text) :
    Each (Taken hit?) front
      (optionFragments hit? front.getLast? (Quote.run none front) text) := by
  generalize hbefore : front.getLast? = before
  generalize hquote : Quote.run none front = quote
  fun_induction optionFragments hit? before quote text generalizing front with
  | case1 => trivial
  | case2 before quote c text m ms replacement hhit rest fragments ih =>
    have ih' := ih (front ++ m :: ms) (by simp [List.getLast?_cons])
      (by rw [Quote.run_append, hquote])
    simp only [fragments]
    split
    · split
      · rename_i haccept
        simp only [Bool.and_eq_true, Option.isNone_iff_eq_none] at haccept
        rw [List.singleton_append, Each, oldText_optionFragments hanchored]
        refine ⟨⟨?_, hquote.trans haccept.1.1, by rw [hbefore]; exact haccept.1.2, haccept.2⟩, ih'⟩
        rw [hanchored.append_drop hhit]
        exact hhit
      · exact (each_keep_append _ _ _).2 ih'
    · exact (each_keep_append _ _ _).2 ih'
  | case3 before quote c text _ ih =>
    exact ih (front ++ [c]) (by simp) (by rw [Quote.run_append, hquote]; rfl)

/-- The same for a whole body. -/
theorem each_taken {hit? : Text → Option Hit} (hanchored : Anchored hit?) (body : Text) :
    Each (Taken hit?) [] (optionFragments hit? none none body) :=
  each_optionFragments hanchored [] body

/-! ### Patterns whose hits are all seen -/

/-- A hit stands between `front` and `rest` that an option rule may replace. -/
def Accepts (hit? : Text → Option Hit) (front text : Text) : Prop :=
  ∃ old new rest, text = old ++ rest ∧ Taken hit? front old new rest

/-- No dash follows an ASCII blank inside the piece, so no option begins inside it. -/
def Unbroken (piece : Text) : Prop :=
  ∀ left right, piece = left ++ right → left ≠ [] → tokenMayFollow left.getLast? = true →
    right.head? ≠ some '-'

/-- No hit that may be replaced begins inside another hit. -/
def Solitary (hit? : Text → Option Hit) : Prop :=
  ∀ text hit, hit? text = some hit → Unbroken hit.matched

/-- **A pass replaces every hit that may be replaced**, if no hit hides another one. -/
theorem exists_replaced_of_accepts {hit? : Text → Option Hit} (hanchored : Anchored hit?)
    (hsolitary : Solitary hit?) (done front tail : Text) (h : Accepts hit? (done ++ front) tail) :
    ∃ left old new right, optionFragments hit? done.getLast? (Quote.run none done) (front ++ tail) =
      left ++ .replaced old new :: right ∧ oldText left = front := by
  obtain ⟨old, new, rest, rfl, htaken⟩ := h
  obtain ⟨ms', hold⟩ := htaken.exists_cons hanchored
  generalize hbefore : done.getLast? = before
  generalize hquote : Quote.run none done = quote
  generalize htext : front ++ (old ++ rest) = text
  fun_induction optionFragments hit? before quote text generalizing done front with
  | case1 => simp [hold] at htext
  | case2 before quote c text m ms replacement hhit rest' fragments ih =>
    have hfragments : oldText fragments = m :: ms := by
      simp only [fragments]
      split
      · split <;> simp
      · simp
    have htext' := htext.trans (hanchored.append_drop hhit).symm
    rcases Text.append_eq_append_cases htext' with ⟨front', rfl, hrest⟩ | ⟨inner, hne, hm, hinner⟩
    · obtain ⟨left, old', new', right, hleft, hold'⟩ := ih (done ++ m :: ms) front'
        (by rw [List.append_assoc]; exact htaken) (by simp [List.getLast?_cons])
        (by rw [Quote.run_append, hquote]) hrest.symm
      refine ⟨fragments ++ left, old', new', right, by rw [hleft, List.append_assoc], ?_⟩
      rw [oldText_append, hold', hfragments]
    · by_cases hfront : front = []
      · subst hfront
        have hsame := htaken.hit
        rw [List.nil_append] at htext
        rw [htext, hhit] at hsame
        obtain ⟨rfl, rfl⟩ := Hit.mk.inj (Option.some.inj hsame)
        have hrest : rest' = rest := (List.append_cancel_left (htext.trans
          (hanchored.append_drop hhit).symm)).symm
        rw [List.append_nil] at htaken
        refine ⟨[], m :: ms, new, optionFragments hit? (m :: ms).getLast? (Quote.run quote (m :: ms))
          rest', ?_, rfl⟩
        have haccept : (quote.isNone && tokenMayFollow before && tokenMayPrecede rest') = true := by
          rw [← hquote, ← hbefore, htaken.outside, htaken.starts, hrest, htaken.ends]
          rfl
        simp only [fragments, haccept]
        rfl
      · -- the hit found here would contain a dash after a blank
        have hstarts : tokenMayFollow front.getLast? = true := by
          have := htaken.starts
          rwa [List.getLast?_append_of_ne_nil _ hfront] at this
        have := hsolitary _ _ hhit _ _ hm hfront hstarts
        obtain ⟨d, inner, rfl⟩ := List.exists_cons_of_ne_nil hne
        rw [hold] at hinner
        exact absurd (by rw [(List.cons.inj hinner).1]; rfl) this
  | case3 before quote c text hnone ih =>
    cases front with
    | nil =>
      have hhit := htaken.hit
      rw [List.nil_append] at htext
      rw [htext, hold] at hhit
      exact (hnone _ _ _ hhit).elim
    | cons f front =>
      obtain ⟨rfl, htext'⟩ := List.cons.inj htext
      obtain ⟨left, old', new', right, hleft, hold'⟩ := ih (done ++ [f]) front
        (by rw [List.append_assoc]; exact htaken) (by simp)
        (by rw [Quote.run_append, hquote]; rfl) htext'
      exact ⟨.kept f :: left, old', new', right, by rw [hleft]; rfl, by simp [hold']⟩

end Migration
end ScriptUpgrade
