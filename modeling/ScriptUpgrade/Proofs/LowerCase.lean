/-
# Lower case is reached in one step

A text in lower case is its own lower-case form (`lower_lower`). Nothing but capitals is changed: the
letters `A` to `Z`, the capital I with a dot, and what the runs of the simple mapping cover. So it is
enough that no character becomes a capital. For ASCII, the dotted I and the sigmas this is a look at a few
characters. For the simple mapping it is a fact about its table: no run moves a code point to where a
run of capitals has one (`apart_capitals`), since it moves its code points past those of the other run, or
to the other parity.
-/

import ScriptUpgrade.Text.Case

namespace ScriptUpgrade
namespace Text

/-- A character that is its own lower-case form. The capital sigma is none, so what stands around a
character does not matter. -/
def isLower (c : Char) : Bool :=
  lowerChar c == [c]

/-- Where a run moves a code point. -/
def LowerRun.target (run : LowerRun) (n : Nat) : Nat :=
  (n + run.shift).toNat

/-- Whether a run moves its code points to the parity that another run leaves out. -/
def LowerRun.interleaves (run other : LowerRun) : Bool :=
  decide (0 ≤ run.first + run.shift) && (run.first.beq run.last || (run.step % 2).beq 0) &&
    (other.step % 2).beq 0 && (run.target run.first % 2).beq ((other.first + 1) % 2)

/-- Whether a run leaves the code points of another run alone: it moves its own in front of them, behind
them, or to the other parity. -/
def LowerRun.apart (run other : LowerRun) : Bool :=
  (run.target run.last).blt other.first || other.last.blt (run.target run.first) || run.interleaves other

/-- The code points that have another lower-case form. -/
def capitals : List LowerRun :=
  ⟨0x41, 0x5A, 1, 32⟩ :: ⟨0x130, 0x130, 1, 0⟩ :: lowerRuns

/-! ### Characters outside the table -/

theorem isLower_sigma : isLower 'Σ' = false := by
  decide

/-- What the characters with a rule of their own become is in lower case. -/
theorem isLower_special : ∀ c ∈ ['i', '\u0307', 'σ', 'ς'], isLower c = true := by
  decide

theorem isLower_ascii : ∀ n : Fin 128, isLower (Char.ofNat n).toLower = true := by
  decide +kernel

/-! ### No capital comes out of the table -/

theorem LowerRun.covers_iff {run : LowerRun} {n : Nat} :
    run.covers n = true ↔ run.first ≤ n ∧ n ≤ run.last ∧ run.step ∣ n - run.first := by
  simp [covers, and_assoc, Nat.dvd_iff_mod_eq_zero]

/-- All code points of a run with an even step have one parity. -/
theorem LowerRun.parity_of_covers {run : LowerRun} {n : Nat} (h : run.covers n = true)
    (hstep : run.first = run.last ∨ run.step % 2 = 0) : (n - run.first) % 2 = 0 := by
  obtain ⟨hfirst, hlast, hdvd⟩ := covers_iff.1 h
  rcases hstep with hsingle | hstep
  · omega
  · exact Nat.mod_eq_zero_of_dvd (Nat.dvd_trans (Nat.dvd_of_mod_eq_zero hstep) hdvd)

theorem LowerRun.covers_target_eq_false {run other : LowerRun} (h : run.apart other = true)
    {n : Nat} (hn : run.covers n = true) : other.covers (run.target n) = false := by
  refine Bool.eq_false_iff.2 fun hcovers => ?_
  obtain ⟨hfirst, hlast, -⟩ := covers_iff.1 hn
  obtain ⟨hfirst', hlast', -⟩ := covers_iff.1 hcovers
  simp only [apart, interleaves, target, Bool.or_eq_true, Bool.and_eq_true, decide_eq_true_eq, Nat.blt_eq,
    Nat.beq_eq] at h
  unfold target at hfirst' hlast' hcovers
  rcases h with (h | h) | ⟨⟨⟨hpos, hstep⟩, hstep'⟩, hparity⟩
  · omega
  · omega
  · have hown := parity_of_covers hn hstep
    have hother := parity_of_covers hcovers (Or.inr hstep')
    omega

/-- **No run moves a code point onto a capital.** -/
theorem apart_capitals :
    (lowerRuns.all fun run => capitals.all fun other => run.apart other) = true := by
  decide +kernel

/-! ### Characters -/

/-- What no run of capitals covers is in lower case. -/
theorem isLower_of_not_covers {c : Char} (h : ∀ run ∈ capitals, run.covers c.toNat = false) :
    isLower c = true := by
  have hascii : ¬ (0x41 ≤ c.toNat ∧ c.toNat ≤ 0x5A) := by
    have := h ⟨0x41, 0x5A, 1, 32⟩ (by simp [capitals])
    simpa [LowerRun.covers, Nat.mod_one] using this
  have hdotted : c.toNat ≠ 0x130 := by
    intro heq
    have := h ⟨0x130, 0x130, 1, 0⟩ (by simp [capitals])
    simp [LowerRun.covers, heq] at this
  have hsimple : lowerSimple c = c := by
    have hnone : (lowerRuns.find? fun run => run.covers c.toNat) = none := by
      rw [List.find?_eq_none]
      intro run hrun
      simp [h run (by simp [capitals, hrun])]
    rw [lowerSimple, hnone]
  have hlower : lowerChar c = [c] := by
    by_cases hsmall : c.toNat < 128
    · have hsame : c.toLower = c := dif_neg (by simpa [UInt32.le_iff_toNat_le] using hascii)
      rw [lowerChar, if_pos hsmall, hsame]
    · rw [lowerChar, if_neg hsmall, if_neg hdotted, hsimple]
  simp [isLower, hlower]

/-- What a run moves is in lower case. -/
theorem isLower_target {run : LowerRun} (hrun : run ∈ lowerRuns) {n : Nat} (h : run.covers n = true) :
    isLower (Char.ofNat (run.target n)) = true := by
  by_cases hvalid : (run.target n).isValidChar
  · have hnumber : (Char.ofNat (run.target n)).toNat = run.target n := by
      rw [Char.ofNat, dif_pos hvalid]
      rfl
    refine isLower_of_not_covers fun other hother => ?_
    have hapart := List.all_eq_true.1 (List.all_eq_true.1 apart_capitals run hrun) other hother
    rw [hnumber]
    exact LowerRun.covers_target_eq_false hapart h
  · rw [Char.ofNat, dif_neg hvalid]
    decide

/-- **The lower-case form of a character is in lower case.** -/
theorem isLower_of_mem_lowerChar {c d : Char} (h : d ∈ lowerChar c) : isLower d = true := by
  unfold lowerChar at h
  split at h
  · rename_i hascii
    obtain ⟨n, rfl⟩ : ∃ n : Fin 128, c = Char.ofNat n := ⟨⟨c.toNat, hascii⟩, (Char.ofNat_toNat c).symm⟩
    rw [List.mem_singleton.1 h]
    exact isLower_ascii n
  · split at h
    · refine isLower_special d ?_
      rcases List.mem_cons.1 h with rfl | h
      · decide
      · rw [List.mem_singleton.1 h]
        decide
    · rename_i hascii hdotted
      rw [List.mem_singleton] at h
      subst h
      unfold lowerSimple
      split
      · rename_i run hfind
        exact isLower_target (List.mem_of_find?_eq_some hfind) (by simpa using List.find?_some hfind)
      · rename_i hfind
        refine isLower_of_not_covers fun run hrun => ?_
        refine Bool.eq_false_iff.2 fun hcovers => ?_
        obtain ⟨hfirst, hlast, -⟩ := LowerRun.covers_iff.1 hcovers
        rw [capitals, List.mem_cons, List.mem_cons] at hrun
        rcases hrun with rfl | rfl | hrun
        · dsimp only at hlast
          omega
        · dsimp only at hfirst hlast
          omega
        · exact List.find?_eq_none.1 hfind run hrun hcovers

/-! ### Texts -/

theorem isLower_of_mem_lowerAfter {before text : Text} {d : Char} (h : d ∈ lowerAfter before text) :
    isLower d = true := by
  induction text generalizing before with
  | nil => cases h
  | cons c text ih =>
    rw [lowerAfter, List.mem_append] at h
    rcases h with h | h
    · split at h
      · rw [List.mem_singleton.1 h]
        refine isLower_special _ ?_
        split
        · decide
        · decide
      · exact isLower_of_mem_lowerChar h
    · exact ih h

theorem lowerAfter_of_isLower {text : Text} (h : ∀ c ∈ text, isLower c = true) (before : Text) :
    lowerAfter before text = text := by
  induction text generalizing before with
  | nil => rfl
  | cons c text ih =>
    have hc : lowerChar c = [c] := beq_iff_eq.1 (h c List.mem_cons_self)
    have hsigma : c ≠ 'Σ' := by
      rintro rfl
      exact absurd (h 'Σ' List.mem_cons_self) (by rw [isLower_sigma]; decide)
    rw [lowerAfter, if_neg hsigma, hc, ih fun d hd => h d (List.mem_cons_of_mem c hd),
      List.singleton_append]

/-- **A text in lower case is its own lower-case form.** -/
theorem lower_lower (text : Text) : lower (lower text) = lower text :=
  lowerAfter_of_isLower (fun _ h => isLower_of_mem_lowerAfter h) []

end Text
end ScriptUpgrade
