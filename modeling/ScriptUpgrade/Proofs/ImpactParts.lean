/-
# The impact of a text from its parts

The impact of a line is read off by scanners that go over the line one after the other. What each of them
finds in `front ++ back` is told here by what it finds in `front` and in `back`:

| scanner | at the joint | statement |
| --- | --- | --- |
| tokens | a blank outside double quotes | `Token.split_append_blank` |
| risk of tokens | anything | `riskOf_append` |
| operators | no operator goes on behind it, and no comment starts in front of it | `operators_append` |
| commands | no operator behind it | `exists_commands_append` |
| calls | a space, and then an operator or the start of a comment, outside quotes | `filterMap_scan_append` |

Lists without repetition are put together in the same way (`distinct_append_eq_iff`).
-/

import Mathlib.Data.List.Induction
import ScriptUpgrade.Impact
import ScriptUpgrade.Proofs.CallPlaces
import ScriptUpgrade.Proofs.TokenFront

namespace ScriptUpgrade

/-- **A blank outside double quotes separates tokens.** -/
theorem Token.split_append_blank {front : Text} (hopen : isOpen front = false) {c : Char}
    (hc : Text.isBlank c = true) (rest : Text) :
    split (front ++ c :: rest) = split front ++ split rest := by
  rcases exists_separates_or_suspends front with ⟨-, done, h⟩ | ⟨done, token, h⟩
  · rw [h, h.split_eq, split_cons_of_isBlank hc]
  · rw [hopen] at h
    rw [h, h.split_eq, resume_cons_of_isBlank hc, List.append_assoc, List.singleton_append]

/-- Outside quotes a character that is no quote character changes nothing. -/
theorem Quote.run_none_cons {c : Char} (h : isMark c = false) (text : Text) :
    run none (c :: text) = run none text := by
  rw [run, List.foldl_cons]
  simp [step, h, run]

/-! ### Calls -/

namespace Call

open Text (isAsciiBlank)

variable {k : Char} {ks : Text} {halt : Char}

/-- A blank and a character that halts reading neither complete a keyword nor follow one directly. -/
theorem afterKeyword?_append (hhalt : isPassed halt = false) {keyword : Text} (hkeyword : halt ∉ keyword)
    (text back : Text) :
    afterKeyword? keyword (text ++ ' ' :: halt :: back) =
      (afterKeyword? keyword text).map (· ++ ' ' :: halt :: back) := by
  refine Option.ext fun rest => ?_
  rw [Option.map_eq_some_iff, afterKeyword?_eq_some_iff]
  constructor
  · rintro ⟨htext, hhead⟩
    rcases Text.append_eq_append_cases htext with ⟨left, rfl, rfl⟩ | ⟨extra, hextra, rfl, htail⟩
    · refine ⟨left, afterKeyword?_eq_some_iff.2 ⟨rfl, fun c hc => hhead c ?_⟩, rfl⟩
      rw [Option.mem_def] at hc
      rw [List.head?_append, hc]
      rfl
    · -- a keyword that reached over the blank would end right in front of `halt`
      obtain ⟨c, extra, rfl⟩ := List.exists_cons_of_ne_nil hextra
      rcases List.cons_eq_append_iff.1 (List.cons.inj htail).2 with ⟨rfl, rfl⟩ | ⟨extra, rfl, -⟩
      · exact absurd (isPassed_of_isAsciiBlank (hhead halt rfl)) (by simp [hhalt])
      · exact absurd (by simp) hkeyword
  · rintro ⟨left, hafter, rfl⟩
    obtain ⟨rfl, hhead⟩ := afterKeyword?_eq_some_iff.1 hafter
    refine ⟨List.append_assoc .., fun c hc => ?_⟩
    cases left with
    | nil =>
      obtain rfl := Option.some.inj hc
      decide
    | cons d left => exact hhead c hc

/-- A body that would go on to the end of the text ends at a character that halts reading. -/
theorem body_append_halt (hhalt : isPassed halt = false) (before : Option Char) {text : Text}
    (htext : Quote.run none text = none) (back : Text) :
    body before (text ++ ' ' :: halt :: back) = body before text := by
  obtain ⟨blanks, stop, hsplit, hclear, hlast, hblanks, hstop⟩ := exists_body_append before text
  generalize body before text = called at *
  cases stop with
  | cons c stop =>
    rw [hsplit, List.append_assoc, List.append_assoc]
    exact body_append hclear hlast hblanks (reach_eq_nil_of_head? hstop rfl)
  | nil =>
    rw [List.append_nil] at hsplit
    have hrun : Quote.run none (called ++ (blanks ++ [' '])) = none := by
      rw [← List.append_assoc, ← hsplit, Quote.run_append, htext]
      rfl
    have hblanks' : ∀ c ∈ blanks ++ [' '], isAsciiBlank c = true := by
      intro c hc
      rcases List.mem_append.1 hc with hc | hc
      · exact hblanks c hc
      · rw [List.mem_singleton.1 hc]
        decide
    have hline : text ++ ' ' :: halt :: back = called ++ (blanks ++ [' '] ++ halt :: back) := by
      rw [hsplit]
      simp
    have hreach : reach (some ' ') none (halt :: back) = [] := by
      have hpassed : isOperator halt = true ∨ halt = '#' := by
        simpa [isPassed, Decidable.imp_iff_not_or] using hhalt
      rw [reach, if_pos]
      rcases hpassed with hoperator | rfl
      · simp [hoperator]
      · rfl
    rw [hline]
    refine body_append hclear hlast hblanks' ?_
    rw [hrun, ← List.append_assoc, lastOr_append]
    exact hreach

/-- Behind the body of a call of a text without open quotes no quote is open. -/
theorem run_drop_body (before : Option Char) {text : Text} (htext : Quote.run none text = none) :
    Quote.run none (text.drop (body before text).length) = none := by
  have hresumes : Resumes ([] ++ ([] ++ body before text)) none (text.drop (body before text).length) :=
    resumes_body rfl before
  obtain ⟨tail, htail⟩ := body_isPrefix before text
  generalize body before text = called at *
  subst htail
  rw [List.drop_left] at hresumes ⊢
  rcases hresumes with hclosed | hblank
  · rwa [Quote.run_append, show Quote.run none called = none from hclosed.symm] at htext
  · exact Quote.run_eq_self Quote.isOpen_none fun c hc => isMark_eq_false_of_isAsciiBlank (hblank c hc)

/-- **The calls of a text are those of its parts**, if a blank and a character that halts reading stand at
the joint, outside quotes and comments. -/
theorem filterMap_scan_append (hhalt : isPassed halt = false) (hkeyword : halt ∉ k :: ks) {front : Text}
    (hfront : '#' ∉ front) (hmarks : ∀ c ∈ k :: ks, c ∈ front → Quote.isMark c = false)
    {quote : Quote.State} (hquote : Quote.run quote front = none) (before : Option Char) (back : Text) :
    (scan k ks before quote (front ++ ' ' :: halt :: back)).filterMap Part.body? =
      (scan k ks before quote front).filterMap Part.body? ++
        (scan k ks (some ' ') none (halt :: back)).filterMap Part.body? := by
  have hks : halt ∉ ks := fun h => hkeyword (List.mem_cons_of_mem k h)
  fun_induction scan k ks before quote front with
  | case1 before quote =>
    obtain rfl : quote = none := hquote
    have hcall : ' ' = k → afterKeyword? ks (halt :: back) = none := by
      rintro rfl
      exact afterKeyword?_append hhalt hkeyword [] back
    rw [List.nil_append, scan_outside (by decide) (by simp) fun h =>
      hcall (beq_iff_eq.1 (Bool.and_eq_true_iff.1 h).2)]
    rfl
  | case2 before quote c text hquoted ih =>
    rw [List.mem_cons, not_or] at hfront
    rw [List.cons_append, scan, if_pos hquoted]
    exact ih hfront.2 (fun d hd hmem => hmarks d hd (List.mem_cons_of_mem c hmem)) hquote
  | case3 before quote c text hquoted hcomment =>
    rw [Bool.and_eq_true, beq_iff_eq] at hcomment
    exact absurd (hcomment.1 ▸ List.mem_cons_self) hfront
  | case4 before quote c text hquoted hcomment hk rest h called ih =>
    obtain ⟨rfl, hmark⟩ := Quote.eq_none_of_not_quoted hquoted
    obtain ⟨hfollow, rfl⟩ : mayFollow before = true ∧ c = k := by simpa using hk
    obtain ⟨rfl, -⟩ := afterKeyword?_eq_some_iff.1 h
    have hsub : ∀ d ∈ rest.drop called.length, d ∈ c :: (ks ++ rest) := fun d hd =>
      List.mem_cons_of_mem c (List.mem_append_right ks (List.mem_of_mem_drop hd))
    have hrest : Quote.run none rest = none := by
      have hkeyword : Quote.run none (c :: ks) = none := Quote.run_eq_self Quote.isOpen_none
        fun d hd => hmarks d hd (List.mem_append_left rest hd)
      rwa [← List.cons_append, Quote.run_append, hkeyword] at hquote
    have hafter := afterKeyword?_append hhalt hks (ks ++ rest) back
    rw [h] at hafter
    obtain ⟨htext, hhead⟩ := afterKeyword?_eq_some_iff.1 hafter
    rw [List.cons_append, htext, ← List.cons_append, scan_call ⟨hmark, by simpa using hcomment, hfollow⟩ hhead,
      body_append_halt hhalt _ hrest, List.drop_append_of_le_length (body_isPrefix _ rest).length_le]
    exact congrArg (called :: ·) (ih (fun hmem => hfront (hsub _ hmem))
      (fun d hd hmem => hmarks d hd (hsub d hmem)) (run_drop_body _ hrest))
  | case5 before quote c text hquoted hcomment hk h ih =>
    obtain ⟨rfl, hmark⟩ := Quote.eq_none_of_not_quoted hquoted
    rw [List.mem_cons, not_or] at hfront
    have hafter := afterKeyword?_append hhalt hks text back
    rw [h] at hafter
    rw [List.cons_append, scan_outside hmark hcomment fun _ => hafter]
    exact ih hfront.2 (fun d hd hmem => hmarks d hd (List.mem_cons_of_mem c hmem))
      (by rwa [Quote.run_none_cons hmark] at hquote)
  | case6 before quote c text hquoted hcomment hk ih =>
    obtain ⟨rfl, hmark⟩ := Quote.eq_none_of_not_quoted hquoted
    rw [List.mem_cons, not_or] at hfront
    rw [List.cons_append, scan_outside hmark hcomment fun h => absurd h hk]
    exact ih hfront.2 (fun d hd hmem => hmarks d hd (List.mem_cons_of_mem c hmem))
      (by rwa [Quote.run_none_cons hmark] at hquote)

end Call

namespace Impact

/-! ### Texts without repetition -/

/-- The texts of `all`, each of them once and in the order in which they occur first. -/
structure IsDistinct (all kept : List Text) : Prop where
  mem_iff : ∀ text, text ∈ kept ↔ text ∈ all
  ordered : kept.Pairwise fun left right => all.idxOf left < all.idxOf right

theorem distinct_snoc (texts : List Text) (text : Text) :
    distinct (texts ++ [text]) =
      if text ∈ distinct texts then distinct texts else distinct texts ++ [text] := by
  have hstep : distinct (texts ++ [text]) =
      if (distinct texts).contains text then distinct texts else distinct texts ++ [text] := by
    rw [distinct, List.foldl_append]
    rfl
  rw [hstep]
  simp only [List.contains_iff_mem]

theorem mem_distinct {text : Text} {texts : List Text} : text ∈ distinct texts ↔ text ∈ texts := by
  induction texts using List.reverseRecOn with
  | nil => rfl
  | append_singleton texts last ih =>
    rw [distinct_snoc, List.mem_append, List.mem_singleton]
    split
    · rename_i hlast
      rw [ih]
      exact ⟨Or.inl, fun h => h.elim id fun heq => ih.1 (heq ▸ hlast)⟩
    · rw [List.mem_append, List.mem_singleton, ih]

/-- **Dropping repetitions keeps the first occurrences in order.** -/
theorem isDistinct_distinct (texts : List Text) : IsDistinct texts (distinct texts) where
  mem_iff _ := mem_distinct
  ordered := by
    induction texts using List.reverseRecOn with
    | nil => exact List.Pairwise.nil
    | append_singleton texts last ih =>
      have hold : ∀ text ∈ distinct texts, (texts ++ [last]).idxOf text = texts.idxOf text :=
        fun text htext => by rw [List.idxOf_append, if_pos (mem_distinct.1 htext)]
      have hordered : (distinct texts).Pairwise fun left right =>
          (texts ++ [last]).idxOf left < (texts ++ [last]).idxOf right :=
        ih.imp_of_mem fun {left right} hleft hright h => by rwa [hold left hleft, hold right hright]
      rw [distinct_snoc]
      split
      · exact hordered
      · rename_i hlast
        refine List.pairwise_append.2 ⟨hordered, List.pairwise_singleton _ _, ?_⟩
        intro left hleft right hright
        rw [List.mem_singleton] at hright
        rw [hright, hold left hleft, List.idxOf_append, if_neg (mt mem_distinct.2 hlast)]
        exact Nat.lt_of_lt_of_le (List.idxOf_lt_length_of_mem (mem_distinct.1 hleft)) (Nat.le_add_left _ _)

/-- More texts change nothing if and only if all of them are there already. -/
theorem distinct_append_eq_iff {left right : List Text} :
    distinct (left ++ right) = distinct left ↔ ∀ text ∈ right, text ∈ left := by
  constructor
  · intro h text htext
    rw [← mem_distinct, ← h, mem_distinct]
    exact List.mem_append_right left htext
  · intro h
    induction right using List.reverseRecOn with
    | nil => rw [List.append_nil]
    | append_singleton right last ih =>
      have hlast : last ∈ distinct (left ++ right) :=
        mem_distinct.2 (List.mem_append_left right (h last (by simp)))
      rw [← List.append_assoc, distinct_snoc, if_pos hlast]
      exact ih fun text htext => h text (List.mem_append_left _ htext)

/-! ### Risk -/

/-- The risk of the first of some tiers that has a word among tokens. -/
def riskAmong (tiers : List (Risk × List Text)) (tokens : List Text) : Risk :=
  ((tiers.find? fun tier => tier.2.any tokens.contains).map Prod.fst).getD .low

theorem riskOf_eq (tokens : List Text) : riskOf tokens = riskAmong tiers tokens := by
  unfold riskOf riskAmong
  cases tiers.find? fun tier => tier.2.any tokens.contains <;> rfl

theorem riskAmong_cons (tier : Risk × List Text) (tiers : List (Risk × List Text)) (tokens : List Text) :
    riskAmong (tier :: tiers) tokens =
      if tier.2.any tokens.contains then tier.1 else riskAmong tiers tokens := by
  unfold riskAmong
  rw [List.find?_cons]
  cases tier.2.any tokens.contains <;> rfl

theorem level_riskAmong_le {tiers : List (Risk × List Text)} {bound : Risk}
    (h : ∀ tier ∈ tiers, tier.1.level ≤ bound.level) (tokens : List Text) :
    (riskAmong tiers tokens).level ≤ bound.level := by
  induction tiers with
  | nil => exact Nat.zero_le _
  | cons tier tiers ih =>
    rw [riskAmong_cons]
    split
    · exact h tier List.mem_cons_self
    · exact ih fun other hother => h other (List.mem_cons_of_mem _ hother)

theorem max_eq_left_iff (left right : Risk) : left.max right = left ↔ right.level ≤ left.level := by
  cases left <;> cases right <;> decide

theorem any_contains_append (words left right : List Text) :
    words.any (left ++ right).contains = (words.any left.contains || words.any right.contains) := by
  rw [Bool.eq_iff_iff]
  simp only [List.any_eq_true, Bool.or_eq_true, List.contains_iff_mem, List.mem_append, ← exists_or,
    ← and_or_left]

/-- With the most dangerous tier first, the risk of tokens is that of the more dangerous part. -/
theorem riskAmong_append {tiers : List (Risk × List Text)}
    (h : tiers.Pairwise fun upper lower => lower.1.level ≤ upper.1.level) (left right : List Text) :
    riskAmong tiers (left ++ right) = (riskAmong tiers left).max (riskAmong tiers right) := by
  induction tiers with
  | nil => rfl
  | cons tier tiers ih =>
    obtain ⟨hbelow, hrest⟩ := List.pairwise_cons.1 h
    rw [riskAmong_cons, riskAmong_cons, riskAmong_cons, any_contains_append]
    cases tier.2.any left.contains with
    | false =>
      cases tier.2.any right.contains with
      | false => exact ih hrest
      | true => exact (if_pos (level_riskAmong_le hbelow left)).symm
    | true =>
      cases tier.2.any right.contains with
      | false => exact ((max_eq_left_iff _ _).2 (level_riskAmong_le hbelow right)).symm
      | true => exact ((max_eq_left_iff _ _).2 (Nat.le_refl _)).symm

/-- **The risk of tokens is that of the more dangerous part.** -/
theorem riskOf_append (left right : List Text) :
    riskOf (left ++ right) = (riskOf left).max (riskOf right) := by
  rw [riskOf_eq, riskOf_eq, riskOf_eq]
  exact riskAmong_append (by decide) left right

/-! ### Operators -/

/-- The numbers of operators of two texts. -/
def Operators.add (left right : Operators) : Operators :=
  ⟨left.pipes + right.pipes, left.chains + right.chains⟩

theorem Operators.zero_add (counts : Operators) : Operators.add ⟨0, 0⟩ counts = counts := by
  simp [Operators.add]

theorem Operators.chain_add (left right : Operators) : left.chain.add right = (left.add right).chain := by
  simp [Operators.add, Operators.chain, Nat.add_right_comm]

theorem Operators.pipe_add (left right : Operators) : left.pipe.add right = (left.add right).pipe := by
  simp [Operators.add, Operators.pipe, Nat.add_right_comm]

/-- The operators of a text by its first characters. -/
theorem operators_cons (before : Option Char) (quote : Quote.State) (c : Char) (text : Text) :
    operators before quote (c :: text) =
      if quote.isSome || Quote.isMark c then operators (some c) (Quote.step quote c) text
      else if c == '#' && commentFollows before then ⟨0, 0⟩
      else if (c = '|' ∨ c = '&') ∧ text.head? = some c then (operators (some c) none text.tail).chain
      else if c = '|' then (operators (some c) none text).pipe
      else if c = ';' then (operators (some c) none text).chain
      else operators (some c) none text := by
  rw [operators.eq_def]
  dsimp only
  split_ifs with hquoted hcomment hdouble hpipe hsemicolon
  · rfl
  · rfl
  · obtain ⟨hc, htext⟩ := hdouble
    obtain ⟨rest, rfl⟩ := List.head?_eq_some_iff.1 htext
    rcases hc with rfl | rfl <;> rfl
  · split <;> simp_all
  · rw [hsemicolon]
    rfl
  · split <;> simp_all

section

variable {before : Option Char} {c : Char} {text : Text}

theorem operators_double (hc : c = '|' ∨ c = '&') :
    operators before none (c :: c :: text) = (operators (some c) none text).chain := by
  have hmark : ¬ (Option.isSome (none : Quote.State) || Quote.isMark c) = true := by
    rcases hc with rfl | rfl <;> decide
  have hcomment : ¬ (c == '#' && commentFollows before) = true := by
    rcases hc with rfl | rfl <;> simp
  rw [operators_cons, if_neg hmark, if_neg hcomment, if_pos ⟨hc, rfl⟩]
  rfl

theorem operators_pipe (h : text.head? ≠ some '|') :
    operators before none ('|' :: text) = (operators (some '|') none text).pipe := by
  rw [operators_cons, if_neg (by decide), if_neg (by simp), if_neg (by simp [h]), if_pos rfl]

theorem operators_semicolon (before : Option Char) (text : Text) :
    operators before none (';' :: text) = (operators (some ';') none text).chain := by
  rw [operators_cons, if_neg (by decide), if_neg (by simp), if_neg (by simp), if_neg (by decide),
    if_pos rfl]

theorem operators_other (hmark : Quote.isMark c = false) (hcomment : c ≠ '#') (hpipe : c ≠ '|')
    (hand : c = '&' → text.head? ≠ some '&') (hsemicolon : c ≠ ';') :
    operators before none (c :: text) = operators (some c) none text := by
  have hdouble : ¬ ((c = '|' ∨ c = '&') ∧ text.head? = some c) := by
    rintro ⟨rfl | rfl, htext⟩
    · exact hpipe rfl
    · exact hand rfl htext
  rw [operators_cons, if_neg (by simp [hmark]), if_neg (by simp [hcomment]), if_neg hdouble, if_neg hpipe,
    if_neg hsemicolon]

end

/-- **The operators of a text are those of its parts**, if no comment starts in the first part and no
operator reaches over the joint. -/
theorem operators_append {front back : Text} (hfront : '#' ∉ front)
    (hback : ∀ c ∈ back.head?, c ≠ '|' ∧ c ≠ '&') (before : Option Char) (quote : Quote.State) :
    operators before quote (front ++ back) =
      (operators before quote front).add
        (operators (Call.lastOr before front) (Quote.run quote front) back) := by
  have hhead : ∀ {text : Text} {c : Char}, c = '|' ∨ c = '&' → text.head? ≠ some c →
      (text ++ back).head? ≠ some c := by
    intro text c hc htext h
    cases text with
    | nil =>
      obtain ⟨hpipe, hand⟩ := hback c h
      exact hc.elim hpipe hand
    | cons d text => exact htext h
  fun_induction operators before quote front with
  | case1 => exact (Operators.zero_add _).symm
  | case2 before quote c text hquoted ih =>
    rw [List.mem_cons, not_or] at hfront
    rw [List.cons_append, operators_cons, if_pos hquoted, ih hfront.2, Call.lastOr_cons]
    rfl
  | case3 before quote c text hquoted hcomment =>
    rw [Bool.and_eq_true, beq_iff_eq] at hcomment
    exact absurd (hcomment.1 ▸ List.mem_cons_self) hfront
  | case4 before quote text hquoted hcomment ih =>
    obtain ⟨rfl, -⟩ := Quote.eq_none_of_not_quoted hquoted
    rw [List.mem_cons, List.mem_cons, not_or, not_or] at hfront
    rw [List.cons_append, List.cons_append, operators_double (Or.inl rfl), ih hfront.2.2,
      Operators.chain_add, Call.lastOr_cons, Call.lastOr_cons]
    rfl
  | case5 before quote text hsingle hquoted hcomment ih =>
    obtain ⟨rfl, -⟩ := Quote.eq_none_of_not_quoted hquoted
    rw [List.mem_cons, not_or] at hfront
    have htext : text.head? ≠ some '|' := by
      intro h
      obtain ⟨rest, rfl⟩ := List.head?_eq_some_iff.1 h
      exact hsingle rest rfl
    rw [List.cons_append, operators_pipe (hhead (Or.inl rfl) htext), ih hfront.2, Operators.pipe_add,
      Call.lastOr_cons]
    rfl
  | case6 before quote text hquoted hcomment ih =>
    obtain ⟨rfl, -⟩ := Quote.eq_none_of_not_quoted hquoted
    rw [List.mem_cons, List.mem_cons, not_or, not_or] at hfront
    rw [List.cons_append, List.cons_append, operators_double (Or.inr rfl), ih hfront.2.2,
      Operators.chain_add, Call.lastOr_cons, Call.lastOr_cons]
    rfl
  | case7 before quote text hquoted hcomment ih =>
    obtain ⟨rfl, -⟩ := Quote.eq_none_of_not_quoted hquoted
    rw [List.mem_cons, not_or] at hfront
    rw [List.cons_append, operators_semicolon, ih hfront.2, Operators.chain_add, Call.lastOr_cons]
    rfl
  | case8 before quote c hquoted hcomment text _ hpipe hands hsemicolon ih =>
    obtain ⟨rfl, hmark⟩ := Quote.eq_none_of_not_quoted hquoted
    rw [List.mem_cons, not_or] at hfront
    have htext : c = '&' → (text ++ back).head? ≠ some '&' := by
      intro hc
      refine hhead (Or.inr rfl) fun h => ?_
      obtain ⟨rest, rfl⟩ := List.head?_eq_some_iff.1 h
      exact hands rest hc rfl
    rw [List.cons_append, operators_other hmark (Ne.symm hfront.1) hpipe htext hsemicolon, ih hfront.2,
      Call.lastOr_cons, Quote.run_none_cons hmark]

/-! ### Commands -/

theorem commands_cons (quote : Quote.State) (c : Char) (text : Text) :
    commands quote (c :: text) =
      if quote.isNone && endsCommand c then [] :: commands none (text.dropWhile (· == c))
      else extendFirst c (commands (Quote.step quote c) text) := by
  rw [commands]

theorem isMark_of_endsCommand {c : Char} (h : endsCommand c = true) : Quote.isMark c = false := by
  unfold endsCommand at h
  simp only [Bool.or_eq_true, beq_iff_eq] at h
  rcases h with (rfl | rfl) | rfl <;> rfl

theorem exists_cons_commands (quote : Quote.State) (text : Text) :
    ∃ first rest, commands quote text = first :: rest := by
  cases text with
  | nil => exact ⟨[], [], by rw [commands]⟩
  | cons c text =>
    rw [commands_cons]
    split
    · exact ⟨[], _, rfl⟩
    · cases commands (Quote.step quote c) text with
      | nil => exact ⟨[c], [], rfl⟩
      | cons first rest => exact ⟨c :: first, rest, rfl⟩

theorem dropWhile_append_of_head? {front back : Text} {p : Char → Bool}
    (hback : ∀ c ∈ back.head?, p c = false) :
    (front ++ back).dropWhile p = front.dropWhile p ++ back := by
  rw [List.dropWhile_append]
  split
  next hnil =>
    rw [List.isEmpty_iff.1 hnil, List.nil_append]
    cases back with
    | nil => rfl
    | cons c back => exact List.dropWhile_cons_of_neg (by simp [hback c rfl])
  next => rfl

theorem run_none_dropWhile {p : Char → Bool} (hp : ∀ c, p c = true → Quote.isMark c = false)
    (text : Text) : Quote.run none (text.dropWhile p) = Quote.run none text := by
  induction text with
  | nil => rfl
  | cons c text ih =>
    cases hc : p c with
    | true => rw [List.dropWhile_cons_of_pos hc, ih, Quote.run_none_cons (hp c hc)]
    | false => rw [List.dropWhile_cons_of_neg (by simp [hc])]

/-- **The commands of a text are those of its parts**, if no operator stands behind the joint: the last
command of the first part goes on with the first one of the second. -/
theorem exists_commands_append (quote : Quote.State) (front : Text) {back : Text}
    (hback : ∀ c ∈ back.head?, endsCommand c = false) :
    ∃ init last first rest, commands quote front = init ++ [last] ∧
      commands (Quote.run quote front) back = first :: rest ∧
      commands quote (front ++ back) = init ++ (last ++ first) :: rest := by
  fun_induction commands quote front with
  | case1 quote =>
    obtain ⟨first, rest, h⟩ := exists_cons_commands quote back
    exact ⟨[], [], first, rest, rfl, h, h⟩
  | case2 quote c text hends ih =>
    obtain ⟨init, last, first, rest, hfront, hrest, hall⟩ := ih
    obtain ⟨rfl, hc⟩ : quote = none ∧ endsCommand c = true := by simpa using hends
    have hsame : ∀ d, (d == c) = true → endsCommand d = true := by
      intro d hd
      rwa [beq_iff_eq.1 hd]
    have hjoint : ∀ d ∈ back.head?, (d == c) = false := by
      intro d hd
      refine Bool.eq_false_iff.2 fun heq => ?_
      exact absurd (hsame d heq) (by simp [hback d hd])
    refine ⟨[] :: init, last, first, rest, by rw [hfront]; rfl, ?_, ?_⟩
    · rw [Quote.run_none_cons (isMark_of_endsCommand hc), ← hrest,
        run_none_dropWhile fun d hd => isMark_of_endsCommand (hsame d hd)]
    · rw [List.cons_append, commands_cons, if_pos hends, dropWhile_append_of_head? hjoint, hall]
      rfl
  | case3 quote c text hends ih =>
    obtain ⟨init, last, first, rest, hfront, hrest, hall⟩ := ih
    rw [hfront, List.cons_append, commands_cons, if_neg hends, hall]
    cases init with
    | nil => exact ⟨[], c :: last, first, rest, rfl, hrest, rfl⟩
    | cons command init => exact ⟨(c :: command) :: init, last, first, rest, rfl, hrest, rfl⟩

/-- The characters of a command are characters of the text. -/
theorem mem_of_mem_commands {quote : Quote.State} {text command : Text}
    (h : command ∈ commands quote text) {c : Char} (hc : c ∈ command) : c ∈ text := by
  fun_induction commands quote text generalizing command with
  | case1 =>
    rw [List.mem_singleton.1 h] at hc
    cases hc
  | case2 quote d text hends ih =>
    rcases List.mem_cons.1 h with rfl | h
    · cases hc
    · exact List.mem_cons_of_mem d ((List.dropWhile_suffix _).subset (ih h hc))
  | case3 quote d text hends ih =>
    obtain ⟨first, rest, hcommands⟩ := exists_cons_commands (Quote.step quote d) text
    rw [hcommands] at h ih
    rcases List.mem_cons.1 h with rfl | h
    · rcases List.mem_cons.1 hc with rfl | hc
      · exact List.mem_cons_self
      · exact List.mem_cons_of_mem d (ih List.mem_cons_self hc)
    · exact List.mem_cons_of_mem d (ih (List.mem_cons_of_mem first h) hc)

/-! ### Resources and programs -/

/-- The resources of a line are those of the bodies of its calls. -/
theorem resourcesOf_eq (keyword line : Text) :
    resourcesOf keyword line =
      distinct ((Call.bodies keyword line).filterMap fun body => resource? (keyword ++ body)) := by
  have hcalls : ((Call.all keyword line).filterMap fun call => resource? call.text) =
      ((Call.all keyword line).map Stretch.text).filterMap resource? := by
    rw [List.filterMap_map]
    rfl
  rw [resourcesOf, hcalls, Call.all, Call.map_text_locate, List.filterMap_map]
  rfl

/-- The programs other than the tool itself that commands run, in order and with repetitions. -/
def programsOf (keyword : Text) (commands : List Text) : List Text :=
  (commands.filterMap program?).filter fun program => program != keyword && program.head? != some '#'

theorem dependenciesOf_eq (keyword line : Text) :
    dependenciesOf keyword line = distinct (programsOf keyword (commands none line)) := rfl

theorem programsOf_append (keyword : Text) (left right : List Text) :
    programsOf keyword (left ++ right) = programsOf keyword left ++ programsOf keyword right := by
  rw [programsOf, List.filterMap_append, List.filter_append]
  rfl

end Impact
end ScriptUpgrade
