/-
# Calls of a line whose bodies were rewritten

A line is cut into parts, the bodies of its calls are rewritten, and the parts are put together again.
If every body keeps what can be seen of it from the outside (`Keeps`), the new line has the rewritten
calls and no others (`dissect_rewrite`). This holds for every keyword, also for one that holds blanks,
quotes or operators.

More is true (`exists_scan_rewrite`): up to the first body that does not keep this, the calls are the
rewritten ones.
-/

import ScriptUpgrade.Proofs.Reach

namespace ScriptUpgrade
namespace Call

open Text (isAsciiBlank)

/-- A part with another body. -/
def Part.rewrite (change : Text → Text) : Part → Part
  | .outside c => .outside c
  | .call body => .call (change body)

/-- Parts with other bodies. -/
def rewrite (change : Text → Text) (parts : List Part) : List Part :=
  parts.map (Part.rewrite change)

variable {k : Char} {ks : Text} {change : Text → Text}

@[simp] theorem rewrite_nil : rewrite change [] = [] := rfl

@[simp] theorem rewrite_outside (c : Char) (parts : List Part) :
    rewrite change (.outside c :: parts) = .outside c :: rewrite change parts := rfl

@[simp] theorem rewrite_call (body : Text) (parts : List Part) :
    rewrite change (.call body :: parts) = .call (change body) :: rewrite change parts := rfl

theorem rewrite_map_outside (text : Text) :
    rewrite change (text.map .outside) = text.map .outside := by
  induction text with
  | nil => rfl
  | cons c text ih => simp [ih]

theorem rewrite_id (parts : List Part) : rewrite id parts = parts := by
  have hpart : Part.rewrite id = id := by
    funext part
    cases part <;> rfl
  rw [rewrite, hpart, List.map_id]

theorem rewrite_rewrite (change change' : Text → Text) (parts : List Part) :
    rewrite change' (rewrite change parts) = rewrite (change' ∘ change) parts := by
  have hpart : Part.rewrite change' ∘ Part.rewrite change = Part.rewrite (change' ∘ change) := by
    funext part
    cases part <;> rfl
  rw [rewrite, rewrite, List.map_map, hpart]
  rfl

@[simp] theorem assemble_nil (keyword : Text) : assemble keyword [] = [] := rfl

@[simp] theorem assemble_cons_outside (keyword : Text) (c : Char) (parts : List Part) :
    assemble keyword (.outside c :: parts) = c :: assemble keyword parts := rfl

@[simp] theorem assemble_cons_call (keyword body : Text) (parts : List Part) :
    assemble keyword (.call body :: parts) = keyword ++ body ++ assemble keyword parts := rfl

/-- A body and what it becomes look the same from the outside. -/
structure Keeps (last : Option Char) (old new : Text) : Prop where
  head : new.head? = old.head?
  follow : mayFollow new.getLast? = mayFollow old.getLast?
  comment : commentMayFollow new.getLast? = commentMayFollow old.getLast?
  quote : Quote.run none new = Quote.run none old
  clear : Clear last none new

/-- Two characters before a text that the scanner does not tell apart. -/
def Alike (before before' : Option Char) : Prop :=
  mayFollow before' = mayFollow before ∧ commentMayFollow before' = commentMayFollow before

theorem Alike.lastOr {before before' : Option Char} (h : Alike before before') (text : Text) :
    Alike (lastOr before text) (lastOr before' text) := by
  by_cases htext : text = []
  · rw [htext]
    exact h
  · rw [lastOr_of_ne_nil htext, lastOr_of_ne_nil htext]
    exact ⟨rfl, rfl⟩

theorem Keeps.nil_iff {last : Option Char} {old new : Text} (h : Keeps last old new) :
    new = [] ↔ old = [] := by
  rw [← List.head?_eq_none_iff, h.head, List.head?_eq_none_iff]

theorem Keeps.alike {last : Option Char} {old new : Text} (h : Keeps last old new)
    (before : Option Char) : Alike (lastOr before old) (lastOr before new) := by
  by_cases hnew : new = []
  · rw [hnew, h.nil_iff.1 hnew]
    exact ⟨rfl, rfl⟩
  · have hold : old ≠ [] := fun hold => hnew (h.nil_iff.2 hold)
    rw [lastOr_of_ne_nil hnew, lastOr_of_ne_nil hold]
    exact ⟨h.follow, h.comment⟩

/-- The last character of the rewritten body is no ASCII blank if that of the body is none. -/
theorem Keeps.last_not_blank {last : Option Char} {old new : Text} (h : Keeps last old new)
    (hold : ∀ c ∈ old.getLast?, isAsciiBlank c = false) :
    ∀ c ∈ new.getLast?, isAsciiBlank c = false := by
  intro c hc
  have hcomment := h.comment
  rw [Option.mem_def.1 hc] at hcomment
  cases hlast : old.getLast? with
  | none =>
    rw [h.nil_iff.2 (List.getLast?_eq_none_iff.1 hlast)] at hc
    simp at hc
  | some d =>
    rw [hlast] at hcomment
    exact hcomment.trans (hold d hlast)

/-! ### The keyword in a rewritten line -/

theorem afterKeyword?_eq_some_iff {keyword text rest : Text} :
    afterKeyword? keyword text = some rest ↔
      text = keyword ++ rest ∧ ∀ c ∈ rest.head?, isAsciiBlank c = true := by
  constructor
  · intro h
    refine ⟨(append_of_afterKeyword? h).symm, ?_⟩
    unfold afterKeyword? at h
    split at h
    · simp at h
    · obtain rfl := Option.some.inj h
      simp
    · split at h
      · rename_i hblank
        obtain rfl := Option.some.inj h
        simpa using hblank
      · simp at h
  · rintro ⟨rfl, hrest⟩
    unfold afterKeyword?
    rw [Text.after?_append]
    cases rest with
    | nil => rfl
    | cons c rest => simp [hrest c rfl]

/-- Rewriting changes nothing within the length of the keyword from the start. -/
theorem take_assemble_rewrite (keyword : Text) (parts : List Part) {n : Nat} (hn : n ≤ keyword.length) :
    (assemble keyword (rewrite change parts)).take n = (assemble keyword parts).take n := by
  induction parts generalizing n with
  | nil => rfl
  | cons part parts ih =>
    cases part with
    | outside c =>
      cases n with
      | zero => rfl
      | succ n => simp [ih (show n ≤ keyword.length by omega)]
    | call body => simp [List.take_append_of_le_length, hn]

theorem head?_assemble_rewrite (parts : List Part) :
    (assemble (k :: ks) (rewrite change parts)).head? = (assemble (k :: ks) parts).head? := by
  have h : (assemble (k :: ks) (rewrite change parts)).take 1 =
      (assemble (k :: ks) parts).take 1 :=
    take_assemble_rewrite (k :: ks) parts (by simp)
  have hhead := congrArg List.head? h
  rwa [List.head?_take, List.head?_take, if_neg Nat.one_ne_zero, if_neg Nat.one_ne_zero] at hhead

/-- Where the keyword does not stand, it does not stand after a rewriting of what follows. -/
theorem afterKeyword?_rewrite_eq_none {parts : List Part}
    (h : afterKeyword? ks (assemble (k :: ks) parts) = none) :
    afterKeyword? ks (assemble (k :: ks) (rewrite change parts)) = none := by
  by_contra hsome
  obtain ⟨rest', hrest'⟩ := Option.ne_none_iff_exists'.1 hsome
  obtain ⟨htext, hblank⟩ := afterKeyword?_eq_some_iff.1 hrest'
  have htake : (assemble (k :: ks) (rewrite change parts)).take (ks.length + 1) =
      (assemble (k :: ks) parts).take (ks.length + 1) :=
    take_assemble_rewrite (k :: ks) parts (by simp)
  rw [htext, List.take_length_add_append] at htake
  have hsplit := List.take_append_drop (ks.length + 1) (assemble (k :: ks) parts)
  rw [← htake, List.append_assoc] at hsplit
  have hagain : afterKeyword? ks (assemble (k :: ks) parts) ≠ none := by
    rw [afterKeyword?_eq_some_iff.2 ⟨hsplit.symm, ?_⟩]
    · simp
    · cases rest' with
      | nil =>
        intro c hc
        -- the new line ends here, so the old one does
        have hlength := congrArg List.length htake
        simp only [List.take_nil, List.append_nil, List.length_take] at hlength
        have hdrop : (assemble (k :: ks) parts).drop (ks.length + 1) = [] := by
          rw [List.drop_eq_nil_iff]
          omega
        rw [hdrop] at hc
        simp at hc
      | cons d rest' =>
        intro c hc
        obtain rfl : d = c := by simpa using hc
        exact hblank d rfl
  exact hagain h

/-! ### What follows a body -/

theorem isMark_eq_false_of_isAsciiBlank {c : Char} (h : isAsciiBlank c = true) :
    Quote.isMark c = false := by
  simp only [isAsciiBlank, Bool.or_eq_true, beq_iff_eq] at h
  rcases h with (((rfl | rfl) | rfl) | rfl) | rfl <;> decide

/-- Blanks and the character at which reading halts stay where they are when what follows a body is
rewritten. Calls that begin among the blanks have empty bodies or reach beyond that character. -/
theorem exists_assemble_rewrite (k : Char) (ks : Text) (hnil : change [] = []) {before : Option Char} {blanks stop : Text}
    (hblanks : ∀ c ∈ blanks, isAsciiBlank c = true) (hhalt : reach (lastOr before blanks) none stop = []) :
    ∃ stop', assemble (k :: ks) (rewrite change (scan k ks before none (blanks ++ stop))) =
        blanks ++ stop' ∧ stop'.head? = stop.head? := by
  generalize htext : blanks ++ stop = text
  generalize hquote : (none : Quote.State) = quote
  fun_induction scan k ks before quote text generalizing blanks with
  | case1 =>
    obtain ⟨rfl, rfl⟩ := List.append_eq_nil_iff.1 htext
    exact ⟨[], rfl, rfl⟩
  | case2 before quote c text hmark ih =>
    subst hquote
    rcases List.append_eq_cons_iff.1 htext with ⟨rfl, rfl⟩ | ⟨blanks, rfl, rfl⟩
    · exact ⟨_, rfl, rfl⟩
    · have hblank := hblanks c (by simp)
      have := isMark_eq_false_of_isAsciiBlank hblank
      simp [this] at hmark
  | case3 before quote c text =>
    rw [rewrite_map_outside, assemble_outside, ← htext]
    exact ⟨stop, rfl, rfl⟩
  | case4 before quote c text _ _ hk rest h called =>
    rename_i ih
    obtain rfl : c = k := by simp at hk; exact hk.2
    rw [(afterKeyword?_eq_some_iff.1 h).1] at htext
    rw [rewrite_call, assemble_cons_call, List.append_assoc]
    rw [← List.cons_append] at htext
    rcases Text.append_eq_append_cases htext with
      ⟨blanks, rfl, hrest⟩ | ⟨extra, hextra, hkeyword, rfl⟩
    · rw [lastOr_append, lastOr_of_ne_nil (List.cons_ne_nil c ks)] at hhalt
      have hblanks' : ∀ d ∈ blanks, isAsciiBlank d = true := fun d hd => hblanks d (by simp [hd])
      have hcalled : called = [] := by
        have hrun : Quote.run none blanks = none := Quote.run_eq_self Quote.isOpen_none
          fun d hd => isMark_eq_false_of_isAsciiBlank (hblanks' d hd)
        have hbody : body (c :: ks).getLast? ([] ++ (blanks ++ stop)) = [] :=
          body_append rfl (by simp) hblanks' (by rw [List.nil_append, hrun]; exact hhalt)
        rw [← hbody, List.nil_append, ← hrest]
      rw [hcalled, List.append_nil, List.length_nil, List.drop_zero] at ih ⊢
      obtain ⟨stop', hstop, hhead⟩ := ih hblanks' hhalt hrest.symm rfl
      exact ⟨stop', by rw [hstop, hnil, List.nil_append, List.append_assoc], hhead⟩
    · obtain ⟨d, extra, rfl⟩ := List.exists_cons_of_ne_nil hextra
      generalize change called ++ assemble (c :: ks) _ = after
      exact ⟨d :: extra ++ after, by rw [hkeyword, List.append_assoc], rfl⟩
  | case5 before quote c text _ _ _ _ ih =>
    rcases List.append_eq_cons_iff.1 htext with ⟨rfl, rfl⟩ | ⟨blanks, rfl, rfl⟩
    · exact ⟨_, rfl, rfl⟩
    · rw [lastOr_cons] at hhalt
      obtain ⟨stop', hstop, hhead⟩ := ih (fun d hd => hblanks d (by simp [hd])) hhalt rfl rfl
      exact ⟨stop', by rw [rewrite_outside, assemble_cons_outside, hstop, List.cons_append], hhead⟩
  | case6 before quote c text _ _ _ ih =>
    rcases List.append_eq_cons_iff.1 htext with ⟨rfl, rfl⟩ | ⟨blanks, rfl, rfl⟩
    · exact ⟨_, rfl, rfl⟩
    · rw [lastOr_cons] at hhalt
      obtain ⟨stop', hstop, hhead⟩ := ih (fun d hd => hblanks d (by simp [hd])) hhalt rfl rfl
      exact ⟨stop', by rw [rewrite_outside, assemble_cons_outside, hstop, List.cons_append], hhead⟩

/-! ### Scanning again -/

/-- A call of a keyword that starts with `k` may begin after `before`. -/
structure MayCall (k : Char) (before : Option Char) : Prop where
  noMark : Quote.isMark k = false
  noComment : (k == '#' && commentMayFollow before) = false
  follow : mayFollow before = true

/-- A call is read where one may begin. -/
theorem scan_call {before : Option Char} (h : MayCall k before) {rest : Text}
    (hrest : ∀ c ∈ rest.head?, isAsciiBlank c = true) :
    scan k ks before none (k :: ks ++ rest) =
      .call (body (k :: ks).getLast? rest) ::
        scan k ks (k :: ks ++ body (k :: ks).getLast? rest).getLast? none
          (rest.drop (body (k :: ks).getLast? rest).length) := by
  have hafter : afterKeyword? ks (ks ++ rest) = some rest :=
    afterKeyword?_eq_some_iff.2 ⟨rfl, hrest⟩
  rw [List.cons_append, scan, if_neg (by simp [h.noMark]), if_neg (by simp [h.noComment]),
    if_pos (by simp [h.follow])]
  split
  · rename_i rest' h'
    rw [hafter] at h'
    obtain rfl := Option.some.inj h'
    rfl
  · rename_i h'
    rw [hafter] at h'
    simp at h'

/-- A character is passed over where no quote, comment or call begins. -/
theorem scan_outside {before : Option Char} {c : Char} {text : Text} (hmark : Quote.isMark c = false)
    (hcomment : ¬ (c == '#' && commentMayFollow before) = true)
    (hcall : (mayFollow before && c == k) = true → afterKeyword? ks text = none) :
    scan k ks before none (c :: text) = .outside c :: scan k ks (some c) none text := by
  rw [scan, if_neg (by simp [hmark]), if_neg hcomment]
  split
  next hk =>
    split
    next rest hrest =>
      rw [hcall hk] at hrest
      cases hrest
    next => rfl
  next => rfl

theorem scan_congr {before before' : Option Char} (h : Alike before before') (quote : Quote.State)
    (text : Text) : scan k ks before quote text = scan k ks before' quote text := by
  cases text with
  | nil => rw [scan, scan]
  | cons c text => rw [scan, scan, h.1, h.2]

/-- A rewritten body is again read as the body. -/
theorem body_rewrite (k : Char) (ks : Text) (hnil : change [] = []) {rest : Text}
    (hkeeps : Keeps (k :: ks).getLast? (body (k :: ks).getLast? rest)
      (change (body (k :: ks).getLast? rest))) :
    body (k :: ks).getLast? (change (body (k :: ks).getLast? rest) ++
      assemble (k :: ks) (rewrite change
        (scan k ks (k :: ks ++ body (k :: ks).getLast? rest).getLast? none
          (rest.drop (body (k :: ks).getLast? rest).length)))) =
      change (body (k :: ks).getLast? rest) := by
  obtain ⟨blanks, stop, hrest, -, hlast, hblanks, hhalt⟩ := exists_body_append (k :: ks).getLast? rest
  generalize hcalled : body (k :: ks).getLast? rest = called at *
  have hdrop : rest.drop called.length = blanks ++ stop := by rw [hrest, List.drop_left]
  have hhalt' : reach (lastOr (k :: ks ++ called).getLast? blanks) none stop = [] := by
    rw [lastOr_append] at hhalt
    rw [List.getLast?_append]
    exact reach_none_eq_nil hhalt
  obtain ⟨stop', hafter, hhead⟩ := exists_assemble_rewrite k ks hnil hblanks hhalt'
  rw [hdrop, hafter]
  refine body_append hkeeps.clear (hkeeps.last_not_blank hlast) hblanks ?_
  refine reach_eq_nil_of_head? ?_ hhead
  rw [Quote.run_append, hkeeps.quote, ← Quote.run_append, ← hhalt, lastOr_append, lastOr_append]
  exact reach_congr ((hkeeps.alike _).lastOr blanks).2 _ _

/-- **A call whose body keeps its look is read again**, and then the scanner goes on as it did behind the
body it had. -/
theorem scan_rewrite_call (hnil : change [] = []) {before : Option Char} (hmay : MayCall k before)
    {rest called : Text} {parts : List Part} (hrest : ∀ c ∈ rest.head?, isAsciiBlank c = true)
    (hcalled : body (k :: ks).getLast? rest = called)
    (hparts : scan k ks (k :: ks ++ called).getLast? none (rest.drop called.length) = parts)
    (hkeeps : Keeps (k :: ks).getLast? called (change called)) :
    scan k ks before none (assemble (k :: ks) (rewrite change (.call called :: parts))) =
      .call (change called) ::
        scan k ks (k :: ks ++ called).getLast? none (assemble (k :: ks) (rewrite change parts)) := by
  subst hcalled
  have hbody := body_rewrite k ks hnil hkeeps
  rw [hparts] at hbody
  obtain ⟨tail, htail⟩ := body_isPrefix (k :: ks).getLast? rest
  generalize body (k :: ks).getLast? rest = called at *
  -- the rewritten body begins as the body does, and what follows it as before
  have hhead : (change called ++ assemble (k :: ks) (rewrite change parts)).head? = rest.head? := by
    rw [List.head?_append, hkeeps.head, head?_assemble_rewrite, ← List.head?_append, ← hparts,
      assemble_scan, ← htail, List.drop_left]
  have halike : Alike (k :: ks ++ called).getLast? (k :: ks ++ change called).getLast? := by
    rw [List.getLast?_append, List.getLast?_append]
    exact hkeeps.alike _
  rw [rewrite_call, assemble_cons_call, List.append_assoc, scan_call hmay (by rwa [hhead]), hbody,
    List.drop_left, ← scan_congr halike]

theorem exists_cons_of_outside {c : Char} {parts left right : List Part}
    (h : .outside c :: parts = left ++ right)
    (hright : right = [] ∨ ∃ body parts, right = .call body :: parts) :
    ∃ left', left = .outside c :: left' ∧ parts = left' ++ right := by
  rcases List.cons_eq_append_iff.1 h with ⟨rfl, rfl⟩ | ⟨left', rfl, rfl⟩
  · rcases hright with h | ⟨body, parts', h⟩
    · simp at h
    · simp at h
  · exact ⟨left', rfl, rfl⟩

/-- **Up to the first body that does not keep its look, the calls are the rewritten ones.** From there
on the new line is scanned anew, after some character after which a call may begin. -/
theorem exists_scan_rewrite (hnil : change [] = []) {before : Option Char} {quote : Quote.State}
    {text : Text} {left right : List Part} (hscan : scan k ks before quote text = left ++ right)
    (hright : right = [] ∨ ∃ body parts, right = .call body :: parts)
    (hkeeps : ∀ body, .call body ∈ left → Keeps (k :: ks).getLast? body (change body)) :
    ∃ before', (right ≠ [] → MayCall k before') ∧
      scan k ks before quote (assemble (k :: ks) (rewrite change (left ++ right))) =
        rewrite change left ++ scan k ks before' none (assemble (k :: ks) (rewrite change right)) := by
  have htail : ∀ {part : Part} {left : List Part},
      (∀ body, .call body ∈ part :: left → Keeps (k :: ks).getLast? body (change body)) →
        ∀ body, .call body ∈ left → Keeps (k :: ks).getLast? body (change body) :=
    fun h body hbody => h body (List.mem_cons_of_mem _ hbody)
  fun_induction scan k ks before quote text generalizing left with
  | case1 =>
    obtain ⟨rfl, rfl⟩ := List.nil_eq_append_iff.1 hscan
    exact ⟨none, by simp, by simp [scan]⟩
  | case2 before quote c text hmark ih =>
    obtain ⟨left, rfl, hparts⟩ := exists_cons_of_outside hscan hright
    obtain ⟨before', hmay, hscan'⟩ := ih hparts (htail hkeeps)
    refine ⟨before', hmay, ?_⟩
    rw [List.cons_append, rewrite_outside, assemble_cons_outside, scan, if_pos hmark, hscan']
    rfl
  | case3 before quote c text hmark hcomment =>
    have hnone : right = [] := by
      rcases hright with h | ⟨body, parts, rfl⟩
      · exact h
      · have : Part.call body ∈ (c :: text).map Part.outside := by rw [hscan]; simp
        simp at this
    subst hnone
    rw [List.append_nil] at hscan ⊢
    rw [← hscan, rewrite_map_outside, assemble_outside]
    refine ⟨none, by simp, ?_⟩
    rw [scan, if_neg hmark, if_pos hcomment]
    simp [scan]
  | case4 before quote c text hquoted hcomment hk rest h called =>
    rename_i ih
    obtain ⟨hfollow, rfl⟩ : mayFollow before = true ∧ c = k := by simpa using hk
    obtain ⟨rfl, hmark⟩ := Quote.eq_none_of_not_quoted hquoted
    have hmay : MayCall c before := ⟨hmark, by simpa using hcomment, hfollow⟩
    rcases List.cons_eq_append_iff.1 hscan with ⟨rfl, -⟩ | ⟨left, rfl, hparts⟩
    · exact ⟨before, fun _ => hmay, rfl⟩
    · obtain ⟨before', hmay', hscan'⟩ := ih hparts (htail hkeeps)
      refine ⟨before', hmay', ?_⟩
      rw [List.cons_append, scan_rewrite_call hnil hmay (afterKeyword?_eq_some_iff.1 h).2 rfl hparts
        (hkeeps called List.mem_cons_self), hscan']
      rfl
  | case5 before quote c text hquoted hcomment hk hnone ih =>
    obtain ⟨left, rfl, hparts⟩ := exists_cons_of_outside hscan hright
    obtain ⟨rfl, hmark⟩ := Quote.eq_none_of_not_quoted hquoted
    obtain ⟨before', hmay, hscan'⟩ := ih hparts (htail hkeeps)
    have hnone' : afterKeyword? ks (assemble (k :: ks) (rewrite change (left ++ right))) = none := by
      refine afterKeyword?_rewrite_eq_none ?_
      rw [← hparts, assemble_scan]
      exact hnone
    refine ⟨before', hmay, ?_⟩
    rw [List.cons_append, rewrite_outside, assemble_cons_outside,
      scan_outside hmark hcomment fun _ => hnone', hscan']
    rfl
  | case6 before quote c text hquoted hcomment hk ih =>
    obtain ⟨left, rfl, hparts⟩ := exists_cons_of_outside hscan hright
    obtain ⟨rfl, hmark⟩ := Quote.eq_none_of_not_quoted hquoted
    obtain ⟨before', hmay, hscan'⟩ := ih hparts (htail hkeeps)
    refine ⟨before', hmay, ?_⟩
    rw [List.cons_append, rewrite_outside, assemble_cons_outside,
      scan_outside hmark hcomment fun h => absurd h hk, hscan']
    rfl

/-- The same for a line all of whose bodies keep their look. -/
theorem scan_rewrite (hnil : change [] = []) {text : Text}
    (hkeeps : ∀ body, .call body ∈ scan k ks none none text →
      Keeps (k :: ks).getLast? body (change body)) :
    scan k ks none none (assemble (k :: ks) (rewrite change (scan k ks none none text))) =
      rewrite change (scan k ks none none text) := by
  obtain ⟨before', -, hscan⟩ := exists_scan_rewrite hnil
    (List.append_nil (scan k ks none none text)).symm (Or.inl rfl) hkeeps
  rwa [List.append_nil, rewrite_nil, assemble_nil, scan, List.append_nil] at hscan

end Call
end ScriptUpgrade
