/-
# Accepted commands

Whether a call is valid depends on few of its tokens: the first one without a leading dash is the
main command, and the one after it, unless it has a leading dash, the subcommand. `accepts` reads
them off the tokens after the keyword (`isValid_check`).

From there it is told what may be changed in the tokens `done ++ tail` of an accepted command:

| `done` holds | the change that keeps the command accepted |
| --- | --- |
| options only, or more | `Yields`: from an accepted tail to one, subcommands to subcommands |
| the main command | subcommands to subcommands |
| the main command and one token more | any |

No name of the release has a blank in it. So a token with a blank that is not an option is neither
the main command nor the subcommand of an accepted command.
-/

import ScriptUpgrade.Proofs.SortedTexts
import ScriptUpgrade.Proofs.TokenFront
import ScriptUpgrade.Script.Report

namespace ScriptUpgrade

namespace Text

theorem mem_lowerAfter {c : Char} (hc : isAsciiBlank c = true) (before : Text) {text : Text}
    (h : c ∈ text) : c ∈ lowerAfter before text := by
  induction text generalizing before with
  | nil => cases h
  | cons d text ih =>
    rw [lowerAfter, List.mem_append]
    rcases List.mem_cons.1 h with rfl | h
    · have hlower : c ≠ 'Σ' ∧ lowerChar c = [c] := by
        simp only [isAsciiBlank, Bool.or_eq_true, beq_iff_eq] at hc
        rcases hc with (((rfl | rfl) | rfl) | rfl) | rfl <;> decide
      rw [if_neg hlower.1, hlower.2]
      exact Or.inl List.mem_cons_self
    · exact Or.inr (ih _ h)

end Text

namespace Catalogue

/-- The entries of a catalogue are those it is made of, in lower case. -/
theorem exists_of_mem_entries {entries : List (Text × Entry)} {standalone : List Text}
    {pair : Text × Entry} (h : pair ∈ (ofEntries entries standalone).entries) :
    ∃ row ∈ entries, pair = (Text.lower row.1, row.2.lower) := by
  obtain ⟨row, hrow, rfl⟩ := List.mem_map.1 (Sorted.mem_of_mem_ofPairs h)
  exact ⟨row, Sorted.mem_of_mem_ofPairs hrow, rfl⟩

/-- Whether there is such a command with such a subcommand; no subcommand is the empty text. -/
def takes (catalogue : Catalogue) (main sub : Text) : Bool :=
  catalogue.has main &&
    if catalogue.isStandalone main then sub.isEmpty
    else if sub.isEmpty then !catalogue.needsSubcommand main
    else catalogue.hasSubcommand main sub

variable {catalogue : Catalogue} {main sub : Text}

theorem exists_of_entry?_eq_some {entry : Entry} (h : catalogue.entry? main = some entry) :
    (Text.lower main, entry) ∈ catalogue.entries := by
  unfold entry? Sorted.find? at h
  rw [Option.map_eq_some_iff] at h
  obtain ⟨⟨name, entry'⟩, hfind, rfl⟩ := h
  have hname := List.find?_some hfind
  rw [beq_iff_eq] at hname
  rw [← hname]
  exact List.mem_of_find?_eq_some hfind

theorem exists_command_of_takes (h : catalogue.takes main sub = true) :
    ∃ entry, (Text.lower main, entry) ∈ catalogue.entries := by
  rw [takes, Bool.and_eq_true, has, Option.isSome_iff_exists] at h
  obtain ⟨⟨entry, hentry⟩, -⟩ := h
  exact ⟨entry, exists_of_entry?_eq_some hentry⟩

theorem exists_subcommand_of_takes (h : catalogue.takes main sub = true) (hsub : sub ≠ []) :
    ∃ pair ∈ catalogue.entries, Text.lower sub ∈ pair.2.subcommands := by
  have hempty : sub.isEmpty = false := by simpa using hsub
  rw [takes, Bool.and_eq_true, hempty] at h
  have htakes := h.2
  split at htakes
  · cases htakes
  · rw [if_neg (by simp), hasSubcommand, subcommands?] at htakes
    cases hentry : catalogue.entry? main with
    | none => simp [hentry] at htakes
    | some entry =>
      refine ⟨_, exists_of_entry?_eq_some hentry, ?_⟩
      simpa [hentry] using htakes

/-- The names of the current release, commands and subcommands. -/
def releaseNames : List Text :=
  Builtin.table.flatMap fun row => Text.lower row.1 :: row.2.lower.subcommands

/-- **What the current release takes are names of it**, up to case. -/
theorem mem_releaseNames_of_takes (h : builtin.takes main sub = true) :
    Text.lower main ∈ releaseNames ∧ (sub ≠ [] → Text.lower sub ∈ releaseNames) := by
  constructor
  · obtain ⟨entry, hentry⟩ := exists_command_of_takes h
    obtain ⟨row, hrow, hpair⟩ := exists_of_mem_entries hentry
    refine List.mem_flatMap.2 ⟨row, hrow, ?_⟩
    rw [Prod.mk.injEq] at hpair
    rw [hpair.1]
    exact List.mem_cons_self
  · intro hne
    obtain ⟨pair, hpair, hsub⟩ := exists_subcommand_of_takes h hne
    obtain ⟨row, hrow, rfl⟩ := exists_of_mem_entries hpair
    exact List.mem_flatMap.2 ⟨row, hrow, List.mem_cons_of_mem _ hsub⟩

/-- No name of the current release has a blank in it. -/
theorem no_blank_in_releaseNames :
    ∀ name ∈ releaseNames, ∀ c ∈ name, Text.isAsciiBlank c = false := by
  decide +kernel

variable {c : Char}

theorem takes_eq_false_of_blank_main (hmem : c ∈ main) (hc : Text.isAsciiBlank c = true)
    (sub : Text) : builtin.takes main sub = false := by
  rw [Bool.eq_false_iff]
  intro h
  have := no_blank_in_releaseNames _ (mem_releaseNames_of_takes h).1 c
    (Text.mem_lowerAfter hc [] hmem)
  rw [hc] at this
  cases this

theorem takes_eq_false_of_blank_sub (hmem : c ∈ sub) (hc : Text.isAsciiBlank c = true)
    (main : Text) : builtin.takes main sub = false := by
  rw [Bool.eq_false_iff]
  intro h
  have := no_blank_in_releaseNames _ ((mem_releaseNames_of_takes h).2 (List.ne_nil_of_mem hmem)) c
    (Text.mem_lowerAfter hc [] hmem)
  rw [hc] at this
  cases this

end Catalogue

/-- A verdict looks at the main command and the subcommand only. -/
theorem Verdict.isValid_on (catalogue : Catalogue) (max : Nat) (command : Command) :
    (Verdict.on catalogue max command).isValid =
      catalogue.takes command.main command.subOrEmpty := by
  unfold Verdict.on Verdict.onMain Verdict.onSub Catalogue.takes Catalogue.hasSubcommand
  cases hhas : catalogue.has command.main with
  | false => rfl
  | true =>
    obtain ⟨entry, hentry⟩ := Option.isSome_iff_exists.1 hhas
    have hsubs : catalogue.subcommands? command.main = some entry.subcommands := by
      simp [Catalogue.subcommands?, hentry]
    simp only [hsubs, if_true, Verdict.isValid, Bool.true_and]
    cases catalogue.isStandalone command.main <;> cases command.subOrEmpty.isEmpty
    · cases entry.subcommands.contains (Text.lower command.subOrEmpty) <;> rfl
    · cases catalogue.needsSubcommand command.main <;> rfl
    · rfl
    · rfl

namespace Command

/-- The subcommand at the start of tokens, the empty text if there is none. -/
def subOf : List Text → Text
  | [] => []
  | token :: _ => if isDashed token then [] else token

/-- Whether the tokens after the keyword are a command of the catalogue. -/
def accepts (catalogue : Catalogue) : List Text → Bool
  | [] => false
  | token :: tokens =>
    if isDashed token then accepts catalogue tokens else catalogue.takes token (subOf tokens)

/-- Whether a main command is among the tokens. -/
def hasMain (tokens : List Text) : Bool :=
  tokens.any (!isDashed ·)

/-- Whether a main command and one more token after it are among the tokens. -/
def isSettled (tokens : List Text) : Bool :=
  2 ≤ (tokens.dropWhile isDashed).length

theorem isDashed_append {token : Text} (h : token ≠ []) (rest : Text) :
    isDashed (token ++ rest) = isDashed token := by
  obtain ⟨c, token, rfl⟩ := List.exists_cons_of_ne_nil h
  rfl

variable {catalogue : Catalogue}

theorem accepts_cons_of_isDashed {token : Text} (h : isDashed token = true) (tokens : List Text) :
    accepts catalogue (token :: tokens) = accepts catalogue tokens := by
  simp [accepts, h]

theorem accepts_cons_of_not_isDashed {token : Text} (h : isDashed token = false)
    (tokens : List Text) :
    accepts catalogue (token :: tokens) = catalogue.takes token (subOf tokens) := by
  simp [accepts, h]

theorem subOf_append {front : List Text} (h : front ≠ []) (tail : List Text) :
    subOf (front ++ tail) = subOf front := by
  obtain ⟨token, front, rfl⟩ := List.exists_cons_of_ne_nil h
  rfl

/-- `tail'` may stand for `tail` at the end of an accepted command. -/
structure Yields (catalogue : Catalogue) (tail tail' : List Text) : Prop where
  whole : accepts catalogue tail = true → accepts catalogue tail' = true
  sub : ∀ main, catalogue.takes main (subOf tail) = true → catalogue.takes main (subOf tail') = true

/-- After some tokens one tail may stand for another, if it may as a subcommand, and as a command where the
tokens have none. -/
theorem accepts_append {done tail tail' : List Text}
    (hwhole : hasMain done = false → accepts catalogue tail = true → accepts catalogue tail' = true)
    (hsub : ∀ main, catalogue.takes main (subOf tail) = true →
      catalogue.takes main (subOf tail') = true) :
    accepts catalogue (done ++ tail) = true → accepts catalogue (done ++ tail') = true := by
  induction done with
  | nil => exact hwhole rfl
  | cons token done ih =>
    rw [List.cons_append, List.cons_append]
    cases htoken : isDashed token with
    | true =>
      rw [accepts_cons_of_isDashed htoken, accepts_cons_of_isDashed htoken]
      exact ih fun hmain => hwhole (by simpa [hasMain, htoken] using hmain)
    | false =>
      rw [accepts_cons_of_not_isDashed htoken, accepts_cons_of_not_isDashed htoken]
      by_cases hdone : done = []
      · rw [hdone]
        exact hsub token
      · rw [subOf_append hdone, subOf_append hdone]
        exact id

/-- **What may stand at the end of a command may stand after any tokens.** -/
theorem Yields.append {tail tail' : List Text} (h : Yields catalogue tail tail')
    (done : List Text) :
    accepts catalogue (done ++ tail) = true → accepts catalogue (done ++ tail') = true :=
  accepts_append (fun _ => h.whole) h.sub

/-- After the main command only the subcommand counts. -/
theorem accepts_append_of_hasMain {done tail tail' : List Text} (hmain : hasMain done = true)
    (hsub : ∀ main, catalogue.takes main (subOf tail) = true →
      catalogue.takes main (subOf tail') = true) :
    accepts catalogue (done ++ tail) = true → accepts catalogue (done ++ tail') = true :=
  accepts_append (fun hnone => absurd hmain (by simp [hnone])) hsub

/-- After the main command and one more token nothing counts. -/
theorem accepts_append_of_isSettled {done : List Text} (h : isSettled done = true)
    (tail : List Text) : accepts catalogue (done ++ tail) = accepts catalogue done := by
  induction done with
  | nil => cases h
  | cons token done ih =>
    rw [List.cons_append]
    cases htoken : isDashed token with
    | true =>
      rw [accepts_cons_of_isDashed htoken, accepts_cons_of_isDashed htoken,
        ih (by simpa [isSettled, htoken] using h)]
    | false =>
      have hdone : done ≠ [] := by
        rintro rfl
        simp [isSettled, htoken] at h
      rw [accepts_cons_of_not_isDashed htoken, accepts_cons_of_not_isDashed htoken,
        subOf_append hdone]

theorem hasMain_of_isSettled_append {done : List Text} {token : Text}
    (h : isSettled (done ++ [token]) = true) : hasMain done = true := by
  induction done with
  | nil => cases htoken : isDashed token <;> simp [isSettled, htoken] at h
  | cons other done ih =>
    cases hother : isDashed other with
    | true =>
      have := ih (by simpa [isSettled, hother] using h)
      simpa [hasMain, hother] using this
    | false => simp [hasMain, hother]

/-- Options may change as long as they stay options. -/
theorem yields_of_isDashed {token token' : Text} {tail tail' : List Text}
    (h : isDashed token = true) (h' : isDashed token' = true)
    (htail : accepts catalogue tail = true → accepts catalogue tail' = true) :
    Yields catalogue (token :: tail) (token' :: tail') where
  whole := by
    rw [accepts_cons_of_isDashed h, accepts_cons_of_isDashed h']
    exact htail
  sub main hmain := by simpa [subOf, h, h'] using hmain

/-- A token with a blank in it may change as long as it stays an option if it was one. -/
theorem yields_of_blank {token token' : Text} {c : Char} (hmem : c ∈ token)
    (hc : Text.isAsciiBlank c = true) (hdashed : isDashed token' = isDashed token)
    (tail : List Text) : Yields .builtin (token :: tail) (token' :: tail) := by
  cases htoken : isDashed token with
  | true =>
    rw [htoken] at hdashed
    exact yields_of_isDashed htoken hdashed id
  | false =>
    refine ⟨fun h => ?_, fun main h => ?_⟩
    · rw [accepts_cons_of_not_isDashed htoken,
        Catalogue.takes_eq_false_of_blank_main hmem hc] at h
      cases h
    · simp only [subOf, htoken, Bool.false_eq_true, if_false] at h
      rw [Catalogue.takes_eq_false_of_blank_sub hmem hc] at h
      cases h

/-! ## Accepted texts -/

variable {front : Text}

theorem separates_or_suspends_of_blank
    (hfront : ∀ c ∈ front.getLast?, Text.isAsciiBlank c = true) :
    (∃ done, Token.Separates front done) ∨
      ∃ done token, Token.Suspends front done token true ∧
        ∃ c ∈ token, Text.isAsciiBlank c = true := by
  have hblank : ∀ c ∈ front.getLast?, Text.isBlank c = true :=
    fun c hc => Text.isBlank_of_isAsciiBlank (hfront c hc)
  rcases Token.exists_of_getLast?_isBlank hblank with ⟨-, h⟩ | ⟨-, done, token, h, c, hlast, hmem⟩
  · exact Or.inl h
  · exact Or.inr ⟨done, token, h, c, hmem, hfront c hlast⟩

/-- **Behind the main command and one more token a command may go on in any way.** -/
theorem accepts_of_isSettled (hfront : ∀ c ∈ front.getLast?, Text.isAsciiBlank c = true)
    (h : isSettled (Token.split front) = true) (rest rest' : Text) :
    accepts .builtin (Token.split (front ++ rest)) = true →
      accepts .builtin (Token.split (front ++ rest')) = true := by
  rcases separates_or_suspends_of_blank hfront with
    ⟨done, hdone⟩ | ⟨done, token, hdone, c, hmem, hc⟩
  · rw [hdone.split_eq] at h
    rw [hdone, hdone, accepts_append_of_isSettled h, accepts_append_of_isSettled h]
    exact id
  · rw [hdone.split_eq] at h
    rw [hdone, hdone, Token.resume, Token.resume]
    refine accepts_append_of_hasMain (hasMain_of_isSettled_append h) fun main hmain => ?_
    -- the unfinished token is an option, since no subcommand has a blank in it
    simp only [subOf, isDashed_append (List.ne_nil_of_mem hmem)] at hmain ⊢
    cases hdashed : isDashed token with
    | true => simpa [hdashed] using hmain
    | false =>
      rw [hdashed, if_neg Bool.false_ne_true,
        Catalogue.takes_eq_false_of_blank_sub (List.mem_append_left _ hmem) hc] at hmain
      cases hmain

/-- **Inside double quotes a piece of an accepted command may be replaced**, so what remains is a
replacement where a token may start. -/
theorem accepts_replaced {old new rest : Text}
    (hfront : ∀ c ∈ front.getLast?, Text.isAsciiBlank c = true) (hold : '"' ∉ old)
    (hnew : '"' ∉ new)
    (h : ∀ done, Token.Separates front done →
      accepts .builtin (done ++ Token.split (old ++ rest)) = true →
        accepts .builtin (done ++ Token.split (new ++ rest)) = true) :
    accepts .builtin (Token.split (front ++ old ++ rest)) = true →
      accepts .builtin (Token.split (front ++ new ++ rest)) = true := by
  rw [List.append_assoc, List.append_assoc]
  rcases separates_or_suspends_of_blank hfront with
    ⟨done, hdone⟩ | ⟨done, token, hdone, c, hmem, hc⟩
  · rw [hdone, hdone]
    exact h done hdone
  · rw [hdone, hdone, Token.resume_append_quoted hold, Token.resume_append_quoted hnew,
      Token.resume, Token.resume, List.append_assoc, List.append_assoc]
    have hne := List.ne_nil_of_mem hmem
    refine (yields_of_blank (List.mem_append_left _ hmem) hc ?_ _).append done
    rw [isDashed_append hne, isDashed_append hne]

/-- Blanks at the end of an accepted command may go. -/
theorem accepts_of_append_blanks {blanks : Text}
    (hblanks : ∀ c ∈ blanks, Text.isAsciiBlank c = true) :
    accepts .builtin (Token.split (front ++ blanks)) = true →
      accepts .builtin (Token.split front) = true := by
  have hall : ∀ c ∈ blanks, Text.isBlank c = true :=
    fun c hc => Text.isBlank_of_isAsciiBlank (hblanks c hc)
  have hsplit : Token.split blanks = [] := by
    simpa using Token.split_append_of_isBlank hall []
  rcases Token.exists_separates_or_suspends front with ⟨-, done, hdone⟩ | ⟨done, token, hdone⟩
  · rw [hdone, hsplit, hdone.split_eq, List.append_nil]
    exact id
  · rw [hdone, hdone.split_eq]
    cases hblank : blanks with
    | nil => simp
    | cons c rest =>
      have hc : Text.isAsciiBlank c = true := hblanks c (by rw [hblank]; exact List.mem_cons_self)
      cases hopen : Token.isOpen front with
      | false =>
        rw [hblank, Token.split_cons_of_isBlank (Text.isBlank_of_isAsciiBlank hc)] at hsplit
        rw [Token.resume_cons_of_isBlank (Text.isBlank_of_isAsciiBlank hc), hsplit]
        exact id
      | true =>
        have hmark : '"' ∉ c :: rest := fun hmem => by
          have := hblanks '"' (by rw [hblank]; exact hmem)
          revert this
          decide
        have hquoted := Token.resume_append_quoted hmark token []
        rw [List.append_nil, Token.resume_nil] at hquoted
        rw [hquoted]
        refine (yields_of_blank (List.mem_append_right _ List.mem_cons_self) hc ?_ _).append done
        by_cases hne : token = []
        · have hdash : c ≠ '-' := by
            rintro rfl
            revert hc
            decide
          simp [hne, isDashed, hdash]
        · rw [isDashed_append hne]

end Command

namespace Script

theorem isValid_ofTokens (max : Nat) (raw keyword : Text) (leading : List Command.Item)
    (tokens : List Text) :
    (match Command.ofTokens raw keyword leading (tokens.dropWhile Command.isDashed) with
      | .ok command => (Verdict.on .builtin max command).isValid
      | .error _ => false) = Command.accepts .builtin tokens := by
  induction tokens with
  | nil => rfl
  | cons token tokens ih =>
    cases htoken : Command.isDashed token with
    | true => rw [List.dropWhile_cons_of_pos htoken, ih, Command.accepts_cons_of_isDashed htoken]
    | false =>
      rw [List.dropWhile_cons_of_neg (by simp [htoken]),
        Command.accepts_cons_of_not_isDashed htoken]
      cases tokens with
      | nil => exact Verdict.isValid_on _ _ _
      | cons next rest =>
        cases hnext : Command.isDashed next <;>
          simp [Command.ofTokens, hnext, Verdict.isValid_on, Command.ofItems, Command.subOrEmpty,
            Command.subOf]

/-- **A call is valid exactly if the tokens after its keyword are accepted.** -/
theorem isValid_check {settings : Settings} {body : Text} (hkeyword : Token.IsWord settings.keyword)
    (hbody : ∀ c ∈ body.head?, Text.isBlank c = true) :
    (check settings (settings.keyword ++ body)).isValid =
      Command.accepts .builtin (Token.split body) := by
  rw [← isValid_ofTokens settings.maxSuggestions (settings.keyword ++ body) settings.keyword
    (((Token.split body).takeWhile Command.isDashed).map Command.leadingItem)]
  simp only [check, Check.isValid, Command.parseCall,
    Token.split_word hkeyword hbody, if_true]
  cases Command.ofTokens _ _ _ _ <;> rfl

end Script
end ScriptUpgrade
