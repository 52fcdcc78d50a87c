/-
# The command that rules see and the command that is parsed

Three rules look at the command of a call: two rename it and one retires its line. They find it by
words, which gaps separate. A call that is checked is parsed by tokens, which blanks of any kind
separate and which double quotes hold together. The two need not agree:

| call | by words | by tokens |
| --- | --- | --- |
| `usacloud --tag="a" summary` | `summary` | `summary` |
| `usacloud --description="monthly summary report" server list` | `summary` | `server` |

So the second line is retired although v1 has its command. The two agree on the place of the command
exactly if no double quote is open in front of it and every token in front of it is an option
(`isMainPlace_iff`); then the word that a rule acts on is the main command (`actsOn_command`). Tokens
that are no options can stand in front of it where a blank that is no gap cuts the value of an option.
-/

import ScriptUpgrade.Proofs.AcceptedRewrite
import ScriptUpgrade.Proofs.Idempotence

namespace ScriptUpgrade

namespace Command

/-! ### The main command among the tokens -/

/-- The first token that is no option. -/
def mainOf (tokens : List Text) : Option Text :=
  tokens.find? (!isDashed ·)

theorem mainOf_append (done tail : List Text) : mainOf (done ++ tail) = (mainOf done).or (mainOf tail) :=
  List.find?_append

theorem mainOf_eq_none_iff {tokens : List Text} :
    mainOf tokens = none ↔ ∀ token ∈ tokens, isDashed token = true := by
  simp [mainOf]

theorem mainOf_cons_of_isDashed {token : Text} (h : isDashed token = true) (tokens : List Text) :
    mainOf (token :: tokens) = mainOf tokens :=
  List.find?_cons_of_neg (by simp [h])

theorem mainOf_cons_of_not_isDashed {token : Text} (h : isDashed token = false) (tokens : List Text) :
    mainOf (token :: tokens) = some token :=
  List.find?_cons_of_pos (by simp [h])

theorem exists_ofTokens_iff (raw keyword : Text) (leading : List Item) {tokens : List Text} {main : Text} :
    (∃ command, ofTokens raw keyword leading (tokens.dropWhile isDashed) = .ok command ∧
      command.main = main) ↔ mainOf tokens = some main := by
  induction tokens with
  | nil => simp [ofTokens, mainOf]
  | cons token tokens ih =>
    cases htoken : isDashed token with
    | true =>
      rw [List.dropWhile_cons_of_pos htoken, ih, mainOf_cons_of_isDashed htoken]
    | false =>
      rw [List.dropWhile_cons_of_neg (by simp [htoken]), mainOf_cons_of_not_isDashed htoken,
        Option.some.injEq]
      cases tokens with
      | nil => simp [ofTokens, ofItems]
      | cons next rest => cases hnext : isDashed next <;> simp [ofTokens, ofItems, hnext]

/-- **The main command of a call is the first token after the keyword that is no option.** -/
theorem exists_parseCall_iff {keyword body main : Text} (hkeyword : Token.IsWord keyword)
    (hbody : ∀ c ∈ body.head?, Text.isBlank c = true) :
    (∃ command, parseCall keyword (keyword ++ body) = .ok command ∧ command.main = main) ↔
      mainOf (Token.split body) = some main := by
  rw [← exists_ofTokens_iff (keyword ++ body) keyword
    (((Token.split body).takeWhile isDashed).map leadingItem)]
  simp only [parseCall, Token.split_word hkeyword hbody, if_true]

end Command

namespace Migration

open Fragment Call Command

/-! ### The place of the command -/

/-- Whether no double quote is open after a text and all its tokens are options. -/
def isOptions (front : Text) : Bool :=
  !Token.isOpen front && (Token.split front).all isDashed

theorem isOptions_eq_true_iff {front : Text} :
    isOptions front = true ↔ Token.isOpen front = false ∧ mainOf (Token.split front) = none := by
  rw [isOptions, Bool.and_eq_true, Bool.not_eq_true', List.all_eq_true, mainOf_eq_none_iff]

/-- Whatever name stands between `front` and `back`, it is the main command of the call. -/
def IsMainPlace (keyword front back : Text) : Prop :=
  ∀ name, IsZoneName name →
    ∃ command, parseCall keyword (keyword ++ (front ++ name ++ back)) = .ok command ∧
      command.main = name

variable {keyword front back name : Text}

theorem IsZoneName.isDashed_eq_false (h : IsZoneName name) : isDashed name = false := by
  obtain ⟨c, rest, rfl, hc, -⟩ := h
  simp [isDashed, hc]

theorem Leads.getLast?_isBlank (h : Leads front) : ∀ c ∈ front.getLast?, Text.isBlank c = true := by
  intro c hc
  obtain ⟨d, hd, hgap⟩ := h.getLast
  rw [Option.mem_unique hc hd]
  exact Text.isBlank_of_isAsciiBlank (Text.isAsciiBlank_of_isGap hgap)

theorem head?_isBlank_of_stops {text : Text} (h : Text.Stops isWordChar text) :
    ∀ c ∈ text.head?, Text.isBlank c = true := by
  intro c hc
  obtain ⟨rest, rfl⟩ := List.head?_eq_some_iff.1 hc
  rw [Text.stops_cons, isWordChar, Bool.not_eq_false'] at h
  exact Text.isBlank_of_isAsciiBlank (Text.isAsciiBlank_of_isGap h)

/-- After options a name is the main command. -/
theorem mainOf_of_isOptions (hfront : Leads front) (hback : Text.Stops isWordChar back)
    (hname : IsZoneName name) (h : isOptions front = true) :
    mainOf (Token.split (front ++ name ++ back)) = some name := by
  obtain ⟨hopen, hnone⟩ := isOptions_eq_true_iff.1 h
  rcases Token.exists_of_getLast?_isBlank hfront.getLast?_isBlank with
    ⟨-, done, hdone⟩ | ⟨hopen', -⟩
  · rw [hdone.split_eq] at hnone
    rw [List.append_assoc, hdone, Token.split_word hname.isWord (head?_isBlank_of_stops hback),
      mainOf_append, hnone, Option.none_or, mainOf_cons_of_not_isDashed hname.isDashed_eq_false]
  · rw [hopen] at hopen'
    cases hopen'

/-- **Where a name after something else than options is the main command, another one is not.** -/
theorem isOptions_of_mainOf {other : Text} (hfront : Leads front) (hname : IsZoneName name)
    (hother : IsZoneName other) (hne : name ≠ other)
    (hmain : mainOf (Token.split (front ++ name ++ back)) = some name)
    (hmain' : mainOf (Token.split (front ++ other ++ back)) = some other) :
    isOptions front = true := by
  -- no token is the main command in both calls
  have hdiffer : ∀ main, ¬ (main = some name ∧ main = some other) := by
    rintro _ ⟨rfl, h⟩
    exact hne (Option.some.inj h)
  rcases Token.exists_of_getLast?_isBlank hfront.getLast?_isBlank with
    ⟨hopen, done, hdone⟩ | ⟨-, done, token, hdone, c, -, hc⟩
  · rw [isOptions_eq_true_iff, hdone.split_eq]
    refine ⟨hopen, ?_⟩
    rw [List.append_assoc, hdone, mainOf_append] at hmain hmain'
    cases hfound : mainOf done with
    | none => rfl
    | some main =>
      rw [hfound, Option.some_or] at hmain hmain'
      exact absurd ⟨hmain, hmain'⟩ (hdiffer _)
  · -- the name goes into the unfinished token, which is not the name, and changes nothing else
    exfalso
    have htoken : token ≠ [] := List.ne_nil_of_mem hc
    rw [List.append_assoc, hdone, mainOf_append, Token.resume_append_word hname.isWord.plain,
      Token.resume, List.append_assoc] at hmain
    rw [List.append_assoc, hdone, mainOf_append, Token.resume_append_word hother.isWord.plain,
      Token.resume, List.append_assoc] at hmain'
    cases hfound : mainOf done with
    | some main =>
      rw [hfound, Option.some_or] at hmain hmain'
      exact hdiffer _ ⟨hmain, hmain'⟩
    | none =>
      rw [hfound, Option.none_or] at hmain hmain'
      have hdashed : ∀ rest, isDashed (token ++ rest) = isDashed token := isDashed_append htoken
      cases hdash : isDashed token with
      | true =>
        rw [mainOf_cons_of_isDashed (by rw [hdashed, hdash])] at hmain hmain'
        exact hdiffer _ ⟨hmain, hmain'⟩
      | false =>
        rw [mainOf_cons_of_not_isDashed (by rw [hdashed, hdash])] at hmain
        have hlength := congrArg List.length (Option.some.inj hmain)
        have hpos := List.length_pos_iff.2 htoken
        simp only [List.length_append] at hlength
        omega

/-- **The command position is the place of the main command exactly after options.** -/
theorem isMainPlace_iff (hkeyword : Token.IsWord keyword) (hfront : Leads front)
    (hback : Text.Stops isWordChar back) :
    IsMainPlace keyword front back ↔ isOptions front = true := by
  have hparse : ∀ name, IsZoneName name →
      ((∃ command, parseCall keyword (keyword ++ (front ++ name ++ back)) = .ok command ∧
        command.main = name) ↔ mainOf (Token.split (front ++ name ++ back)) = some name) := by
    intro name hname
    refine exists_parseCall_iff hkeyword (head?_isBlank_of_stops ?_)
    rw [List.append_assoc]
    exact hfront.stops _
  constructor
  · intro hplace
    have hfirst : IsZoneName ['a'] := isPlainName_iff.1 (by decide)
    have hsecond : IsZoneName ['b'] := isPlainName_iff.1 (by decide)
    exact isOptions_of_mainOf hfront hfirst hsecond (by decide)
      ((hparse _ hfirst).1 (hplace _ hfirst)) ((hparse _ hsecond).1 (hplace _ hsecond))
  · intro hoptions name hname
    exact (hparse name hname).2 (mainOf_of_isOptions hfront hback hname hoptions)

/-! ### Rules that look at the command -/

/-- The rules that look at the command of a call. -/
def commandRules : List Rule :=
  [resourceRule, productRule, retirement]

/-- The commands that a rule looks for, with what it says about them. -/
def Rule.table (rule : Rule) : List (Text × Text) :=
  match rule.action with
  | .commandRename table => table
  | .unsupported table => table
  | _ => []

/-- A rule that looks at the command acts on a call exactly if its table has the command. -/
theorem exists_of_actsOn {rule : Rule} (hrule : rule ∈ commandRules) {body : Text}
    (h : rule.actsOn body = true) :
    ∃ front command back, commandWord? body = some (front, command, back) ∧
      ∃ entry ∈ rule.table, entry.1 = command := by
  by_contra hnone
  have hlookup : ∀ front command back, commandWord? body = some (front, command, back) →
      lookup rule.table command = none := by
    intro front command back hword
    rw [Option.eq_none_iff_forall_not_mem]
    intro name hname
    exact hnone ⟨front, command, back, hword, _, mem_of_lookup hname, rfl⟩
  have hidle : rule.actsOn body = false := by
    rw [actsOn_eq_false_iff]
    simp only [commandRules, List.mem_cons, List.not_mem_nil, or_false] at hrule
    rcases hrule with rfl | rfl | rfl
    · exact ⟨commandFragments_of_lookup_eq_none hlookup, rfl⟩
    · exact ⟨commandFragments_of_lookup_eq_none hlookup, rfl⟩
    · refine ⟨rfl, ?_⟩
      rw [Rule.guidance?]
      exact Option.bind_eq_none_iff.2 fun found hfound => hlookup _ _ _ hfound
  rw [hidle] at h
  cases h

/-- The changes in place are made by the in-place rules. -/
theorem rule_of_mem_foldl_pass {rules : List Rule} {progress : Progress} {change : Change}
    (h : change ∈ (rules.foldl (pass keyword) progress).changes) :
    change ∈ progress.changes ∨ change.rule ∈ rules := by
  induction rules generalizing progress with
  | nil => exact Or.inl h
  | cons rule rules ih =>
    rcases ih h with h | h
    · rcases List.mem_append.1 h with h | h
      · exact Or.inl h
      · obtain ⟨edit, -, rfl⟩ := List.mem_map.1 h
        exact Or.inr List.mem_cons_self
    · exact Or.inr (List.mem_cons_of_mem _ h)

/-- A line without calls is left as it is by the in-place rules. -/
theorem inPlace_of_no_call {line : Text} (h : ∀ body, .call body ∉ dissect keyword line) :
    (inPlace keyword line).line = line ∧ (inPlace keyword line).changes = [] :=
  foldl_pass_of_edits_eq_nil fun rule _ => (edits_fragments_eq_nil_iff keyword rule line).2
    (fragments_eq_keep fun body hbody => absurd hbody (h body))

/-- **A line is retired exactly if the in-place rules leave a call that retirement acts on.** -/
theorem exists_retired_iff (keyword line : Text) :
    (∃ change ∈ (apply keyword line).changes, change.rule = retirement) ↔
      ∃ body ∈ bodies keyword (inPlace keyword line).line, retirement.actsOn body = true := by
  have hacts : ∀ body, retirement.actsOn body = true ↔ retirement.guidance? body ≠ none := by
    intro body
    rw [← Bool.not_eq_false, not_iff_not, actsOn_eq_false_iff]
    exact and_iff_right rfl
  have hguidance : (∃ body ∈ bodies keyword (inPlace keyword line).line,
      retirement.actsOn body = true) ↔ guidance? keyword (inPlace keyword line).line ≠ none := by
    rw [ne_eq, guidance?_eq_none_iff, not_forall]
    simp only [hacts, Classical.not_imp, bodies, mem_filterMap_body?, ne_eq]
  have hinPlace : ∀ change ∈ (inPlace keyword line).changes, change.rule ≠ retirement := by
    intro change hchange hrule
    rcases rule_of_mem_foldl_pass hchange with h | h
    · cases h
    · rw [hrule] at h
      exact absurd h (by decide)
  rw [hguidance]
  rcases apply_outcome keyword line with
    ⟨hnone, happly⟩ | ⟨-, ⟨guidance, hsome, happly⟩ | ⟨hnone, happly⟩⟩
  · rw [happly, (inPlace_of_no_call hnone).1, ne_eq, guidance?_eq_none_iff]
    simp [hnone]
  · rw [happly, hsome]
    simp [retire]
  · rw [happly, hnone]
    simpa using hinPlace

/-- **When the rules about commands see the command that is parsed.** If such a rule acts on a call, its
table has the word at the command position; that is the place of the main command exactly if only
options stand in front of it, and then the word is the main command. A line is retired exactly if the
in-place rules leave a call on which retirement acts. -/
theorem actsOn_command (hkeyword : ∀ c ∈ keyword, c ≠ '"' ∧ Text.isBlank c = false) (line : Text) :
    (∀ rule ∈ commandRules, ∀ body ∈ bodies keyword line, rule.actsOn body = true →
      ∃ front command back, commandWord? body = some (front, command, back) ∧
        (∃ entry ∈ rule.table, entry.1 = command) ∧
        (IsMainPlace keyword front back ↔ isOptions front = true) ∧
        (isOptions front = true → ∃ parsed, parseCall keyword (keyword ++ body) = .ok parsed ∧
          parsed.main = command)) ∧
    ((∃ change ∈ (apply keyword line).changes, change.rule = retirement) ↔
      ∃ body ∈ bodies keyword (inPlace keyword line).line, retirement.actsOn body = true) := by
  refine ⟨fun rule hrule body hbody hacts => ?_, exists_retired_iff keyword line⟩
  have hword : Token.IsWord keyword := by
    refine ⟨?_, hkeyword⟩
    rintro rfl
    simp [bodies, dissect, Part.body?] at hbody
  obtain ⟨front, command, back, hcommand, entry, hentry, hkey⟩ := exists_of_actsOn hrule hacts
  obtain ⟨hsplit, hfront, -, hback⟩ := commandWord?_eq_some_iff.1 hcommand
  have hplace := isMainPlace_iff hword hfront hback
  refine ⟨front, command, back, hcommand, ⟨entry, hentry, hkey⟩, hplace, fun hoptions => ?_⟩
  have hname : IsZoneName command := by
    have htables : ∀ rule ∈ commandRules, ∀ entry ∈ rule.table, isPlainName entry.1 = true := by
      decide
    rw [← hkey]
    exact isPlainName_iff.1 (htables rule hrule entry hentry)
  rw [hsplit]
  exact hplace.2 hoptions command hname

/-- A command behind an option with double quotes, and behind it the name of a removed command. -/
theorem actsOn_command_quoted_option :
    let keyword := "usacloud".toList
    let body := " --tag=\"a\" iso-image list \"x summary y\"".toList
    let line := keyword ++ body
    (∀ c ∈ keyword, c ≠ '"' ∧ Text.isBlank c = false) ∧ resourceRule ∈ commandRules ∧
      body ∈ bodies keyword line ∧ resourceRule.actsOn body = true ∧
      (∃ parsed, parseCall keyword line = .ok parsed ∧ parsed.main = "iso-image".toList) ∧
      IsMainPlace keyword " --tag=\"a\" ".toList " list \"x summary y\"".toList ∧
      ¬ ∃ change ∈ (apply keyword line).changes, change.rule = retirement := by
  intro keyword body line
  have hkeyword : ∀ c ∈ keyword, c ≠ '"' ∧ Text.isBlank c = false := by
    decide
  have hrule : resourceRule ∈ commandRules := by
    decide
  have hbody : body ∈ bodies keyword line := by
    decide +kernel
  have hacts : resourceRule.actsOn body = true := by
    decide +kernel
  obtain ⟨hcommand, hretired⟩ := actsOn_command hkeyword line
  obtain ⟨front, command, back, hword, -, hplace, hparsed⟩ :=
    hcommand resourceRule hrule body hbody hacts
  have hfound : commandWord? body =
      some (" --tag=\"a\" ".toList, "iso-image".toList, " list \"x summary y\"".toList) := by
    decide +kernel
  rw [hfound, Option.some.injEq, Prod.mk.injEq, Prod.mk.injEq] at hword
  obtain ⟨rfl, rfl, rfl⟩ := hword
  have hoptions : isOptions " --tag=\"a\" ".toList = true := by
    decide +kernel
  refine ⟨hkeyword, hrule, hbody, hacts, hparsed hoptions, hplace.2 hoptions, ?_⟩
  rw [hretired]
  decide +kernel

/-- In the second line of the table above the rule and the parser see different commands. -/
example :
    let keyword := "usacloud".toList
    let body := " --description=\"monthly summary report\" server list".toList
    body ∈ bodies keyword (keyword ++ body) ∧ retirement.actsOn body = true ∧
      (parseCall keyword (keyword ++ body)).toOption.map Command.main = some "server".toList := by
  decide +kernel

end Migration
end ScriptUpgrade
