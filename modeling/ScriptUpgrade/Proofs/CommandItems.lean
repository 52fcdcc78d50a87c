/-
# How tokens are read as items

Every token after the main command and the subcommand is read as an item of its own, with one
exception: a key without an equals sign takes the next token for its value unless that has a leading
dash. So a token with a leading dash always starts a new item, and tokens can be read in two parts that
are cut in front of it (`items_append`).

From there it is seen which tokens an option comes from. It is written `--key=value` or `--key value`
(`mem_items_option_iff`), and since both are the same item, one may stand for the other wherever it stands
after the main command (`option_spelling`). The result of such an exchange is a list of tokens and not yet
a line, but every list of tokens without double quotes is the tokens of a line (`split_quoteTokens`).
-/

import ScriptUpgrade.Command.Render
import ScriptUpgrade.Proofs.Acceptance
import ScriptUpgrade.Proofs.OptionShape

namespace ScriptUpgrade

namespace Text

theorem cutAt?_append {mark : Char} {front : Text} (h : mark ∉ front) (back : Text) :
    cutAt? mark (front ++ mark :: back) = some (front, back) := by
  induction front with
  | nil => simp [cutAt?]
  | cons c front ih =>
    rw [List.mem_cons, not_or] at h
    rw [List.cons_append, cutAt?, if_neg (Ne.symm h.1), ih h.2, Option.map_some]

theorem cutAt?_eq_none_iff {mark : Char} {text : Text} : cutAt? mark text = none ↔ mark ∉ text := by
  induction text with
  | nil => simp [cutAt?]
  | cons c text ih =>
    by_cases hc : c = mark
    · simp [cutAt?, hc]
    · simp [cutAt?, hc, ih, Ne.symm hc]

end Text

/-! ### Tokens and double quotes -/

namespace Token

theorem mark_notMem_read (quoted : Bool) (text : Text) : '"' ∉ (read quoted text).1 := by
  induction text generalizing quoted with
  | nil => simp [read]
  | cons c text ih =>
    rw [read]
    split
    · exact ih _
    · rename_i hmark
      split
      · simp
      · rw [List.mem_cons, not_or]
        exact ⟨Ne.symm hmark, ih _⟩

/-- **No token has a double quote in it.** -/
theorem mark_notMem_of_mem_split {line token : Text} (h : token ∈ split line) : '"' ∉ token := by
  induction hlength : line.length using Nat.strong_induction_on generalizing line with
  | _ n ih =>
    have hsplit := split_eq line
    have hshort := (List.dropWhile_suffix (l := line) Text.isBlank).length_le
    cases hline : line.dropWhile Text.isBlank with
    | nil =>
      rw [hline] at hsplit
      rw [hsplit] at h
      cases h
    | cons c text =>
      have hblank := Text.stops_cons.1 (hline ▸ Text.stops_dropWhile Text.isBlank line)
      have hread := length_read_cons text hblank
      rw [hline, List.length_cons] at hshort
      rw [hline] at hsplit
      simp only [resume, List.nil_append] at hsplit
      rw [hsplit] at h
      rcases List.mem_cons.1 h with rfl | h
      · exact mark_notMem_read _ _
      · exact ih _ (by omega) h rfl

/-- A token in double quotes is read as it is. -/
theorem split_quoted {token : Text} (h : '"' ∉ token) (rest : Text) :
    split ('"' :: token ++ '"' :: rest) = resume token false rest := by
  rw [List.cons_append, split_cons_of_not_isBlank (by decide), resume_mark, Bool.not_false,
    resume_append_quoted h, resume_mark, List.nil_append, Bool.not_true]

end Token

namespace Command

/-- **Tokens in double quotes and joined by spaces are read as they are.** -/
theorem split_quoteTokens {tokens : List Text} (h : ∀ token ∈ tokens, '"' ∉ token) :
    Token.split (quoteTokens tokens) = tokens := by
  induction tokens with
  | nil => exact Token.split_nil
  | cons token tokens ih =>
    have htoken := h token List.mem_cons_self
    have htokens := ih fun other hother => h other (List.mem_cons_of_mem _ hother)
    cases tokens with
    | nil =>
      rw [quoteTokens, List.map_singleton, List.intercalate_singleton, Token.split_quoted htoken,
        Token.resume_nil]
    | cons next tokens =>
      have hcut : quoteTokens (token :: next :: tokens) =
          '"' :: token ++ '"' :: ' ' :: quoteTokens (next :: tokens) := by
        simp [quoteTokens, List.intercalate_cons_cons]
      rw [hcut, Token.split_quoted htoken, Token.resume_cons_of_isBlank (by decide), htokens]

/-! ### Items -/

/-- The token of a flag, and of a key whose value is the next token. -/
def named (name : Text) : Text :=
  "--".toList ++ name

/-- The token of an option with its value in it. -/
def joined (key value : Text) : Text :=
  named key ++ '=' :: value

theorem after?_named (name : Text) : Text.after? "--".toList (named name) = some name :=
  Text.after?_append _ _

theorem joined_eq (key value : Text) : joined key value = named (key ++ '=' :: value) := by
  simp [joined, named]

theorem isDashed_named (name : Text) : isDashed (named name) = true := rfl

theorem isDashed_joined (key value : Text) : isDashed (joined key value) = true := rfl

theorem items_argument {token : Text} (h : Text.after? "--".toList token = none)
    (tokens : List Text) : items (token :: tokens) = .argument token :: items tokens := by
  rw [items]
  simp only [h]

theorem items_joined {key : Text} (hkey : '=' ∉ key) (value : Text) (tokens : List Text) :
    items (joined key value :: tokens) = .option key value :: items tokens := by
  rw [items]
  simp only [joined_eq, after?_named, Text.cutAt?_append hkey]

theorem items_parted {key value : Text} (hkey : '=' ∉ key) (hvalue : isDashed value = false)
    (tokens : List Text) :
    items (named key :: value :: tokens) = .option key value :: items tokens := by
  rw [items]
  simp only [after?_named, Text.cutAt?_eq_none_iff.2 hkey, hvalue, Bool.false_eq_true, if_false]

theorem items_flag {name : Text} (hname : '=' ∉ name) {tokens : List Text}
    (htokens : ∀ next ∈ tokens.head?, isDashed next = true) :
    items (named name :: tokens) = .flag name :: items tokens := by
  rw [items]
  simp only [after?_named, Text.cutAt?_eq_none_iff.2 hname]
  cases tokens with
  | nil => rfl
  | cons next tokens => simp [htokens next rfl]

/-- **Tokens are read in two parts** that are cut in front of a leading dash. -/
theorem items_append (front : List Text) {tail : List Text}
    (htail : ∀ next ∈ tail.head?, isDashed next = true) :
    items (front ++ tail) = items front ++ items tail := by
  fun_induction items front with
  | case1 => rfl
  | case2 token tokens hafter ih => rw [List.cons_append, items_argument hafter, ih, List.cons_append]
  | case3 token tokens name hafter key value hcut ih =>
    obtain ⟨rfl, hkey⟩ := Migration.cutAt?_eq_some hcut
    obtain rfl : named (key ++ '=' :: value) = token := Text.append_of_after? hafter
    rw [← joined_eq, List.cons_append, items_joined hkey, ih, List.cons_append]
  | case4 token name hafter hcut =>
    obtain rfl : named name = token := Text.append_of_after? hafter
    rw [List.singleton_append, items_flag (Text.cutAt?_eq_none_iff.1 hcut) htail,
      List.singleton_append]
  | case5 token name hafter hcut next rest hnext ih =>
    obtain rfl : named name = token := Text.append_of_after? hafter
    rw [List.cons_append, items_flag (Text.cutAt?_eq_none_iff.1 hcut) (by simpa using hnext), ih,
      List.cons_append]
  | case6 token name hafter hcut next rest hnext ih =>
    obtain rfl : named name = token := Text.append_of_after? hafter
    rw [List.cons_append, List.cons_append,
      items_parted (Text.cutAt?_eq_none_iff.1 hcut) (by simpa using hnext), ih, List.cons_append]

/-- An option stands among tokens in one of its two spellings. -/
def Spelled (key value : Text) (tokens : List Text) : Prop :=
  '=' ∉ key ∧ ∃ front back, tokens = front ++ joined key value :: back ∨
    isDashed value = false ∧ tokens = front ++ named key :: value :: back

theorem Spelled.behind {key value : Text} {tokens : List Text} (h : Spelled key value tokens)
    (lead : List Text) : Spelled key value (lead ++ tokens) := by
  obtain ⟨hkey, front, back, rfl | ⟨hvalue, rfl⟩⟩ := h
  · exact ⟨hkey, lead ++ front, back, Or.inl (List.append_assoc ..).symm⟩
  · exact ⟨hkey, lead ++ front, back, Or.inr ⟨hvalue, (List.append_assoc ..).symm⟩⟩

/-- **An option is a key and a value in one token or in two.** -/
theorem mem_items_option_iff {key value : Text} {tokens : List Text} :
    .option key value ∈ items tokens ↔ Spelled key value tokens := by
  constructor
  · intro h
    fun_induction items tokens with
    | case1 => cases h
    | case2 token tokens hafter ih => exact (ih (by simpa using h)).behind [token]
    | case3 token tokens name hafter k v hcut ih =>
      rcases List.mem_cons.1 h with h | h
      · obtain ⟨rfl, rfl⟩ := Item.option.inj h
        obtain ⟨rfl, hkey⟩ := Migration.cutAt?_eq_some hcut
        obtain rfl : named (key ++ '=' :: value) = token := Text.append_of_after? hafter
        exact ⟨hkey, [], tokens, Or.inl (by rw [joined_eq, List.nil_append])⟩
      · exact (ih h).behind [token]
    | case4 token name hafter hcut => simp at h
    | case5 token name hafter hcut next rest hnext ih => exact (ih (by simpa using h)).behind [token]
    | case6 token name hafter hcut next rest hnext ih =>
      rcases List.mem_cons.1 h with h | h
      · obtain ⟨rfl, rfl⟩ := Item.option.inj h
        obtain rfl : named key = token := Text.append_of_after? hafter
        exact ⟨Text.cutAt?_eq_none_iff.1 hcut, [], rest, Or.inr ⟨by simpa using hnext, rfl⟩⟩
      · exact (ih h).behind [token, next]
  · rintro ⟨hkey, front, back, rfl | ⟨hvalue, rfl⟩⟩
    · rw [items_append front (by simp [isDashed_joined]), items_joined hkey]
      exact List.mem_append_right _ List.mem_cons_self
    · rw [items_append front (by simp [isDashed_named]), items_parted hkey hvalue]
      exact List.mem_append_right _ List.mem_cons_self

/-! ### Two spellings -/

variable {keyword line line' key value : Text} {before after : List Text} {command : Command}

/-- A line is read if its first token is the keyword and the others make a command. -/
theorem parse_eq_ok_iff : parse keyword line = .ok command ↔ ∃ tokens,
    Token.split line = keyword :: tokens ∧ ofTokens line keyword [] tokens = .ok command := by
  rw [parse]
  cases Token.split line with
  | nil => simp
  | cons first tokens => by_cases hfirst : first = keyword <;> simp [hfirst]

/-- The same for a line that may have options in front of the main command. -/
theorem parseCall_eq_ok_iff : parseCall keyword line = .ok command ↔ ∃ tokens,
    Token.split line = keyword :: tokens ∧
      ofTokens line keyword ((tokens.takeWhile isDashed).map leadingItem) (tokens.dropWhile isDashed) =
        .ok command := by
  rw [parseCall]
  cases Token.split line with
  | nil => simp
  | cons first tokens => by_cases hfirst : first = keyword <;> simp [hfirst]

/-- A command reads the tokens after its main command by their items: tails with leading dashes and the
same items may stand for each other. -/
theorem ofTokens_append {raw raw' keyword main token token' : Text} {leading : List Item}
    {front tail tail' : List Text} (htoken : isDashed token = true) (htoken' : isDashed token' = true)
    (hitems : items (token :: tail) = items (token' :: tail')) {command : Command}
    (h : ofTokens raw keyword leading (main :: (front ++ token :: tail)) = .ok command) :
    ofTokens raw' keyword leading (main :: (front ++ token' :: tail')) =
      .ok { command with raw := raw' } := by
  have hread : ∀ tokens, items (tokens ++ token' :: tail') = items (tokens ++ token :: tail) := by
    intro tokens
    rw [items_append tokens (by simpa using htoken'), items_append tokens (by simpa using htoken),
      hitems]
  cases front with
  | nil =>
    simp only [List.nil_append, ofTokens, htoken, if_true, Except.ok.injEq] at h
    rw [List.nil_append, ofTokens, if_pos htoken', ← hitems, ← h]
    rfl
  | cons next front =>
    simp only [List.cons_append, ofTokens] at h ⊢
    split at h
    · rename_i hnext
      rw [if_pos hnext, ← List.cons_append, hread, ← Except.ok.inj h]
      rfl
    · rename_i hnext
      rw [if_neg hnext, hread, ← Except.ok.inj h]
      rfl

/-- Where the main command is among the tokens, more tokens at the end are not leading options. -/
theorem exists_of_hasMain {tokens : List Text} (h : hasMain tokens = true) :
    ∃ main front, ∀ tail, (tokens ++ tail).takeWhile isDashed = tokens.takeWhile isDashed ∧
      (tokens ++ tail).dropWhile isDashed = main :: (front ++ tail) := by
  induction tokens with
  | nil => cases h
  | cons token tokens ih =>
    cases htoken : isDashed token with
    | true =>
      obtain ⟨main, front, hmain⟩ := ih (by simpa [hasMain, htoken] using h)
      refine ⟨main, front, fun tail => ?_⟩
      rw [List.cons_append, List.takeWhile_cons_of_pos htoken, List.takeWhile_cons_of_pos htoken,
        List.dropWhile_cons_of_pos htoken, (hmain tail).1, (hmain tail).2]
      exact ⟨rfl, rfl⟩
    | false =>
      have hneg : ¬ isDashed token = true := by simp [htoken]
      refine ⟨token, tokens, fun tail => ?_⟩
      rw [List.cons_append, List.takeWhile_cons_of_neg hneg, List.takeWhile_cons_of_neg hneg,
        List.dropWhile_cons_of_neg hneg]
      exact ⟨rfl, rfl⟩

/-- **Both spellings of an option mean the same.** A key and its value may be joined wherever they stand
after the main command: for `parse` behind two tokens at least, for `parseCall` behind one that is no
option. -/
theorem option_spelling (hkey : '=' ∉ key) (hvalue : isDashed value = false)
    (hline : Token.split line = before ++ named key :: value :: after)
    (hline' : Token.split line' = before ++ joined key value :: after) :
    (2 ≤ before.length → parse keyword line = .ok command →
      parse keyword line' = .ok { command with raw := line' }) ∧
    (hasMain before.tail = true → parseCall keyword line = .ok command →
      parseCall keyword line' = .ok { command with raw := line' }) := by
  have hitems : items (named key :: value :: after) = items (joined key value :: after) := by
    rw [items_parted hkey hvalue, items_joined hkey]
  constructor
  · intro hplace hparse
    obtain ⟨tokens, hsplit, hread⟩ := parse_eq_ok_iff.1 hparse
    obtain ⟨first, main, front, rfl⟩ : ∃ first main front, before = first :: main :: front := by
      obtain ⟨first, tail, rfl⟩ := List.exists_cons_of_length_pos (Nat.lt_of_lt_of_le Nat.two_pos hplace)
      obtain ⟨main, front, rfl⟩ := List.exists_cons_of_length_pos (Nat.le_of_succ_le_succ hplace)
      exact ⟨first, main, front, rfl⟩
    rw [hline, List.cons_append, List.cons_append] at hsplit
    obtain ⟨rfl, rfl⟩ := List.cons.inj hsplit
    exact parse_eq_ok_iff.2 ⟨_, hline',
      ofTokens_append (isDashed_named key) (isDashed_joined key value) hitems hread⟩
  · intro hplace hparse
    obtain ⟨tokens, hsplit, hread⟩ := parseCall_eq_ok_iff.1 hparse
    obtain ⟨main, front, hmain⟩ := exists_of_hasMain hplace
    cases before with
    | nil => cases hplace
    | cons first before =>
      rw [hline, List.cons_append] at hsplit
      obtain ⟨rfl, rfl⟩ := List.cons.inj hsplit
      rw [List.tail_cons] at hmain
      rw [(hmain _).1, (hmain _).2] at hread
      refine parseCall_eq_ok_iff.2 ⟨before ++ joined key value :: after, hline', ?_⟩
      rw [(hmain _).1, (hmain _).2]
      exact ofTokens_append (isDashed_named key) (isDashed_joined key value) hitems hread

/-- A key with its value behind it is joined: it is given twice, and its value has an equals sign and a
blank in it. To `parse` the leading option is the main command. -/
theorem option_spelling_twice :
    let keyword := "usacloud".toList
    let line := "usacloud -q server --tag a=\"b c\" list --tag=d -x".toList
    let line' := "usacloud -q server \"--tag=a=b c\" list --tag=d -x".toList
    let tail : List Item := [.option "tag".toList "a=b c".toList, .argument "list".toList,
      .option "tag".toList "d".toList, .argument "-x".toList]
    let call := ofItems line "server".toList none (.flag "q".toList :: tail)
    let other := ofItems line "-q".toList (some "server".toList) tail
    (parseCall keyword line = .ok call ∧ parseCall keyword line' = .ok { call with raw := line' }) ∧
      (parse keyword line = .ok other ∧ parse keyword line' = .ok { other with raw := line' }) := by
  intro keyword line line' tail call other
  have hcall : parseCall keyword line = .ok call := by
    decide +kernel
  have hother : parse keyword line = .ok other := by
    decide +kernel
  have hsplit : Token.split line =
      ["usacloud".toList, "-q".toList, "server".toList] ++ named "tag".toList :: "a=b c".toList ::
        ["list".toList, "--tag=d".toList, "-x".toList] := by
    decide +kernel
  have hsplit' : Token.split line' =
      ["usacloud".toList, "-q".toList, "server".toList] ++ joined "tag".toList "a=b c".toList ::
        ["list".toList, "--tag=d".toList, "-x".toList] := by
    decide +kernel
  have hkey : '=' ∉ "tag".toList := by
    decide
  have hvalue : isDashed "a=b c".toList = false := by
    decide
  exact ⟨⟨hcall, (option_spelling hkey hvalue hsplit hsplit').2 (by decide) hcall⟩,
    ⟨hother, (option_spelling hkey hvalue hsplit hsplit').1 (by decide) hother⟩⟩

end Command
end ScriptUpgrade
