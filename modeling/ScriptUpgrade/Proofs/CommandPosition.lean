/-
# The command position of a call

`commandWord?` reads the words of a call body until one does not start with a dash. Said without the
reader (`commandWord?_eq_some_iff`): the text in front of the command is made of gaps and of options
that each have gaps before them (`Leads`), the command is a word without a leading dash, and a gap or
the end of the body follows it. Since nothing of this depends on which word the command is, renaming
the command leaves it in its place (`commandWord?_newText_commandFragments`).

The tables of the renaming rules hold plain names, and what they give is no command that they rename
again (`lookup_renamed`).
-/

import ScriptUpgrade.Proofs.Replacement

namespace ScriptUpgrade
namespace Migration

open Text (isGap)
open Fragment

/-- One gap or more. -/
def IsGaps (text : Text) : Prop :=
  text ≠ [] ∧ ∀ c ∈ text, isGap c = true

/-- A character of a word. -/
def isWordChar (c : Char) : Bool :=
  !isGap c

/-- The text in front of a command: gaps, or gaps, an option and again such a text. -/
inductive Leads : Text → Prop
  | gaps {gaps : Text} (hgaps : IsGaps gaps) : Leads gaps
  | option {gaps word front : Text} (hgaps : IsGaps gaps) (hdash : word.head? = some '-')
      (hword : ∀ c ∈ word, isWordChar c = true) (hoption : isOptionWord word = true)
      (hfront : Leads front) : Leads (gaps ++ word ++ front)

/-- A word that can be a command: it does not start with a dash. -/
structure IsCommandWord (word : Text) : Prop where
  ne_nil : word ≠ []
  noDash : word.head? ≠ some '-'
  noGap : ∀ c ∈ word, isWordChar c = true

theorem IsGaps.stops {gaps : Text} (h : IsGaps gaps) (rest : Text) :
    Text.Stops isWordChar (gaps ++ rest) := by
  obtain ⟨g, gaps, rfl⟩ := List.exists_cons_of_ne_nil h.1
  rw [List.cons_append, Text.stops_cons]
  simp [isWordChar, h.2 g (by simp)]

theorem Leads.stops {front : Text} (h : Leads front) (rest : Text) :
    Text.Stops isWordChar (front ++ rest) := by
  cases h with
  | gaps hgaps => exact hgaps.stops rest
  | option hgaps =>
    rw [List.append_assoc, List.append_assoc]
    exact hgaps.stops _

/-- A gap stands right in front of a command. -/
theorem Leads.getLast {front : Text} (h : Leads front) : ∃ c ∈ front.getLast?, isGap c = true := by
  induction h with
  | gaps hgaps =>
    exact ⟨_, List.getLast?_eq_some_getLast hgaps.1, hgaps.2 _ (List.getLast_mem _)⟩
  | option _ _ _ _ _ ih =>
    obtain ⟨c, hc, hgap⟩ := ih
    refine ⟨c, ?_, hgap⟩
    rw [List.getLast?_append, Option.mem_def.1 hc]
    rfl

theorem stops_isGap_of_word {word : Text} (hne : word ≠ []) (hword : ∀ c ∈ word, isWordChar c = true)
    (rest : Text) : Text.Stops isGap (word ++ rest) := by
  obtain ⟨c, word, rfl⟩ := List.exists_cons_of_ne_nil hne
  rw [List.cons_append, Text.stops_cons]
  simpa [isWordChar] using hword c (by simp)

/-- Gaps and a word at the start of a text are read as such. -/
theorem commandWord?_append {gaps word rest : Text} (hgaps : IsGaps gaps) (hne : word ≠ [])
    (hword : ∀ c ∈ word, isWordChar c = true) (hrest : Text.Stops isWordChar rest) :
    commandWord? (gaps ++ word ++ rest) =
      if word.head? == some '-' then
        if isOptionWord word then
          (commandWord? rest).map fun (front, command, back) => (gaps ++ word ++ front, command, back)
        else none
      else some (gaps, word, rest) := by
  have hstop := stops_isGap_of_word hne hword rest
  rw [commandWord?]
  dsimp only
  rw [List.append_assoc, Text.takeWhile_append_stops hgaps.2 hstop,
    Text.dropWhile_append_stops hgaps.2 hstop]
  have htake : (word ++ rest).takeWhile (fun c => !isGap c) = word :=
    Text.takeWhile_append_stops hword hrest
  have hdrop : (word ++ rest).dropWhile (fun c => !isGap c) = rest :=
    Text.dropWhile_append_stops hword hrest
  rw [htake, hdrop, if_neg (by simp [hgaps.1, hne])]

/-- The gaps at the start of a text, the word behind them and the rest. -/
theorem firstWord_shape (body : Text) :
    body = body.takeWhile isGap ++ (body.dropWhile isGap).takeWhile isWordChar ++
        (body.dropWhile isGap).dropWhile isWordChar ∧
      (∀ c ∈ body.takeWhile isGap, isGap c = true) ∧
      (∀ c ∈ (body.dropWhile isGap).takeWhile isWordChar, isWordChar c = true) ∧
      Text.Stops isWordChar ((body.dropWhile isGap).dropWhile isWordChar) := by
  refine ⟨?_, fun c hc => List.mem_takeWhile_imp hc, fun c hc => List.mem_takeWhile_imp hc,
    Text.stops_dropWhile _ _⟩
  rw [List.append_assoc, List.takeWhile_append_dropWhile, List.takeWhile_append_dropWhile]

/-- **Where the command of a call body stands.** -/
theorem commandWord?_eq_some_iff {body front word back : Text} :
    commandWord? body = some (front, word, back) ↔
      body = front ++ word ++ back ∧ Leads front ∧ IsCommandWord word ∧
        Text.Stops isWordChar back := by
  constructor
  · intro h
    fun_induction commandWord? body generalizing front with
    | case1 => simp at h
    | case2 body gaps first rest hne hdash hoption =>
      rename_i ih
      obtain ⟨⟨front', word', back'⟩, hrest, heq⟩ := Option.map_eq_some_iff.1 h
      simp only [Prod.mk.injEq] at heq
      obtain ⟨rfl, rfl, rfl⟩ := heq
      obtain ⟨hsplit, hleads, hword, hback⟩ := ih hrest
      obtain ⟨hbody, hgaps, hfirst, -⟩ := firstWord_shape body
      refine ⟨?_, .option ⟨fun h => hne (Or.inl h), hgaps⟩ (by simpa using hdash) hfirst hoption
        hleads, hword, hback⟩
      rw [List.append_assoc, List.append_assoc, ← List.append_assoc front', ← hsplit]
      exact hbody
    | case3 => simp at h
    | case4 body gaps first rest hne =>
      rename_i hdash
      obtain ⟨rfl, rfl, rfl⟩ : gaps = front ∧ first = word ∧ rest = back := by
        simpa using h
      obtain ⟨hbody, hgaps, hfirst, hrest⟩ := firstWord_shape body
      exact ⟨hbody, .gaps ⟨fun h => hne (Or.inl h), hgaps⟩,
        ⟨fun h => hne (Or.inr h), by simpa using hdash, hfirst⟩, hrest⟩
  · rintro ⟨rfl, hleads, hword, hback⟩
    induction hleads with
    | gaps hgaps =>
      rw [commandWord?_append hgaps hword.ne_nil hword.noGap hback, if_neg (by simpa using hword.noDash)]
    | option hgaps hdash hopt hoption hfront ih =>
      rename_i gaps option front
      have hne : option ≠ [] := by
        rintro rfl
        simp at hdash
      rw [List.append_assoc, List.append_assoc,
        commandWord?_append hgaps hne hopt (hfront.stops _), if_pos (by simpa using hdash),
        if_pos hoption, ← List.append_assoc, ih]
      rfl

/-- A command that a renaming rule replaces. -/
structure Renamed (table : List (Text × Text)) (front old new rest : Text) : Prop where
  leads : Leads front
  isCommandWord : IsCommandWord old
  stops : Text.Stops isWordChar rest
  entry : (old, new) ∈ table

theorem mem_of_lookup {table : List (Text × Text)} {command name : Text}
    (h : lookup table command = some name) : (command, name) ∈ table := by
  obtain ⟨row, hrow, rfl⟩ := Option.map_eq_some_iff.1 h
  have hkey : row.1 = command := by simpa using List.find?_some hrow
  rw [← hkey]
  exact List.mem_of_find?_eq_some hrow

theorem oldText_commandFragments (table : List (Text × Text)) (body : Text) :
    oldText (commandFragments table body) = body := by
  unfold commandFragments
  split
  · exact oldText_keep body
  · rename_i front command back hword
    split
    · exact oldText_keep body
    · rw [oldText_append, oldText_keep, oldText_replaced, oldText_keep,
        (commandWord?_eq_some_iff.1 hword).1, List.append_assoc]

/-- **A renaming rule replaces only the command.** -/
theorem each_commandFragments (table : List (Text × Text)) (body : Text) :
    Each (Renamed table) [] (commandFragments table body) := by
  unfold commandFragments
  split
  · exact each_keep [] body
  · rename_i front command back hword
    split
    · exact each_keep [] body
    · rename_i name hname
      obtain ⟨-, hleads, hcommand, hback⟩ := commandWord?_eq_some_iff.1 hword
      rw [each_keep_append, List.nil_append, Each, oldText_keep]
      exact ⟨⟨hleads, hcommand, hback, mem_of_lookup hname⟩, each_keep _ _⟩

/-- A name that a table may hold: it starts with a letter or digit and goes on with letters, digits
and dashes. -/
def isPlainName (name : Text) : Bool :=
  name.all isZoneChar && name.head?.any (· != '-')

/-- Every name in a table is plain. -/
def IsPlainTable (table : List (Text × Text)) : Prop :=
  ∀ row ∈ table, isPlainName row.1 = true ∧ isPlainName row.2 = true

theorem isPlainTable_resourceRenames : IsPlainTable resourceRenames := by
  unfold IsPlainTable
  decide

theorem isPlainTable_productAliases : IsPlainTable productAliases := by
  unfold IsPlainTable
  decide

theorem isPlainName_iff {name : Text} : isPlainName name = true ↔ IsZoneName name := by
  cases name with
  | nil => simp [isPlainName, IsZoneName]
  | cons c name => simp [isPlainName, IsZoneName, and_comm]

theorem IsZoneName.isCommandWord {name : Text} (h : IsZoneName name) : IsCommandWord name := by
  obtain ⟨c, rest, rfl, hc, hall⟩ := h
  refine ⟨by simp, by simpa using hc, fun d hd => ?_⟩
  have hzone := hall d hd
  cases hgap : isGap d with
  | false => simp [isWordChar, hgap]
  | true =>
    simp only [isGap, Bool.or_eq_true, beq_iff_eq] at hgap
    rcases hgap with rfl | rfl <;> exact absurd hzone (by decide)

/-- The command of a call after a renaming rule. -/
def renamed (table : List (Text × Text)) (command : Text) : Text :=
  (lookup table command).getD command

/-- **Renaming leaves the command in its place.** -/
theorem commandWord?_newText_commandFragments {table : List (Text × Text)} (htable : IsPlainTable table)
    (body : Text) :
    commandWord? (newText (commandFragments table body)) =
      (commandWord? body).map fun (front, command, back) => (front, renamed table command, back) := by
  unfold commandFragments
  split
  · rename_i hnone
    rw [newText_keep, hnone]
    rfl
  · rename_i front command back hword
    split
    · rename_i hlookup
      rw [newText_keep, hword]
      simp [renamed, hlookup]
    · rename_i name hlookup
      obtain ⟨-, hleads, -, hback⟩ := commandWord?_eq_some_iff.1 hword
      have hname := isPlainName_iff.1 (htable _ (mem_of_lookup hlookup)).2
      rw [newText_append, newText_keep, newText_replaced, newText_keep, ← List.append_assoc,
        commandWord?_eq_some_iff.2 ⟨rfl, hleads, hname.isCommandWord, hback⟩]
      simp [renamed, hlookup, hword]

/-- A command that another table has renamed is not renamed, if no table gives a name that is renamed
and the command was not renamed before. -/
theorem lookup_renamed {table other : List (Text × Text)}
    (hother : ∀ row ∈ other, lookup table row.2 = none) {command : Text}
    (hcommand : lookup other command = none → lookup table command = none) :
    lookup table (renamed other command) = none := by
  unfold renamed
  cases hname : lookup other command with
  | none => exact hcommand hname
  | some name => exact hother _ (mem_of_lookup hname)

end Migration
end ScriptUpgrade
