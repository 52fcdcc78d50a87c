/-
# Verdicts are membership

A catalogue is made of entries and standalone commands as they are given, and of nothing else: what it
has for a command is told from the given names, with case left out of account.

| question | answer by the given names |
| --- | --- |
| is there such a command | an entry has its name (`has_ofEntries_iff`) |
| is it standalone | a standalone command has its name (`isStandalone_ofEntries_iff`) |
| which entry counts | the last one under the greatest of its names (`entry?_ofEntries_eq_some_iff`) |

A verdict asks these questions and looks the subcommand up in the list of the entry that counts. So it is
decided by membership in the given lists, in what it says as well as in what it offers (`on_ofEntries`).
-/

import ScriptUpgrade.Proofs.SortedTexts
import ScriptUpgrade.Verdict

namespace ScriptUpgrade

namespace Sorted

variable {α : Type}

/-- In a map in order every pair is found. -/
theorem find?_of_mem {pairs : List (Text × α)} (h : InOrder pairs) {pair : Text × α}
    (hmem : pair ∈ pairs) : find? pair.1 pairs = some pair.2 := by
  obtain ⟨front, back, rfl⟩ := List.append_of_mem hmem
  refine find?_eq_some_iff.2 ⟨front, back, rfl, fun other hother => ?_⟩
  exact Text.ne_of_precedes ((List.pairwise_append.1 h).2.2 other hother pair List.mem_cons_self)

/-- A map has the keys of the pairs it is made of. -/
theorem exists_mem_ofPairs_iff {key : Text} {pairs : List (Text × α)} :
    (∃ pair ∈ ofPairs pairs, pair.1 = key) ↔ ∃ pair ∈ pairs, pair.1 = key := by
  rw [← isSome_find?_iff, find?_ofPairs, isSome_find?_iff]
  simp only [List.mem_reverse]

end Sorted

namespace Catalogue

/-- The row that counts for a command among given entries: its name is the command up to case, it is the
last row of that name, and no other such name comes later in the order of texts. -/
structure Prevails (entries : List (Text × Entry)) (command : Text) (row : Text × Entry) : Prop where
  same : Text.lower row.1 = Text.lower command
  last : Sorted.find? row.1 entries.reverse = some row.2
  greatest : ∀ other ∈ entries, Text.lower other.1 = Text.lower command →
    Text.precedes row.1 other.1 = false

variable {entries : List (Text × Entry)} {standalone : List Text} {command : Text}

/-- **A catalogue has the commands whose names it is made of.** -/
theorem has_ofEntries_iff :
    (ofEntries entries standalone).has command = true ↔
      Text.lower command ∈ entries.map fun row => Text.lower row.1 := by
  rw [has, entry?, Sorted.isSome_find?_iff, ofEntries]
  dsimp only
  rw [Sorted.exists_mem_ofPairs_iff, List.mem_map]
  constructor
  · rintro ⟨_, hmem, hkey⟩
    obtain ⟨row, hrow, rfl⟩ := List.mem_map.1 hmem
    exact ⟨row, Sorted.mem_of_mem_ofPairs hrow, hkey⟩
  · rintro ⟨row, hrow, hkey⟩
    obtain ⟨row', hrow', hname⟩ := Sorted.exists_mem_ofPairs_iff.2 ⟨row, hrow, rfl⟩
    exact ⟨_, List.mem_map_of_mem hrow', by rw [← hkey, ← hname]⟩

theorem isStandalone_ofEntries_iff :
    (ofEntries entries standalone).isStandalone command = true ↔
      Text.lower command ∈ standalone.map Text.lower := by
  rw [isStandalone, List.contains_iff_mem, ofEntries, Sorted.mem_ofList]

/-- The row that is last in the sorted map of the given entries prevails. -/
theorem prevails_iff {row : Text × Entry} :
    Prevails entries command row ↔ Text.lower row.1 = Text.lower command ∧
      ∃ front back, Sorted.ofPairs entries = front ++ row :: back ∧
        ∀ other ∈ back, Text.lower other.1 ≠ Text.lower command := by
  have horder := Sorted.inOrder_ofPairs entries
  constructor
  · rintro ⟨hsame, hlast, hgreatest⟩
    rw [← Sorted.find?_ofPairs] at hlast
    obtain ⟨front, back, hsplit, -⟩ := Sorted.find?_eq_some_iff.1 hlast
    refine ⟨hsame, front, back, hsplit, fun other hother hlower => ?_⟩
    rw [Sorted.InOrder, hsplit] at horder
    have hbefore := (List.pairwise_cons.1 (List.pairwise_append.1 horder).2.1).1 other hother
    have hmem : other ∈ Sorted.ofPairs entries := by
      rw [hsplit]
      exact List.mem_append_right _ (List.mem_cons_of_mem _ hother)
    rw [hgreatest other (Sorted.mem_of_mem_ofPairs hmem) hlower] at hbefore
    cases hbefore
  · rintro ⟨hsame, front, back, hsplit, hback⟩
    refine ⟨hsame, ?_, fun other hother hlower => ?_⟩
    · rw [← Sorted.find?_ofPairs]
      exact Sorted.find?_of_mem horder (by rw [hsplit]; exact List.mem_append_right _ List.mem_cons_self)
    · -- a row of the same name is in the map, and not behind the one that prevails
      obtain ⟨found, hfound, hname⟩ := Sorted.exists_mem_ofPairs_iff.2 ⟨other, hother, rfl⟩
      rw [Sorted.InOrder, hsplit] at horder
      rw [hsplit, List.mem_append, List.mem_cons] at hfound
      rcases hfound with hfound | rfl | hfound
      · rw [← hname]
        exact Text.precedes_asymm ((List.pairwise_append.1 horder).2.2 found hfound row List.mem_cons_self)
      · rw [← hname, Text.precedes_irrefl]
      · rw [← hname] at hlower
        exact absurd hlower (hback found hfound)

/-- **Which entry counts for a command**: that of the row that prevails, in lower case. -/
theorem entry?_ofEntries_eq_some_iff {entry : Entry} :
    Catalogue.entry? (ofEntries entries standalone) command = some entry ↔
      ∃ row, Prevails entries command row ∧ entry = row.2.lower := by
  unfold entry? ofEntries
  dsimp only
  rw [Sorted.find?_ofPairs, Sorted.find?_eq_some_iff]
  simp only [prevails_iff]
  constructor
  · rintro ⟨front, back, hsplit, hfront⟩
    rw [List.reverse_eq_iff, List.reverse_append, List.reverse_cons, List.append_assoc,
      List.singleton_append] at hsplit
    obtain ⟨left, right, hpairs, hleft, hright⟩ := List.map_eq_append_iff.1 hsplit
    obtain ⟨row, right, rfl, hrow, hbehind⟩ := List.map_eq_cons_iff.1 hright
    rw [Prod.mk.injEq] at hrow
    refine ⟨row, ⟨hrow.1, left, right, hpairs, fun other hother => ?_⟩, hrow.2.symm⟩
    refine hfront (Text.lower other.1, other.2.lower) (List.mem_reverse.1 ?_)
    rw [← hbehind]
    exact List.mem_map_of_mem hother
  · rintro ⟨row, ⟨hsame, left, right, hpairs, hright⟩, rfl⟩
    refine ⟨(right.map fun other => (Text.lower other.1, other.2.lower)).reverse,
      (left.map fun other => (Text.lower other.1, other.2.lower)).reverse, ?_, fun pair hpair => ?_⟩
    · rw [hpairs, List.map_append, List.map_cons, List.reverse_append, List.reverse_cons, hsame,
        List.append_assoc, List.singleton_append]
    · obtain ⟨other, hother, rfl⟩ := List.mem_map.1 (List.mem_reverse.1 hpair)
      exact hright other hother

end Catalogue

namespace Verdict

/-! ### Cases of a verdict -/

/-- **What a verdict can be**, by what the catalogue has for the main command. -/
theorem on_cases (catalogue : Catalogue) (max : Nat) (command : Command) :
    let alone := catalogue.isStandalone command.main
    let sub := command.subOrEmpty
    let verdict := on catalogue max command
    catalogue.entry? command.main = none ∧
        verdict = .unknownCommand (Suggestion.suggest command.main catalogue.commands max) ∨
      ∃ entry, catalogue.entry? command.main = some entry ∧
        (alone = true ∧ (sub = [] ∧ verdict = .valid ∨ sub ≠ [] ∧ verdict = .unexpectedSubcommand) ∨
          alone = false ∧
            (sub = [] ∧ (entry.subcommands = [] ∧ verdict = .valid ∨
                entry.subcommands ≠ [] ∧ verdict = .missingSubcommand entry.subcommands) ∨
              sub ≠ [] ∧ (Text.lower sub ∈ entry.subcommands ∧ verdict = .valid ∨
                Text.lower sub ∉ entry.subcommands ∧ verdict = .invalidSubcommand
                  (Suggestion.suggest sub entry.subcommands max) entry.subcommands))) := by
  intro alone sub verdict
  cases hentry : catalogue.entry? command.main with
  | none =>
    refine Or.inl ⟨rfl, ?_⟩
    simp [verdict, on, onMain, Catalogue.has, hentry, isValid]
  | some entry =>
    refine Or.inr ⟨entry, rfl, ?_⟩
    have hsubs : catalogue.subcommands? command.main = some entry.subcommands := by
      simp [Catalogue.subcommands?, hentry]
    have hverdict : verdict = onSub catalogue max command.main sub := by
      simp [verdict, sub, on, onMain, Catalogue.has, hentry, isValid]
    cases halone : alone with
    | true =>
      refine Or.inl ⟨rfl, ?_⟩
      rw [hverdict, onSub, if_pos halone]
      by_cases hsub : sub = []
      · exact Or.inl ⟨hsub, by rw [hsub]; rfl⟩
      · exact Or.inr ⟨hsub, if_neg (by rwa [List.isEmpty_iff])⟩
    | false =>
      refine Or.inr ⟨rfl, ?_⟩
      have hstands : catalogue.isStandalone command.main = false := halone
      have hneeds : catalogue.needsSubcommand command.main = !entry.subcommands.isEmpty := by
        simp [Catalogue.needsSubcommand, hsubs, hstands]
      rw [hverdict, onSub, hstands, if_neg Bool.false_ne_true, hsubs]
      dsimp only
      by_cases hsub : sub = []
      · refine Or.inl ⟨hsub, ?_⟩
        rw [if_pos (by rw [hsub]; rfl), hneeds]
        by_cases hempty : entry.subcommands = []
        · exact Or.inl ⟨hempty, by rw [hempty]; rfl⟩
        · exact Or.inr ⟨hempty, if_pos (by simpa using hempty)⟩
      · refine Or.inr ⟨hsub, ?_⟩
        rw [if_neg (by rwa [List.isEmpty_iff]), Catalogue.hasSubcommand, hsubs]
        dsimp only
        by_cases hmem : Text.lower sub ∈ entry.subcommands
        · exact Or.inl ⟨hmem, if_pos (by rwa [List.contains_iff_mem])⟩
        · exact Or.inr ⟨hmem, if_neg (by rwa [List.contains_iff_mem])⟩

/-- A verdict is the one to be given on a command with the subcommand `sub`, the empty text if there is
none. The main command may be known and may be standalone, and it takes `subcommands`. -/
structure Decides (known alone : Prop) (subcommands : List Text) (sub : Text) (verdict : Verdict) :
    Prop where
  valid : verdict.isValid = true ↔ known ∧ (alone ∧ sub = [] ∨ ¬ alone ∧ sub = [] ∧ subcommands = [] ∨
    ¬ alone ∧ sub ≠ [] ∧ Text.lower sub ∈ subcommands)
  noFault : verdict.fault? = none ↔ verdict.isValid = true
  unknown : verdict.isValid = false → ¬ known → verdict.fault? = some "unknown_command".toList
  unexpected : verdict.isValid = false → known → alone →
    verdict.fault? = some "unexpected_subcommand".toList
  missing : verdict.isValid = false → known → ¬ alone → sub = [] →
    verdict.fault? = some "missing_subcommand".toList
  invalid : verdict.isValid = false → known → ¬ alone → sub ≠ [] →
    verdict.fault? = some "invalid_subcommand".toList
  available : verdict.available =
    if verdict.fault? ∈ [some "missing_subcommand".toList, some "invalid_subcommand".toList]
      then subcommands else []
  suggestions : verdict.fault? ∉ [some "unknown_command".toList, some "invalid_subcommand".toList] →
    verdict.suggestions = []

section

variable {known alone : Prop} {subcommands : List Text} {sub : Text}

theorem decides_valid (hknown : known) (h : alone ∧ sub = [] ∨ ¬ alone ∧ sub = [] ∧ subcommands = [] ∨
    ¬ alone ∧ sub ≠ [] ∧ Text.lower sub ∈ subcommands) :
    Decides known alone subcommands sub .valid where
  valid := ⟨fun _ => ⟨hknown, h⟩, fun _ => rfl⟩
  noFault := ⟨fun _ => rfl, fun _ => rfl⟩
  unknown hvalid := by cases hvalid
  unexpected hvalid := by cases hvalid
  missing hvalid := by cases hvalid
  invalid hvalid := by cases hvalid
  available := by simp [fault?, available]
  suggestions _ := rfl

theorem decides_unknownCommand (hknown : ¬ known) (names : List Text) :
    Decides known alone subcommands sub (.unknownCommand names) := by
  constructor <;> simp [isValid, fault?, available, suggestions, hknown]

theorem decides_unexpectedSubcommand (halone : alone) (hsub : sub ≠ []) (hknown : known) :
    Decides known alone subcommands sub .unexpectedSubcommand := by
  constructor <;> simp [isValid, fault?, available, suggestions, hknown, halone, hsub]

theorem decides_missingSubcommand (halone : ¬ alone) (hsub : sub = []) (hlist : subcommands ≠ [])
    (hknown : known) : Decides known alone subcommands sub (.missingSubcommand subcommands) := by
  constructor <;> simp [isValid, fault?, available, suggestions, hknown, halone, hsub, hlist]

theorem decides_invalidSubcommand (halone : ¬ alone) (hsub : sub ≠ [])
    (hlist : Text.lower sub ∉ subcommands) (hknown : known) (names : List Text) :
    Decides known alone subcommands sub (.invalidSubcommand names subcommands) := by
  constructor <;> simp [isValid, fault?, available, suggestions, hknown, halone, hsub, hlist]

end

/-- **A verdict decides membership** in the entries and the standalone commands that the catalogue is made
of. -/
theorem on_ofEntries (entries : List (Text × Catalogue.Entry)) (standalone : List Text) (max : Nat)
    (command : Command) :
    let known := Text.lower command.main ∈ entries.map fun row => Text.lower row.1
    let alone := Text.lower command.main ∈ standalone.map Text.lower
    ∃ subcommands : List Text,
      (known → ∃ row, Catalogue.Prevails entries command.main row ∧
        subcommands = row.2.subcommands.map Text.lower) ∧
      Decides known alone subcommands command.subOrEmpty
        (on (.ofEntries entries standalone) max command) := by
  intro known alone
  have hknown : (Catalogue.ofEntries entries standalone).has command.main = true ↔ known :=
    Catalogue.has_ofEntries_iff
  have halone : (Catalogue.ofEntries entries standalone).isStandalone command.main = true ↔ alone :=
    Catalogue.isStandalone_ofEntries_iff
  rcases on_cases (.ofEntries entries standalone) max command with
    ⟨hnone, hverdict⟩ | ⟨entry, hentry, hcases⟩
  · rw [Catalogue.has, hnone, Option.isSome_none] at hknown
    have hunknown : ¬ known := fun h => absurd (hknown.2 h) Bool.false_ne_true
    refine ⟨[], fun h => absurd h hunknown, ?_⟩
    rw [hverdict]
    exact decides_unknownCommand hunknown _
  · rw [Catalogue.has, hentry, Option.isSome_some] at hknown
    have hyes : known := hknown.1 rfl
    obtain ⟨row, hrow, rfl⟩ := Catalogue.entry?_ofEntries_eq_some_iff.1 hentry
    refine ⟨row.2.lower.subcommands, fun _ => ⟨row, hrow, rfl⟩, ?_⟩
    rcases hcases with ⟨hstands, hcases⟩ | ⟨hstands, hcases⟩
    · have hstands : alone := halone.1 hstands
      rcases hcases with ⟨hsub, hverdict⟩ | ⟨hsub, hverdict⟩
      · rw [hverdict]
        exact decides_valid hyes (Or.inl ⟨hstands, hsub⟩)
      · rw [hverdict]
        exact decides_unexpectedSubcommand hstands hsub hyes
    · have hstands : ¬ alone := fun h => by rw [halone.2 h] at hstands; cases hstands
      rcases hcases with ⟨hsub, hcases⟩ | ⟨hsub, hcases⟩
      · rcases hcases with ⟨hlist, hverdict⟩ | ⟨hlist, hverdict⟩
        · rw [hverdict]
          exact decides_valid hyes (Or.inr (Or.inl ⟨hstands, hsub, hlist⟩))
        · rw [hverdict]
          exact decides_missingSubcommand hstands hsub hlist hyes
      · rcases hcases with ⟨hlist, hverdict⟩ | ⟨hlist, hverdict⟩
        · rw [hverdict]
          exact decides_valid hyes (Or.inr (Or.inr ⟨hstands, hsub, hlist⟩))
        · rw [hverdict]
          exact decides_invalidSubcommand hstands hsub hlist hyes _

/-- Names that differ only in case: the entry of `server` counts, which comes after `Server`. -/
theorem on_ofEntries_other_case :
    let entries : List (Text × Catalogue.Entry) :=
      [("server".toList, ⟨"server".toList, ["List".toList], [], .compute⟩),
       ("Server".toList, ⟨"Server".toList, ["Stop".toList], [], .compute⟩),
       ("version".toList, ⟨"version".toList, [], [], .misc⟩)]
    let standalone := ["VERSION".toList]
    let command := Command.ofItems [] "SERVER".toList (some "stop".toList) []
    let verdict := on (.ofEntries entries standalone) 3 command
    Text.lower command.main ∈ entries.map (fun row => Text.lower row.1) ∧
      Text.lower command.main ∉ standalone.map Text.lower ∧
      verdict.fault? = some "invalid_subcommand".toList ∧
      ∃ row, Catalogue.Prevails entries command.main row ∧
        verdict.available = row.2.subcommands.map Text.lower := by
  intro entries standalone command verdict
  have hknown : Text.lower command.main ∈ entries.map fun row => Text.lower row.1 := by
    decide +kernel
  have halone : Text.lower command.main ∉ standalone.map Text.lower := by
    decide +kernel
  have hvalid : verdict.isValid = false := by
    decide +kernel
  obtain ⟨subcommands, hrow, hdecides⟩ := on_ofEntries entries standalone 3 command
  have hfault : verdict.fault? = some "invalid_subcommand".toList :=
    hdecides.invalid hvalid hknown halone (by decide)
  obtain ⟨row, hprevails, hlist⟩ := hrow hknown
  refine ⟨hknown, halone, hfault, row, hprevails, ?_⟩
  rw [hdecides.available, ← hlist, show (on _ 3 command).fault? = _ from hfault]
  rfl

/-- What is offered to the command above. -/
example :
    let entry := fun (name sub : String) =>
      (name.toList, (⟨name.toList, [sub.toList], [], .compute⟩ : Catalogue.Entry))
    (on (.ofEntries [entry "server" "List", entry "Server" "Stop"] []) 3
      (Command.ofItems [] "SERVER".toList (some "stop".toList) [])).available = ["list".toList] := by
  decide +kernel

end Verdict
end ScriptUpgrade
