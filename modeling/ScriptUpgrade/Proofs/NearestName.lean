/-
# Looking a name up and ranking names agree

A catalogue answers whether a name is there by looking it up in lower case, and it offers names by their
distance from a token. Both say the same of a name that is there: it is at no distance from itself, and
since all names of a catalogue are in lower case no other name is (`head?_suggest_iff`). So a token is
known exactly if the first name offered for it is the token in lower case.

The names that a verdict offers are names of the catalogue, and in lower case already. Each of them would
have passed in the place of the name that was refused. A subcommand without characters is no exception
only because there is none: it would be read as a missing subcommand.
-/

import ScriptUpgrade.Proofs.Acceptance
import ScriptUpgrade.Proofs.LowerCase
import ScriptUpgrade.Proofs.Membership
import ScriptUpgrade.Proofs.Ranking

namespace ScriptUpgrade

namespace Suggestion

variable {token : Text} {names : List Text} {max : Nat}

/-- Only names that differ in case at most have no distance. -/
theorem distance_eq_zero_iff {left right : Text} :
    distance left right = 0 ↔ Text.lower left = Text.lower right :=
  editDistance_eq_zero_iff

theorem mem_of_mem_suggest {name : Text} (h : name ∈ suggest token names max) : name ∈ names := by
  rw [suggest_eq] at h
  exact (((isRanking_rank token names).mem_iff name).1 (List.mem_of_mem_take h)).1

/-- **The first suggestion among names in lower case is the token itself** if and only if it is one of
them. -/
theorem head?_suggest_iff (hlower : ∀ name ∈ names, Text.lower name = name) (hmax : 1 ≤ max) :
    (suggest token names max).head? = some (Text.lower token) ↔ Text.lower token ∈ names := by
  constructor
  · intro h
    exact mem_of_mem_suggest (List.mem_of_mem_head? h)
  · intro hmem
    have hranking := isRanking_rank token names
    have hzero : distance token (Text.lower token) = 0 :=
      distance_eq_zero_iff.2 (Text.lower_lower token).symm
    have hranked : Text.lower token ∈ (rank token names).map Prod.snd :=
      (hranking.mem_iff _).2 ⟨hmem, by omega⟩
    obtain ⟨max, rfl⟩ := Nat.exists_eq_add_of_le' hmax
    rw [suggest_eq]
    cases hlist : (rank token names).map Prod.snd with
    | nil =>
      rw [hlist] at hranked
      cases hranked
    | cons first rest =>
      rw [hlist] at hranking
      -- the first name is as near as the token in lower case, so it is at no distance either
      have hfirst : distance token first = 0 := by
        have := hranking.distance_le hmem
        omega
      have hname : first ∈ names := ((hranking.mem_iff first).1 List.mem_cons_self).1
      rw [List.take_succ_cons, List.head?_cons, distance_eq_zero_iff.1 hfirst, hlower first hname]

end Suggestion

namespace Catalogue

theorem has_iff_mem_commands {catalogue : Catalogue} {command : Text} :
    catalogue.has command = true ↔ Text.lower command ∈ catalogue.commands := by
  rw [has, entry?, Sorted.isSome_find?_iff, commands, List.mem_map]

theorem hasSubcommand_iff {catalogue : Catalogue} {command : Text} {subcommands : List Text}
    (h : catalogue.subcommands? command = some subcommands) {sub : Text} :
    catalogue.hasSubcommand command sub = true ↔ Text.lower sub ∈ subcommands := by
  rw [hasSubcommand, h]
  exact List.contains_iff_mem

variable {entries : List (Text × Entry)} {standalone : List Text}

/-- **The commands of a catalogue are in lower case.** -/
theorem lower_of_mem_commands {name : Text} (h : name ∈ (ofEntries entries standalone).commands) :
    Text.lower name = name := by
  obtain ⟨pair, hpair, rfl⟩ := List.mem_map.1 h
  obtain ⟨row, -, rfl⟩ := exists_of_mem_entries hpair
  exact Text.lower_lower row.1

/-- The subcommands of a command are those of an entry. -/
theorem exists_of_subcommands? {catalogue : Catalogue} {command : Text} {subcommands : List Text}
    (h : catalogue.subcommands? command = some subcommands) :
    ∃ pair ∈ catalogue.entries, pair.2.subcommands = subcommands := by
  obtain ⟨entry, hentry, rfl⟩ := Option.map_eq_some_iff.1 h
  exact ⟨_, exists_of_entry?_eq_some hentry, rfl⟩

/-- **The subcommands of a catalogue are in lower case.** -/
theorem lower_of_mem_subcommands {command sub : Text} {subcommands : List Text}
    (h : (ofEntries entries standalone).subcommands? command = some subcommands)
    (hsub : sub ∈ subcommands) : Text.lower sub = sub := by
  obtain ⟨pair, hpair, rfl⟩ := exists_of_subcommands? h
  obtain ⟨row, -, rfl⟩ := exists_of_mem_entries hpair
  obtain ⟨given, -, rfl⟩ := List.mem_map.1 hsub
  exact Text.lower_lower given

end Catalogue

namespace Verdict

open Catalogue

variable {entries : List (Text × Catalogue.Entry)} {standalone : List Text} {max : Nat}

theorem onMain_of_mem_commands {name : Text} (h : name ∈ (ofEntries entries standalone).commands) :
    onMain (.ofEntries entries standalone) max name = .valid := by
  refine if_pos (has_iff_mem_commands.2 ?_)
  rwa [lower_of_mem_commands h]

theorem onSub_of_mem_subcommands {command sub : Text} {subcommands : List Text}
    (halone : (ofEntries entries standalone).isStandalone command = false)
    (h : (ofEntries entries standalone).subcommands? command = some subcommands)
    (hsub : sub ∈ subcommands) (hne : sub ≠ []) :
    onSub (.ofEntries entries standalone) max command sub = .valid := by
  have hhas : (ofEntries entries standalone).hasSubcommand command sub = true := by
    rwa [hasSubcommand_iff h, lower_of_mem_subcommands h hsub]
  rw [onSub, halone, if_neg Bool.false_ne_true, h]
  dsimp only
  rw [if_neg (by rwa [List.isEmpty_iff]), if_pos hhas]

/-- **Where suggestions come from**: from the commands, from the subcommands of the main command, or there
are none. -/
theorem suggestions_cases (catalogue : Catalogue) (max : Nat) (command : Command) :
    let verdict := on catalogue max command
    verdict.fault? = some "unknown_command".toList ∧
        verdict.suggestions = Suggestion.suggest command.main catalogue.commands max ∨
      (∃ subcommands, verdict.fault? = some "invalid_subcommand".toList ∧
        catalogue.isStandalone command.main = false ∧
        catalogue.subcommands? command.main = some subcommands ∧
        verdict.suggestions = Suggestion.suggest command.subOrEmpty subcommands max) ∨
      verdict.suggestions = [] := by
  intro verdict
  rcases on_cases catalogue max command with ⟨-, hverdict⟩ | ⟨entry, hentry, hcases⟩
  · refine Or.inl ?_
    rw [show verdict = _ from hverdict]
    exact ⟨rfl, rfl⟩
  · have hsubs : catalogue.subcommands? command.main = some entry.subcommands := by
      rw [subcommands?, hentry, Option.map_some]
    refine Or.inr ?_
    rcases hcases with ⟨-, ⟨-, hverdict⟩ | ⟨-, hverdict⟩⟩ |
        ⟨halone, ⟨-, ⟨-, hverdict⟩ | ⟨-, hverdict⟩⟩ | ⟨-, ⟨-, hverdict⟩ | ⟨-, hverdict⟩⟩⟩ <;>
      rw [show verdict = _ from hverdict]
    any_goals exact Or.inr rfl
    exact Or.inl ⟨_, rfl, halone, hsubs, rfl⟩

/-- **Looking up and suggesting agree.** A name is found exactly if it is the first suggestion for itself,
and every name that is suggested for one that is not found is valid in its place. -/
theorem found_iff_first_suggestion (entries : List (Text × Catalogue.Entry)) (standalone : List Text)
    (hnames : ∀ pair ∈ (ofEntries entries standalone).entries, ∀ sub ∈ pair.2.subcommands, sub ≠ []) :
    let catalogue := ofEntries entries standalone
    (∀ token max, 1 ≤ max → (catalogue.has token = true ↔
        (Suggestion.suggest token catalogue.commands max).head? = some (Text.lower token))) ∧
      (∀ command subcommands, catalogue.subcommands? command = some subcommands →
        ∀ token max, 1 ≤ max → (catalogue.hasSubcommand command token = true ↔
          (Suggestion.suggest token subcommands max).head? = some (Text.lower token))) ∧
      ∀ max command,
        let verdict := on catalogue max command
        (verdict.fault? = some "unknown_command".toList →
            ∀ name ∈ verdict.suggestions, onMain catalogue max name = .valid) ∧
          (verdict.fault? = some "invalid_subcommand".toList →
            ∀ name ∈ verdict.suggestions, onSub catalogue max command.main name = .valid) := by
  intro catalogue
  refine ⟨fun token max hmax => ?_, fun command subcommands hsubs token max hmax => ?_, ?_⟩
  · rw [Suggestion.head?_suggest_iff (fun name => lower_of_mem_commands) hmax, has_iff_mem_commands]
  · rw [Suggestion.head?_suggest_iff (fun sub => lower_of_mem_subcommands hsubs) hmax,
      hasSubcommand_iff hsubs]
  · intro max command verdict
    rcases suggestions_cases catalogue max command with
      ⟨hunknown, hsuggestions⟩ | ⟨subcommands, hinvalid, halone, hsubs, hsuggestions⟩ | hnone
    · refine ⟨fun _ name hname => ?_, fun hfault => ?_⟩
      · rw [show verdict.suggestions = _ from hsuggestions] at hname
        exact onMain_of_mem_commands (Suggestion.mem_of_mem_suggest hname)
      · rw [show verdict.fault? = _ from hunknown] at hfault
        exact absurd hfault (by decide)
    · refine ⟨fun hfault => ?_, fun _ name hname => ?_⟩
      · rw [show verdict.fault? = _ from hinvalid] at hfault
        exact absurd hfault (by decide)
      · rw [show verdict.suggestions = _ from hsuggestions] at hname
        have hmem := Suggestion.mem_of_mem_suggest hname
        obtain ⟨pair, hpair, rfl⟩ := exists_of_subcommands? hsubs
        exact onSub_of_mem_subcommands halone hsubs hmem (hnames pair hpair name hmem)
    · rw [show verdict.suggestions = _ from hnone]
      exact ⟨fun _ _ hname => absurd hname List.not_mem_nil, fun _ _ hname => absurd hname List.not_mem_nil⟩

/-- A catalogue with names of either case: `SERVER` and its subcommand `STOP` are found, `sever` is not, and
neither is the subcommand `lisp`. -/
theorem found_iff_first_suggestion_other_case :
    let catalogue := ofEntries
      [("Server".toList, ⟨"Server".toList, ["List".toList, "Stop".toList], [], .compute⟩),
       ("version".toList, ⟨"version".toList, [], [], .misc⟩)] ["VERSION".toList]
    let unknown := Command.ofItems [] "sever".toList none []
    let invalid := Command.ofItems [] "SERVER".toList (some "lisp".toList) []
    (Suggestion.suggest "SERVER".toList catalogue.commands 1).head? = some "server".toList ∧
      (Suggestion.suggest "STOP".toList ["list".toList, "stop".toList] 1).head? = some "stop".toList ∧
      (on catalogue 3 unknown).suggestions = ["server".toList] ∧
      (∀ name ∈ (on catalogue 3 unknown).suggestions, onMain catalogue 3 name = .valid) ∧
      (on catalogue 3 invalid).suggestions = ["list".toList, "stop".toList] ∧
      ∀ name ∈ (on catalogue 3 invalid).suggestions, onSub catalogue 3 invalid.main name = .valid := by
  intro catalogue unknown invalid
  have hnames : ∀ pair ∈ catalogue.entries, ∀ sub ∈ pair.2.subcommands, sub ≠ [] := by decide +kernel
  obtain ⟨hcommands, hsubcommands, hverdicts⟩ := found_iff_first_suggestion _ _ hnames
  have hsubs : catalogue.subcommands? "server".toList = some ["list".toList, "stop".toList] := by
    decide +kernel
  refine ⟨?_, ?_, by decide +kernel, (hverdicts 3 unknown).1 (by decide +kernel), by decide +kernel,
    (hverdicts 3 invalid).2 (by decide +kernel)⟩
  · exact (hcommands "SERVER".toList 1 (by decide)).1 (by decide +kernel)
  · exact (hsubcommands _ _ hsubs "STOP".toList 1 (by decide)).1 (by decide +kernel)

end Verdict
end ScriptUpgrade
