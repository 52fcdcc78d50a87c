/-
# The resources of a line are the main commands of its calls

What a line acts on is read off its calls by one loop over their tokens, and the check of a call reads its
main command by another. Both read the same: the resources of a line are the main commands of those of its
calls that can be parsed, each where it occurs first (`resources_eq_main_commands`).

Both also see the same calls. A call is found by the syntax of the line, with ASCII blanks and quotes of
either kind, and is cut into tokens at blanks of any kind and with double quotes only. If the keyword is a
word (`Token.IsWord`) this makes no difference to where it ends, since a blank or nothing follows it. So the
first token of a call is the keyword, and a call can only be refused for want of a main command.
-/

import ScriptUpgrade.Proofs.ImpactParts
import ScriptUpgrade.Proofs.MainCommand
import ScriptUpgrade.Proofs.MigratedOptions

namespace ScriptUpgrade

namespace Command

/-! ### Reading a call -/

/-- The main command of a call that can be parsed. -/
def mainOfCall? (keyword call : Text) : Option Text :=
  (parseCall keyword call).toOption.map Command.main

variable {keyword body : Text}

/-- **A call is parsed or has no main command.** -/
theorem eq_noCommand_of_parseCall (hkeyword : Token.IsWord keyword)
    (hbody : ∀ c ∈ body.head?, Text.isBlank c = true) {refusal : Refusal}
    (h : parseCall keyword (keyword ++ body) = .error refusal) : refusal = .noCommand keyword := by
  rw [parseCall, Token.split_word hkeyword hbody] at h
  simp only [if_true] at h
  unfold ofTokens at h
  split at h
  · cases h
    rfl
  · cases h
  · split at h <;> cases h

/-- **The resource of a call is its main command.** -/
theorem resource?_eq_mainOfCall? (hkeyword : Token.IsWord keyword)
    (hbody : ∀ c ∈ body.head?, Text.isBlank c = true) :
    Impact.resource? (keyword ++ body) = mainOfCall? keyword (keyword ++ body) := by
  have hresource : Impact.resource? (keyword ++ body) = mainOf (Token.split body) := by
    rw [Impact.resource?, Token.split_word hkeyword hbody]
    rfl
  rw [hresource]
  refine Option.ext fun main => ?_
  rw [← exists_parseCall_iff hkeyword hbody, mainOfCall?]
  cases parseCall keyword (keyword ++ body) with
  | error refusal => simp [Except.toOption]
  | ok command => simp [Except.toOption]

end Command

namespace Impact

open Command Call

/-- The calls of a line start with the keyword as their first token. -/
theorem exists_of_mem_all {keyword line : Text} (hkeyword : ∀ c ∈ keyword, c ≠ '"' ∧ Text.isBlank c = false)
    {call : Stretch} (h : call ∈ Call.all keyword line) :
    Token.IsWord keyword ∧
      ∃ body, call.text = keyword ++ body ∧ ∀ c ∈ body.head?, Text.isBlank c = true := by
  obtain ⟨body, hbody, htext⟩ := Migration.exists_body_of_mem_all h
  have hne : keyword ≠ [] := by
    rintro rfl
    simp [dissect] at hbody
  exact ⟨⟨hne, hkeyword⟩, body, htext,
    fun c hc => Text.isBlank_of_isAsciiBlank ((isBody_of_mem_dissect hbody).head c hc)⟩

/-- **The resources of a line are the main commands of its calls**, and a call without one is refused for
that and for nothing else. -/
theorem resources_eq_main_commands {keyword : Text}
    (hkeyword : ∀ c ∈ keyword, c ≠ '"' ∧ Text.isBlank c = false) (line : Text) :
    IsDistinct ((Call.all keyword line).filterMap fun call => mainOfCall? keyword call.text)
        (analyze keyword line).resources ∧
      ∀ call ∈ Call.all keyword line, ∀ refusal,
        parseCall keyword call.text = .error refusal → refusal = .noCommand keyword := by
  constructor
  · have hcalls : ((Call.all keyword line).filterMap fun call => resource? call.text) =
        (Call.all keyword line).filterMap fun call => mainOfCall? keyword call.text := by
      refine List.filterMap_congr fun call hcall => ?_
      obtain ⟨hword, body, htext, hbody⟩ := exists_of_mem_all hkeyword hcall
      rw [htext, resource?_eq_mainOfCall? hword hbody]
    rw [← hcalls]
    exact isDistinct_distinct _
  · intro call hcall refusal hrefused
    obtain ⟨hword, body, htext, hbody⟩ := exists_of_mem_all hkeyword hcall
    rw [htext] at hrefused
    exact eq_noCommand_of_parseCall hword hbody hrefused

/-- A call without a main command, two calls of one resource, and a call in a comment. -/
theorem resources_eq_main_commands_mixed_calls :
    let keyword := "usacloud".toList
    let line := "usacloud -q; usacloud server list |usacloud disk\u00a0x&&(usacloud server) # usacloud a".toList
    (∀ c ∈ keyword, c ≠ '"' ∧ Text.isBlank c = false) ∧
      IsDistinct ["server".toList, "disk".toList, "server".toList] (analyze keyword line).resources ∧
      (analyze keyword line).resources = ["server".toList, "disk".toList] ∧
      parseCall keyword "usacloud -q".toList = .error (.noCommand keyword) := by
  intro keyword line
  have hkeyword : ∀ c ∈ keyword, c ≠ '"' ∧ Text.isBlank c = false := by decide
  obtain ⟨hdistinct, hrefused⟩ := resources_eq_main_commands hkeyword line
  have hmains : ((Call.all keyword line).filterMap fun call => mainOfCall? keyword call.text) =
      ["server".toList, "disk".toList, "server".toList] := by
    decide +kernel
  rw [hmains] at hdistinct
  refine ⟨hkeyword, hdistinct, by decide +kernel, ?_⟩
  have hcall : Stretch.starting 0 "usacloud -q".toList ∈ Call.all keyword line := by decide +kernel
  cases hparse : parseCall keyword "usacloud -q".toList with
  | error refusal => rw [hrefused _ hcall refusal hparse]
  | ok command =>
    have : (parseCall keyword "usacloud -q".toList).isOk = false := by decide +kernel
    rw [hparse] at this
    cases this

end Impact
end ScriptUpgrade
