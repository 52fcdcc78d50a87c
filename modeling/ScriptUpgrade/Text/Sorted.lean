/-
# Sorted sets and maps of texts

A set of texts is the list of its members in increasing order, a map from texts is the list of its
pairs in increasing order of keys. Both forms are unique, so equal sets and maps are equal lists.
-/

import ScriptUpgrade.Text.Basic

namespace ScriptUpgrade
namespace Sorted

/-- The set with `text` added. -/
def add (text : Text) : List Text → List Text
  | [] => [text]
  | member :: members =>
    if text = member then member :: members
    else if Text.precedes text member then text :: member :: members
    else member :: add text members

/-- The map with `key` bound to `value`, in place of what it was bound to. -/
def put {α : Type} (key : Text) (value : α) : List (Text × α) → List (Text × α)
  | [] => [(key, value)]
  | (k, v) :: pairs =>
    if key = k then (key, value) :: pairs
    else if Text.precedes key k then (key, value) :: (k, v) :: pairs
    else (k, v) :: put key value pairs

/-- What `key` is bound to. -/
def find? {α : Type} (key : Text) (pairs : List (Text × α)) : Option α :=
  (pairs.find? fun pair => pair.1 == key).map Prod.snd

/-- The map that binds every key to the last value paired with it. -/
def ofPairs {α : Type} (pairs : List (Text × α)) : List (Text × α) :=
  pairs.foldl (fun map pair => put pair.1 pair.2 map) []

/-- The set of the given texts. -/
def ofList (texts : List Text) : List Text :=
  texts.foldl (fun set text => add text set) []

theorem mem_add {text other : Text} {set : List Text} :
    other ∈ add text set ↔ other = text ∨ other ∈ set := by
  induction set with
  | nil => simp [add]
  | cons member members ih =>
    unfold add
    split
    · rename_i h
      simp [h]
    · split
      · simp
      · rw [List.mem_cons, ih, List.mem_cons]
        constructor
        · rintro (h | h | h)
          · exact Or.inr (Or.inl h)
          · exact Or.inl h
          · exact Or.inr (Or.inr h)
        · rintro (h | h | h)
          · exact Or.inr (Or.inl h)
          · exact Or.inl h
          · exact Or.inr (Or.inr h)

end Sorted
end ScriptUpgrade
