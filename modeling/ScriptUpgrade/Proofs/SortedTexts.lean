/-
# Sorted sets and maps of texts

The order of texts is the lexicographic order of their characters (`precedes_iff_lt`), so it is strict
and total. From there two facts carry all that is said about the maps that `ofPairs` makes:

| fact | consequence |
| --- | --- |
| looking a key up after `put` (`find?_put`) | a key is bound to the last value paired with it (`find?_ofPairs`) |
| `put` keeps the keys in order (`inOrder_put`) | a map is made of itself (`ofPairs_of_inOrder`) |

A set is the list of keys of a map that binds them to nothing (`ofList_eq`), and what holds of maps
holds of sets.
-/

import Mathlib.Data.Char
import Mathlib.Data.List.Induction
import Mathlib.Data.List.Lex
import ScriptUpgrade.Text.Sorted

namespace ScriptUpgrade

namespace Text

/-- **Texts are in lexicographic order.** -/
theorem precedes_iff_lt {left right : Text} : precedes left right = true ↔ left < right := by
  induction left generalizing right with
  | nil => cases right <;> simp [precedes]
  | cons a left ih =>
    cases right with
    | nil => simp [precedes]
    | cons b right =>
      have hchar : a.toNat < b.toNat ↔ a < b := Iff.rfl
      simp [precedes, List.cons_lt_cons_iff, ih, hchar]

theorem precedes_irrefl (text : Text) : precedes text text = false := by
  rw [Bool.eq_false_iff, ne_eq, precedes_iff_lt]
  exact lt_irrefl text

theorem precedes_trans {first second third : Text} (h : precedes first second = true)
    (h' : precedes second third = true) : precedes first third = true :=
  precedes_iff_lt.2 ((precedes_iff_lt.1 h).trans (precedes_iff_lt.1 h'))

theorem precedes_asymm {left right : Text} (h : precedes left right = true) :
    precedes right left = false := by
  rw [Bool.eq_false_iff, ne_eq, precedes_iff_lt]
  exact (precedes_iff_lt.1 h).asymm

theorem precedes_of_ne {left right : Text} (hne : left ≠ right) (h : precedes left right = false) :
    precedes right left = true := by
  rw [Bool.eq_false_iff, ne_eq, precedes_iff_lt] at h
  exact precedes_iff_lt.2 (lt_of_le_of_ne (not_lt.1 h) hne.symm)

theorem ne_of_precedes {left right : Text} (h : precedes left right = true) : left ≠ right := by
  rintro rfl
  rw [precedes_irrefl] at h
  cases h

end Text

namespace Sorted

variable {α : Type}

/-- The keys stand in increasing order. -/
def InOrder (pairs : List (Text × α)) : Prop :=
  pairs.Pairwise fun left right => Text.precedes left.1 right.1 = true

/-! ### Looking up -/

theorem find?_cons (key : Text) (pair : Text × α) (pairs : List (Text × α)) :
    find? key (pair :: pairs) = if pair.1 = key then some pair.2 else find? key pairs := by
  by_cases h : pair.1 = key
  · rw [find?, List.find?_cons_of_pos (by simpa using h), if_pos h, Option.map_some]
  · rw [find?, List.find?_cons_of_neg (by simpa using h), if_neg h, find?]

/-- **What a key is bound to after another one was bound.** -/
theorem find?_put (key : Text) (value : α) (other : Text) (map : List (Text × α)) :
    find? other (put key value map) = if key = other then some value else find? other map := by
  induction map with
  | nil => rw [put, find?_cons]
  | cons pair map ih =>
    obtain ⟨k, v⟩ := pair
    rw [put]
    split
    · rename_i hsame
      subst hsame
      rw [find?_cons, find?_cons]
      split <;> rfl
    · rename_i hne
      split
      · rw [find?_cons]
      · rw [find?_cons, find?_cons, ih]
        by_cases hk : k = other
        · subst hk
          rw [if_pos rfl, if_pos rfl, if_neg hne]
        · rw [if_neg hk, if_neg hk]

theorem ofPairs_append_singleton (pairs : List (Text × α)) (pair : Text × α) :
    ofPairs (pairs ++ [pair]) = put pair.1 pair.2 (ofPairs pairs) := by
  rw [ofPairs, List.foldl_append]
  rfl

/-- **A key is bound to the last value that is paired with it.** -/
theorem find?_ofPairs (key : Text) (pairs : List (Text × α)) :
    find? key (ofPairs pairs) = find? key pairs.reverse := by
  induction pairs using List.reverseRecOn with
  | nil => rfl
  | append_singleton pairs pair ih =>
    rw [ofPairs_append_singleton, find?_put, ih, List.reverse_append, List.reverse_singleton,
      List.singleton_append, find?_cons]

/-- The pair of a key that is found is the first one of that key. -/
theorem find?_eq_some_iff {key : Text} {value : α} {pairs : List (Text × α)} :
    find? key pairs = some value ↔
      ∃ front back, pairs = front ++ (key, value) :: back ∧ ∀ pair ∈ front, pair.1 ≠ key := by
  rw [find?, Option.map_eq_some_iff]
  constructor
  · rintro ⟨⟨k, v⟩, hfind, rfl⟩
    obtain ⟨hk, front, back, hpairs, hfront⟩ := List.find?_eq_some_iff_append.1 hfind
    obtain rfl : k = key := by simpa using hk
    exact ⟨front, back, hpairs, fun pair hpair => by simpa using hfront pair hpair⟩
  · rintro ⟨front, back, rfl, hfront⟩
    refine ⟨(key, value), List.find?_eq_some_iff_append.2 ⟨by simp, front, back, rfl, ?_⟩, rfl⟩
    exact fun pair hpair => by simpa using hfront pair hpair

theorem isSome_find?_iff {key : Text} {pairs : List (Text × α)} :
    (find? key pairs).isSome = true ↔ ∃ pair ∈ pairs, pair.1 = key := by
  rw [find?, Option.isSome_map, List.find?_isSome]
  simp only [beq_iff_eq]

/-! ### Order -/

theorem mem_of_mem_put {key : Text} {value : α} {pair : Text × α} {pairs : List (Text × α)}
    (h : pair ∈ put key value pairs) : pair = (key, value) ∨ pair ∈ pairs := by
  induction pairs with
  | nil => simpa [put] using h
  | cons other pairs ih =>
    rw [put] at h
    split at h
    · rcases List.mem_cons.1 h with h | h
      · exact Or.inl h
      · exact Or.inr (List.mem_cons_of_mem _ h)
    · split at h
      · exact List.mem_cons.1 h
      · rcases List.mem_cons.1 h with h | h
        · exact Or.inr (h ▸ List.mem_cons_self)
        · exact (ih h).imp_right (List.mem_cons_of_mem _)

/-- A sorted map has no pairs but those it is made of. -/
theorem mem_of_mem_ofPairs {pairs : List (Text × α)} {pair : Text × α} (h : pair ∈ ofPairs pairs) :
    pair ∈ pairs := by
  induction pairs using List.reverseRecOn with
  | nil => cases h
  | append_singleton pairs other ih =>
    rw [ofPairs_append_singleton] at h
    rcases mem_of_mem_put h with h | h
    · exact List.mem_append_right _ (List.mem_singleton.2 h)
    · exact List.mem_append_left _ (ih h)

/-- **Binding a key keeps the keys in order.** -/
theorem inOrder_put (key : Text) (value : α) {map : List (Text × α)} (h : InOrder map) :
    InOrder (put key value map) := by
  induction map with
  | nil => exact List.pairwise_singleton _ _
  | cons pair map ih =>
    obtain ⟨k, v⟩ := pair
    obtain ⟨hfirst, hrest⟩ := List.pairwise_cons.1 h
    rw [put]
    split
    · rename_i hsame
      subst hsame
      exact List.pairwise_cons.2 ⟨hfirst, hrest⟩
    · rename_i hne
      split
      · rename_i hbefore
        refine List.pairwise_cons.2 ⟨fun other hother => ?_, h⟩
        rcases List.mem_cons.1 hother with rfl | hother
        · exact hbefore
        · exact Text.precedes_trans hbefore (hfirst other hother)
      · rename_i hbefore
        refine List.pairwise_cons.2 ⟨fun other hother => ?_, ih hrest⟩
        rcases mem_of_mem_put hother with rfl | hother
        · exact Text.precedes_of_ne hne (by simpa using hbefore)
        · exact hfirst other hother

theorem inOrder_ofPairs (pairs : List (Text × α)) : InOrder (ofPairs pairs) := by
  induction pairs using List.reverseRecOn with
  | nil => exact List.Pairwise.nil
  | append_singleton pairs pair ih =>
    rw [ofPairs_append_singleton]
    exact inOrder_put pair.1 pair.2 ih

/-- A key behind all others is bound at the end. -/
theorem put_of_precedes {key : Text} (value : α) {map : List (Text × α)}
    (h : ∀ pair ∈ map, Text.precedes pair.1 key = true) : put key value map = map ++ [(key, value)] := by
  induction map with
  | nil => rfl
  | cons pair map ih =>
    obtain ⟨k, v⟩ := pair
    have hk : Text.precedes k key = true := h (k, v) List.mem_cons_self
    rw [put, if_neg (Text.ne_of_precedes hk).symm, if_neg (by simp [Text.precedes_asymm hk]),
      ih fun pair hpair => h pair (List.mem_cons_of_mem _ hpair), List.cons_append]

/-- **A map in order is made of itself.** -/
theorem ofPairs_of_inOrder {pairs : List (Text × α)} (h : InOrder pairs) : ofPairs pairs = pairs := by
  induction pairs using List.reverseRecOn with
  | nil => rfl
  | append_singleton pairs pair ih =>
    obtain ⟨hfront, -, hlast⟩ := List.pairwise_append.1 h
    rw [ofPairs_append_singleton, ih hfront,
      put_of_precedes pair.2 fun other hother => hlast other hother pair List.mem_cons_self]

theorem ofPairs_ofPairs (pairs : List (Text × α)) : ofPairs (ofPairs pairs) = ofPairs pairs :=
  ofPairs_of_inOrder (inOrder_ofPairs pairs)

theorem ofPairs_eq_nil_iff {pairs : List (Text × α)} : ofPairs pairs = [] ↔ pairs = [] := by
  constructor
  · intro h
    rcases List.eq_nil_or_concat' pairs with rfl | ⟨front, pair, rfl⟩
    · rfl
    · have hlast := find?_put pair.1 pair.2 pair.1 (ofPairs front)
      rw [← ofPairs_append_singleton, h, if_pos rfl] at hlast
      cases hlast
  · rintro rfl
    rfl

/-! ### Sets -/

theorem add_eq (text : Text) (map : List (Text × Unit)) :
    add text (map.map Prod.fst) = (put text () map).map Prod.fst := by
  induction map with
  | nil => rfl
  | cons pair map ih =>
    obtain ⟨k, v⟩ := pair
    rw [List.map_cons, add, put]
    split
    · rename_i hsame
      rw [hsame, List.map_cons]
    · split
      · rfl
      · rw [ih, List.map_cons]

/-- **A set is the keys of a map.** -/
theorem ofList_eq (texts : List Text) :
    ofList texts = (ofPairs (texts.map fun text => (text, ()))).map Prod.fst := by
  induction texts using List.reverseRecOn with
  | nil => rfl
  | append_singleton texts text ih =>
    rw [List.map_append, List.map_singleton, ofPairs_append_singleton, ← add_eq, ← ih, ofList,
      List.foldl_append]
    rfl

theorem mem_ofList {text : Text} {texts : List Text} : text ∈ ofList texts ↔ text ∈ texts := by
  induction texts using List.reverseRecOn with
  | nil => rfl
  | append_singleton texts last ih =>
    have hsnoc : ofList (texts ++ [last]) = add last (ofList texts) := by
      rw [ofList, List.foldl_append]
      rfl
    rw [hsnoc, mem_add, ih, List.mem_append, List.mem_singleton, or_comm]

/-- A set is made of itself. -/
theorem ofList_ofList (texts : List Text) : ofList (ofList texts) = ofList texts := by
  rw [ofList_eq (ofList texts), ofList_eq texts, List.map_map]
  have hpairs : (ofPairs (texts.map fun text => (text, ()))).map
      ((fun text => (text, ())) ∘ Prod.fst) = ofPairs (texts.map fun text => (text, ())) :=
    List.map_id' _
  rw [hpairs, ofPairs_ofPairs]

end Sorted
end ScriptUpgrade
