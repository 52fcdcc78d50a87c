/-
# Suggestions are a ranking cut off

The suggestions for a token are made by insertion: every plausible name goes to its place among those
that are there already, and a name that is there is not added again. What comes out depends neither on
the order of the names nor on how often each of them is given. It is the one list of the plausible names
that is in order (`IsRanking`), the nearest name first and names at one distance by their bytes. Sorting
the plausible names at once, by whatever method, and dropping repetitions gives the same
(`destutter_eq_rank`).

A ranking is determined by its names (`IsRanking.unique`). The rest is read off it: fewer suggestions are
the first of more, and no name at all is nearer to the token than the first one (`suggest_eq_take`).

The order of texts is told here by the bytes of their encodings. That is the order by characters, since
UTF-8 keeps it (`precedes_iff_encode_lt`).
-/

import Mathlib.Data.List.Destutter
import Mathlib.Data.List.Sort
import ScriptUpgrade.Proofs.EditDistance
import ScriptUpgrade.Proofs.SortedTexts
import ScriptUpgrade.Text.Utf8

namespace ScriptUpgrade

namespace Utf8

theorem ofNat_lt_ofNat_iff {m n : Nat} (hm : m < 256) (hn : n < 256) :
    UInt8.ofNat m < UInt8.ofNat n ↔ m < n := by
  rw [UInt8.lt_iff_toNat_lt, UInt8.toNat_ofNat_of_lt' hm, UInt8.toNat_ofNat_of_lt' hn]

theorem ofNat_eq_ofNat_iff {m n : Nat} (hm : m < 256) (hn : n < 256) :
    UInt8.ofNat m = UInt8.ofNat n ↔ m = n := by
  rw [← UInt8.toNat_inj, UInt8.toNat_ofNat_of_lt' hm, UInt8.toNat_ofNat_of_lt' hn]

theorem toNat_lt (c : Char) : c.val.toNat < 0x110000 := by
  have := c.valid
  unfold UInt32.isValidChar Nat.isValidChar at this
  omega

/-- **The bytes of characters are in the order of the characters**, whatever follows them. -/
theorem encodeChar_append_lt {a b : Char} (h : a < b) (left right : List UInt8) :
    String.utf8EncodeChar a ++ left < String.utf8EncodeChar b ++ right := by
  have hlt : a.val.toNat < b.val.toNat := h
  have ha := toNat_lt a
  have hb := toNat_lt b
  unfold String.utf8EncodeChar
  generalize a.val.toNat = v at hlt ha
  generalize b.val.toNat = w at hlt hb
  -- the bytes after the first are digits to the base 64, so numbers are compared digit by digit
  have hlow : v / 64 < w / 64 ∨ v / 64 = w / 64 ∧ v % 64 < w % 64 := by
    omega
  have hmiddle : v / 64 < w / 64 →
      v / 4096 < w / 4096 ∨ v / 4096 = w / 4096 ∧ v / 64 % 64 < w / 64 % 64 := by
    omega
  have hhigh : v / 4096 < w / 4096 →
      v / 262144 < w / 262144 ∨ v / 262144 = w / 262144 ∧ v / 4096 % 64 < w / 4096 % 64 := by
    omega
  have hv : v / 262144 % 8 = v / 262144 := by omega
  have hw : w / 262144 % 8 = w / 262144 := by omega
  dsimp only
  rw [hv, hw]
  split_ifs <;>
    simp (disch := omega) only [List.cons_append, List.nil_append, List.cons_lt_cons_iff,
      ofNat_lt_ofNat_iff, ofNat_eq_ofNat_iff] <;>
    omega

theorem encode_lt_of_lt {left right : Text} (h : left < right) : encode left < encode right := by
  induction left generalizing right with
  | nil =>
    cases right with
    | nil => cases h
    | cons b right =>
      obtain ⟨byte, bytes, hbytes⟩ : ∃ byte bytes, encode (b :: right) = byte :: bytes :=
        List.exists_cons_of_ne_nil (by simp [encode, String.utf8EncodeChar_ne_nil])
      rw [hbytes]
      exact List.nil_lt_cons byte bytes
  | cons a left ih =>
    cases right with
    | nil => cases h
    | cons b right =>
      rcases List.cons_lt_cons_iff.1 h with hlt | ⟨rfl, hlt⟩
      · exact encodeChar_append_lt hlt _ _
      · exact List.append_left_lt (ih hlt)

/-- **Texts are in the order of their bytes.** -/
theorem precedes_iff_encode_lt {left right : Text} :
    Text.precedes left right = true ↔ encode left < encode right := by
  rw [Text.precedes_iff_lt]
  refine ⟨encode_lt_of_lt, fun h => ?_⟩
  rcases lt_trichotomy left right with hlt | rfl | hgt
  · exact hlt
  · exact absurd h (List.lt_irrefl _)
  · exact absurd h (List.lt_asymm (encode_lt_of_lt hgt))

end Utf8

namespace Suggestion

/-! ### The order of suggestions -/

/-- A name is to be suggested before another one: it is nearer to the token, or as near and its bytes come
first. -/
def Nearer (token left right : Text) : Prop :=
  distance token left < distance token right ∨
    distance token left = distance token right ∧ Utf8.encode left < Utf8.encode right

/-- The plausible ones of some names in the order in which they are to be suggested. -/
structure IsRanking (token : Text) (names ranking : List Text) : Prop where
  mem_iff : ∀ name, name ∈ ranking ↔ name ∈ names ∧ distance token name ≤ token.length / 2 + 1
  ordered : ranking.Pairwise (Nearer token)

variable {token : Text} {names ranking : List Text}

theorem ranksBefore_iff {left right : Nat × Text} :
    ranksBefore left right = true ↔
      left.1 < right.1 ∨ left.1 = right.1 ∧ Text.precedes left.2 right.2 = true := by
  simp [ranksBefore]

theorem ranksBefore_trans {first second third : Nat × Text} (h : ranksBefore first second = true)
    (h' : ranksBefore second third = true) : ranksBefore first third = true := by
  rw [ranksBefore_iff] at h h' ⊢
  rcases h with h | ⟨h, hname⟩
  · exact Or.inl (by omega)
  · rcases h' with h' | ⟨h', hname'⟩
    · exact Or.inl (by omega)
    · exact Or.inr ⟨h.trans h', Text.precedes_trans hname hname'⟩

theorem ranksBefore_asymm {left right : Nat × Text} (h : ranksBefore left right = true) :
    ranksBefore right left = false := by
  rw [ranksBefore_iff] at h
  rw [Bool.eq_false_iff, ne_eq, ranksBefore_iff]
  rintro (h' | ⟨h', hname'⟩)
  · omega
  · rcases h with h | ⟨-, hname⟩
    · omega
    · rw [Text.precedes_asymm hname] at hname'
      cases hname'

/-- Of two different names at their distances one ranks before the other. -/
theorem ranksBefore_of_ne {left right : Nat × Text} (hne : left ≠ right)
    (h : ranksBefore left right = false) : ranksBefore right left = true := by
  rw [Bool.eq_false_iff, ne_eq, ranksBefore_iff, not_or, not_and] at h
  rw [ranksBefore_iff]
  by_cases hsame : left.1 = right.1
  · refine Or.inr ⟨hsame.symm, Text.precedes_of_ne (fun hname => hne (Prod.ext hsame hname)) ?_⟩
    exact Bool.eq_false_iff.2 (h.2 hsame)
  · exact Or.inl (by omega)

theorem nearer_iff {left right : Text} :
    Nearer token left right ↔
      ranksBefore (distance token left, left) (distance token right, right) = true := by
  rw [ranksBefore_iff, Utf8.precedes_iff_encode_lt]
  rfl

theorem nearer_asymm {left right : Text} (h : Nearer token left right) : ¬ Nearer token right left := by
  rw [nearer_iff] at h ⊢
  rw [ranksBefore_asymm h]
  exact Bool.false_ne_true

/-- **There is one ranking of some names**, in whatever order and however often they are given. -/
theorem IsRanking.unique {names' ranking' : List Text} (h : IsRanking token names ranking)
    (h' : IsRanking token names' ranking') (hnames : ∀ name, name ∈ names ↔ name ∈ names') :
    ranking = ranking' := by
  have : Std.Antisymm (Nearer token) := ⟨fun _ _ h h' => absurd h' (nearer_asymm h)⟩
  have : Std.Irrefl (Nearer token) := ⟨fun _ h => nearer_asymm h h⟩
  refine List.Pairwise.eq_of_mem_iff h.ordered h'.ordered fun name => ?_
  rw [h.mem_iff, h'.mem_iff, hnames]

/-- **No name is nearer than the first of a ranking.** -/
theorem IsRanking.distance_le {first : Text} {rest : List Text}
    (h : IsRanking token names (first :: rest)) {name : Text} (hname : name ∈ names) :
    distance token first ≤ distance token name := by
  have hfirst := ((h.mem_iff first).1 List.mem_cons_self).2
  by_cases hplausible : distance token name ≤ token.length / 2 + 1
  · rcases List.mem_cons.1 ((h.mem_iff name).2 ⟨hname, hplausible⟩) with rfl | hrest
    · exact Nat.le_refl _
    · rcases (List.pairwise_cons.1 h.ordered).1 name hrest with hless | ⟨hsame, -⟩
      · exact Nat.le_of_lt hless
      · exact Nat.le_of_eq hsame
  · omega

/-! ### Making a ranking -/

theorem mem_insert {ranked other : Nat × Text} {pairs : List (Nat × Text)} :
    other ∈ insert ranked pairs ↔ other = ranked ∨ other ∈ pairs := by
  induction pairs with
  | nil => simp [insert]
  | cons pair pairs ih =>
    unfold insert
    split
    · rename_i hsame
      simp [hsame]
    · split
      · rw [List.mem_cons]
      · rw [List.mem_cons, ih, List.mem_cons]
        exact or_left_comm

/-- **A name that is inserted goes to its place.** -/
theorem pairwise_insert (ranked : Nat × Text) {pairs : List (Nat × Text)}
    (h : pairs.Pairwise fun left right => ranksBefore left right = true) :
    (insert ranked pairs).Pairwise fun left right => ranksBefore left right = true := by
  induction pairs with
  | nil => exact List.pairwise_singleton _ _
  | cons pair pairs ih =>
    obtain ⟨hfirst, hrest⟩ := List.pairwise_cons.1 h
    unfold insert
    split
    · exact h
    · rename_i hne
      split
      · rename_i hbefore
        refine List.pairwise_cons.2 ⟨fun other hother => ?_, h⟩
        rcases List.mem_cons.1 hother with rfl | hother
        · exact hbefore
        · exact ranksBefore_trans hbefore (hfirst other hother)
      · rename_i hbefore
        refine List.pairwise_cons.2 ⟨fun other hother => ?_, ih hrest⟩
        rcases mem_insert.1 hother with rfl | hother
        · exact ranksBefore_of_ne hne (by simpa using hbefore)
        · exact hfirst other hother

theorem mem_foldr_insert {pair : Nat × Text} {pairs : List (Nat × Text)} :
    pair ∈ pairs.foldr insert [] ↔ pair ∈ pairs := by
  induction pairs with
  | nil => rfl
  | cons other pairs ih => rw [List.foldr_cons, mem_insert, ih, List.mem_cons]

theorem pairwise_foldr_insert (pairs : List (Nat × Text)) :
    (pairs.foldr insert []).Pairwise fun left right => ranksBefore left right = true := by
  induction pairs with
  | nil => exact List.Pairwise.nil
  | cons pair pairs ih => exact pairwise_insert pair ih

theorem mem_rank {ranked : Nat × Text} :
    ranked ∈ rank token names ↔
      ranked.2 ∈ names ∧ ranked.1 = distance token ranked.2 ∧ ranked.1 ≤ token.length / 2 + 1 := by
  rw [rank, mem_foldr_insert, List.mem_filter, List.mem_map, decide_eq_true_iff, ← and_assoc, threshold]
  refine and_congr_left fun _ => ⟨?_, fun ⟨hname, hdistance⟩ => ⟨ranked.2, hname, ?_⟩⟩
  · rintro ⟨name, hname, rfl⟩
    exact ⟨hname, rfl⟩
  · rw [← hdistance]

/-! ### Sorting the names -/

/-- Dropping every name that stands right behind itself loses none. -/
theorem mem_destutter' {first pair : Nat × Text} {pairs : List (Nat × Text)}
    (hdistance : ∀ ranked ∈ first :: pairs, ranked.1 = distance token ranked.2) :
    pair ∈ pairs.destutter' (fun left right => left.2 ≠ right.2) first ↔ pair ∈ first :: pairs := by
  induction pairs generalizing first with
  | nil => rfl
  | cons second pairs ih =>
    rw [List.forall_mem_cons, List.forall_mem_cons] at hdistance
    obtain ⟨hfirst, hsecond, hrest⟩ := hdistance
    rw [List.destutter'_cons]
    split
    · rw [List.mem_cons, ih (List.forall_mem_cons.2 ⟨hsecond, hrest⟩), ← List.mem_cons]
    · rename_i hsame
      rw [ne_eq, not_not] at hsame
      obtain rfl : first = second := Prod.ext (by rw [hfirst, hsecond, hsame]) hsame
      rw [ih (List.forall_mem_cons.2 ⟨hfirst, hrest⟩), List.mem_cons (l := first :: pairs), List.mem_cons,
        or_self_left]

theorem mem_destutter {pair : Nat × Text} {pairs : List (Nat × Text)}
    (hdistance : ∀ ranked ∈ pairs, ranked.1 = distance token ranked.2) :
    pair ∈ pairs.destutter (fun left right => left.2 ≠ right.2) ↔ pair ∈ pairs := by
  cases pairs with
  | nil => rfl
  | cons first pairs => exact mem_destutter' hdistance

/-- In a sorted list without names that stand right behind themselves every name ranks before the next. -/
theorem pairwise_destutter {pairs : List (Nat × Text)}
    (hsorted : pairs.Pairwise fun left right => ranksBefore right left = false) :
    (pairs.destutter fun left right => left.2 ≠ right.2).Pairwise
      fun left right => ranksBefore left right = true := by
  have : IsTrans (Nat × Text) fun left right => ranksBefore left right = true :=
    ⟨fun _ _ _ => ranksBefore_trans⟩
  have hdistinct := pairs.isChain_destutter fun left right => left.2 ≠ right.2
  have hbehind := (hsorted.sublist (pairs.destutter_sublist fun left right => left.2 ≠ right.2)).isChain
  rw [← List.isChain_iff_pairwise, List.isChain_iff_getElem]
  intro n hn
  exact ranksBefore_of_ne (fun h => hdistinct.getElem n hn (congrArg Prod.snd h).symm)
    (hbehind.getElem n hn)

/-- **The ranking is what sorting gives.** However the plausible names are brought into order, dropping
every name that stands right behind itself leaves the ranking. -/
theorem destutter_eq_rank {pairs : List (Nat × Text)}
    (hperm : pairs.Perm ((names.map fun name => (distance token name, name)).filter fun ranked =>
      ranked.1 ≤ threshold token))
    (hsorted : pairs.Pairwise fun left right => ranksBefore right left = false) :
    pairs.destutter (fun left right => left.2 ≠ right.2) = rank token names := by
  have hmem : ∀ pair, pair ∈ pairs ↔ pair ∈ rank token names := fun pair => by
    rw [rank, mem_foldr_insert, hperm.mem_iff]
  have : Std.Antisymm fun left right : Nat × Text => ranksBefore left right = true :=
    ⟨fun _ _ h h' => by simp [ranksBefore_asymm h] at h'⟩
  have : Std.Irrefl fun left right : Nat × Text => ranksBefore left right = true :=
    ⟨fun _ h => by simp [ranksBefore_asymm h] at h⟩
  refine List.Pairwise.eq_of_mem_iff (pairwise_destutter hsorted) (pairwise_foldr_insert _) fun pair => ?_
  rw [mem_destutter fun ranked hranked => (mem_rank.1 ((hmem ranked).1 hranked)).2.1, hmem]

/-! ### The suggestions -/

/-- **The names that are ranked are a ranking.** -/
theorem isRanking_rank (token : Text) (names : List Text) :
    IsRanking token names ((rank token names).map Prod.snd) where
  mem_iff name := by
    rw [List.mem_map]
    constructor
    · rintro ⟨ranked, hranked, rfl⟩
      obtain ⟨hname, hdistance, hplausible⟩ := mem_rank.1 hranked
      exact ⟨hname, hdistance ▸ hplausible⟩
    · rintro ⟨hname, hplausible⟩
      exact ⟨(distance token name, name), mem_rank.2 ⟨hname, rfl, hplausible⟩, rfl⟩
  ordered := by
    rw [List.pairwise_map]
    refine (pairwise_foldr_insert _).imp_of_mem fun {left right} hleft hright hbefore => ?_
    obtain ⟨-, hleft, -⟩ := mem_rank.1 hleft
    obtain ⟨-, hright, -⟩ := mem_rank.1 hright
    rw [nearer_iff, ← hleft, ← hright]
    exact hbefore

theorem suggest_eq (token : Text) (names : List Text) (max : Nat) :
    suggest token names max = ((rank token names).map Prod.snd).take max := by
  rw [suggest, List.map_take]

/-- **Suggestions are the first names of the ranking**, by the least number of edits in lower case. So they
depend on the set of the names alone, more of them begin with fewer of them, and the first of them is as
near to the token as any name. -/
theorem suggest_eq_take (token : Text) (names : List Text) :
    (∀ name, IsLeast {n | Edits n (Text.lower token) (Text.lower name)} (distance token name)) ∧
      (∃ ranking, IsRanking token names ranking ∧ ∀ max, suggest token names max = ranking.take max) ∧
      (∀ names' max, (∀ name, name ∈ names' ↔ name ∈ names) →
        suggest token names' max = suggest token names max) ∧
      (∀ max more, max ≤ more → suggest token names max <+: suggest token names more) ∧
      ∀ max first, (suggest token names max).head? = some first →
        ∀ name ∈ names, distance token first ≤ distance token name := by
  have hranking := isRanking_rank token names
  refine ⟨fun name => isLeast_editDistance _ _, ⟨_, hranking, suggest_eq token names⟩, ?_, ?_, ?_⟩
  · intro names' max hnames
    rw [suggest_eq, suggest_eq, (isRanking_rank token names').unique hranking hnames]
  · intro max more hle
    rw [suggest_eq, suggest_eq]
    exact List.take_prefix_take_left hle
  · intro max first hfirst name hname
    rw [suggest_eq] at hfirst
    cases hlist : (rank token names).map Prod.snd with
    | nil =>
      rw [hlist, List.take_nil] at hfirst
      cases hfirst
    | cons best rest =>
      have hbest : best = first := by
        cases max with
        | zero => cases hfirst
        | succ max =>
          rw [hlist, List.take_succ_cons, List.head?_cons] at hfirst
          exact Option.some.inj hfirst
      rw [hlist, hbest] at hranking
      exact hranking.distance_le hname

/-- Names that differ only in case, one of them given twice: two names are at one distance, and the one with
the capital comes first. -/
theorem suggest_eq_take_other_case :
    let token := "ZON".toList
    let names := ["none".toList, "zone".toList, "Zone".toList, "zone".toList, "server".toList]
    let names' := ["Zone".toList, "server".toList, "zone".toList, "none".toList]
    suggest token names' 2 = suggest token names 2 ∧
      suggest token names 2 <+: suggest token names 3 ∧
      suggest token names 3 = ["Zone".toList, "zone".toList, "none".toList] ∧
      ∀ name ∈ names, distance token "Zone".toList ≤ distance token name := by
  intro token names names'
  have hsame : ∀ name, name ∈ names' ↔ name ∈ names := by
    intro name
    simp only [names, names', List.mem_cons, List.not_mem_nil, or_false]
    tauto
  have hfirst : (suggest token names 3).head? = some "Zone".toList := by decide +kernel
  obtain ⟨-, -, hset, hmore, hnearest⟩ := suggest_eq_take token names
  exact ⟨hset names' 2 hsame, hmore 2 3 (by decide), by decide +kernel, hnearest 3 _ hfirst⟩

end Suggestion
end ScriptUpgrade
