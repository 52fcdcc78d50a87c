/-
# Reading the canonical form

A command is written out in its canonical form and read again: nothing but the raw text changes
(`parse_render`). The canonical form has the options in front of the arguments and the arguments in front
of the flags, whatever order they had, so two things could go wrong. A flag could take the token behind
it for a value, but behind a flag stands another one or nothing. And a first argument could take the
place of the subcommand. It does not, because where a command has no subcommand and no options, the
token in that place had a leading dash, and so has the first argument (`isDashed_of_head?_argumentsOf`).

What a command must be for all this is `IsReadable`. Both readers give only readable commands
(`isReadable_of_ofTokens`), and a readable command is read back from its canonical form
(`IsReadable.ofTokens_canonical`).
-/

import ScriptUpgrade.Proofs.CommandItems

namespace ScriptUpgrade
namespace Command

/-! ### Items and what a command keeps of them -/

@[simp] theorem mem_argumentsOf {text : Text} {all : List Item} :
    text ∈ argumentsOf all ↔ .argument text ∈ all := by
  rw [argumentsOf, List.mem_filterMap]
  constructor
  · rintro ⟨item, hitem, hsome⟩
    cases item with
    | argument other => rwa [← Option.some.inj hsome]
    | option key value => cases hsome
    | flag name => cases hsome
  · exact fun h => ⟨_, h, rfl⟩

theorem mem_of_mem_optionsOf {pair : Text × Text} {all : List Item} (h : pair ∈ optionsOf all) :
    .option pair.1 pair.2 ∈ all := by
  obtain ⟨item, hitem, hsome⟩ := List.mem_filterMap.1 (Sorted.mem_of_mem_ofPairs h)
  cases item with
  | argument text => cases hsome
  | option key value => rwa [← Option.some.inj hsome]
  | flag name => cases hsome

theorem option_notMem_of_optionsOf_eq_nil {all : List Item} (h : optionsOf all = [])
    (key value : Text) : .option key value ∉ all := by
  intro hmem
  have hnone := List.filterMap_eq_nil_iff.1 (Sorted.ofPairs_eq_nil_iff.1 h) _ hmem
  cases hnone

theorem mem_flagsOf {name : Text} {all : List Item} : name ∈ flagsOf all ↔ .flag name ∈ all := by
  rw [flagsOf, Sorted.mem_ofList, List.mem_filterMap]
  constructor
  · rintro ⟨item, hitem, hsome⟩
    cases item with
    | argument text => cases hsome
    | option key value => cases hsome
    | flag other => rwa [← Option.some.inj hsome]
  · exact fun h => ⟨_, h, rfl⟩

theorem argumentsOf_append (left right : List Item) :
    argumentsOf (left ++ right) = argumentsOf left ++ argumentsOf right :=
  List.filterMap_append

/-- An item that tokens without double quotes are read as. -/
def Item.IsClean : Item → Prop
  | .argument text => Text.after? "--".toList text = none ∧ '"' ∉ text
  | .option key value => '=' ∉ key ∧ '"' ∉ joined key value
  | .flag name => '=' ∉ name ∧ '"' ∉ named name

/-- **Tokens are read as clean items.** -/
theorem isClean_of_mem_items {tokens : List Text} (htokens : ∀ token ∈ tokens, '"' ∉ token)
    {item : Item} (h : item ∈ items tokens) : item.IsClean := by
  fun_induction items tokens with
  | case1 => cases h
  | case2 token tokens hafter ih =>
    rw [List.forall_mem_cons] at htokens
    rcases List.mem_cons.1 h with rfl | h
    · exact ⟨hafter, htokens.1⟩
    · exact ih htokens.2 h
  | case3 token tokens name hafter key value hcut ih =>
    rw [List.forall_mem_cons] at htokens
    rcases List.mem_cons.1 h with rfl | h
    · obtain ⟨rfl, hkey⟩ := Migration.cutAt?_eq_some hcut
      obtain rfl : named (key ++ '=' :: value) = token := Text.append_of_after? hafter
      exact ⟨hkey, by rw [joined_eq]; exact htokens.1⟩
    · exact ih htokens.2 h
  | case4 token name hafter hcut =>
    obtain rfl := List.mem_singleton.1 h
    obtain rfl : named name = token := Text.append_of_after? hafter
    exact ⟨Text.cutAt?_eq_none_iff.1 hcut, htokens _ List.mem_cons_self⟩
  | case5 token name hafter hcut next rest hnext ih =>
    rw [List.forall_mem_cons] at htokens
    rcases List.mem_cons.1 h with rfl | h
    · obtain rfl : named name = token := Text.append_of_after? hafter
      exact ⟨Text.cutAt?_eq_none_iff.1 hcut, htokens.1⟩
    · exact ih htokens.2 h
  | case6 token name hafter hcut next rest hnext ih =>
    rw [List.forall_mem_cons, List.forall_mem_cons] at htokens
    rcases List.mem_cons.1 h with rfl | h
    · obtain rfl : named name = token := Text.append_of_after? hafter
      exact ⟨Text.cutAt?_eq_none_iff.1 hcut, by simp [joined, htokens.1, htokens.2.1]⟩
    · exact ih htokens.2.2 h

/-- Leading options are clean items as well, and none of them is an argument. -/
theorem isClean_leadingItem {token : Text} (h : '"' ∉ token) :
    (leadingItem token).IsClean ∧ ∀ text, leadingItem token ≠ .argument text := by
  have hname : '"' ∉ token.dropWhile (· == '-') :=
    fun hmem => h ((List.dropWhile_suffix _).subset hmem)
  unfold leadingItem
  dsimp only
  split
  · rename_i key value hcut
    obtain ⟨hsplit, hkey⟩ := Migration.cutAt?_eq_some hcut
    rw [hsplit] at hname
    refine ⟨⟨hkey, ?_⟩, fun text heq => by cases heq⟩
    simpa [joined_eq, named] using hname
  · rename_i hcut
    refine ⟨⟨Text.cutAt?_eq_none_iff.1 hcut, ?_⟩, fun text heq => by cases heq⟩
    simpa [named] using hname

/-- **Where no option is read, the first argument has a leading dash if the first token has one.** -/
theorem isDashed_of_head?_argumentsOf {tokens : List Text}
    (hfirst : ∀ token ∈ tokens.head?, isDashed token = true)
    (hnone : ∀ key value, .option key value ∉ items tokens) :
    ∀ text ∈ (argumentsOf (items tokens)).head?, isDashed text = true := by
  fun_induction items tokens with
  | case1 => exact hfirst
  | case2 token tokens hafter ih => exact hfirst
  | case3 token tokens name hafter key value hcut ih => exact absurd List.mem_cons_self (hnone key value)
  | case4 token name hafter hcut =>
    intro text htext
    cases htext
  | case5 token name hafter hcut next rest hnext ih =>
    refine ih ?_ fun key value hmem => hnone key value (List.mem_cons_of_mem _ hmem)
    intro other hother
    rwa [← Option.some.inj hother]
  | case6 token name hafter hcut next rest hnext ih => exact absurd List.mem_cons_self (hnone name next)

/-! ### Readable commands -/

/-- A command that its canonical form is read as. -/
structure IsReadable (command : Command) : Prop where
  main : '"' ∉ command.main
  sub : ∀ sub ∈ command.sub, isDashed sub = false ∧ '"' ∉ sub
  arguments : ∀ text ∈ command.arguments, (Item.argument text).IsClean
  options : ∀ pair ∈ command.options, (Item.option pair.1 pair.2).IsClean
  flags : ∀ name ∈ command.flags, (Item.flag name).IsClean
  sorted : Sorted.ofPairs command.options = command.options ∧
    Sorted.ofList command.flags = command.flags
  noSub : command.sub = none → command.options = [] →
    ∀ text ∈ command.arguments.head?, isDashed text = true

variable {keyword raw : Text} {command : Command}

theorem isReadable_ofItems {main : Text} {sub : Option Text} {all : List Item} (hmain : '"' ∉ main)
    (hsub : ∀ text ∈ sub, isDashed text = false ∧ '"' ∉ text) (hall : ∀ item ∈ all, item.IsClean)
    (hnoSub : sub = none → optionsOf all = [] →
      ∀ text ∈ (argumentsOf all).head?, isDashed text = true) :
    (ofItems raw main sub all).IsReadable where
  main := hmain
  sub := hsub
  arguments _ htext := hall _ (mem_argumentsOf.1 htext)
  options _ hpair := hall _ (mem_of_mem_optionsOf hpair)
  flags _ hname := hall _ (mem_flagsOf.1 hname)
  sorted := ⟨Sorted.ofPairs_ofPairs _, Sorted.ofList_ofList _⟩
  noSub := hnoSub

/-- **What is read from tokens is readable**, and the first of them is the main command. -/
theorem isReadable_of_ofTokens {leading : List Item} {tokens : List Text}
    (hleading : ∀ item ∈ leading, item.IsClean ∧ ∀ text, item ≠ .argument text)
    (htokens : ∀ token ∈ tokens, '"' ∉ token)
    (h : ofTokens raw keyword leading tokens = .ok command) :
    command.IsReadable ∧ tokens.head? = some command.main := by
  have hclean : ∀ rest : List Text, (∀ token ∈ rest, '"' ∉ token) →
      ∀ item ∈ leading ++ items rest, item.IsClean := by
    intro rest hrest item hitem
    rcases List.mem_append.1 hitem with hitem | hitem
    · exact (hleading item hitem).1
    · exact isClean_of_mem_items hrest hitem
  have hnoArgument : argumentsOf leading = [] :=
    List.eq_nil_iff_forall_not_mem.2 fun text htext =>
      (hleading _ (mem_argumentsOf.1 htext)).2 text rfl
  cases tokens with
  | nil => cases h
  | cons main tokens =>
    rw [List.forall_mem_cons] at htokens
    cases tokens with
    | nil =>
      obtain rfl := Except.ok.inj h
      refine ⟨isReadable_ofItems htokens.1 (fun _ hsub => by cases hsub)
        (fun item hitem => (hleading item hitem).1) fun _ _ text htext => ?_, rfl⟩
      rw [hnoArgument] at htext
      cases htext
    | cons next rest =>
      rw [ofTokens] at h
      split at h
      · rename_i hnext
        obtain rfl := Except.ok.inj h
        refine ⟨isReadable_ofItems htokens.1 (fun _ hsub => by cases hsub)
          (hclean _ htokens.2) fun _ hoptions => ?_, rfl⟩
        rw [argumentsOf_append, hnoArgument, List.nil_append]
        refine isDashed_of_head?_argumentsOf (by simpa using hnext) fun key value hmem => ?_
        exact option_notMem_of_optionsOf_eq_nil hoptions key value (List.mem_append_right _ hmem)
      · rename_i hnext
        obtain rfl := Except.ok.inj h
        rw [List.forall_mem_cons] at htokens
        refine ⟨isReadable_ofItems htokens.1 (fun sub hsub => ?_) (hclean _ htokens.2.2)
          (fun hnone => by cases hnone), rfl⟩
        rw [← Option.some.inj hsub]
        exact ⟨by simpa using hnext, htokens.2.1⟩

/-! ### The canonical form -/

/-- The items of the canonical form. -/
def canonicalItems (command : Command) : List Item :=
  command.options.map (fun pair => .option pair.1 pair.2) ++ command.arguments.map .argument ++
    command.flags.map .flag

/-- The tokens of the canonical form after the main command and the subcommand. -/
def canonicalTail (command : Command) : List Text :=
  command.options.map (fun pair => joined pair.1 pair.2) ++ command.arguments ++
    command.flags.map named

theorem canonicalTokens_eq (keyword : Text) (command : Command) :
    canonicalTokens keyword command =
      keyword :: command.main :: (command.sub.toList ++ canonicalTail command) := by
  simp only [canonicalTokens, canonicalTail, List.cons_append, List.append_assoc]
  rfl

theorem items_joined_append {pairs : List (Text × Text)} (h : ∀ pair ∈ pairs, '=' ∉ pair.1)
    (tokens : List Text) :
    items (pairs.map (fun pair => joined pair.1 pair.2) ++ tokens) =
      pairs.map (fun pair => .option pair.1 pair.2) ++ items tokens := by
  induction pairs with
  | nil => rfl
  | cons pair pairs ih =>
    rw [List.forall_mem_cons] at h
    rw [List.map_cons, List.cons_append, items_joined h.1, ih h.2, List.map_cons, List.cons_append]

theorem items_arguments_append {arguments : List Text}
    (h : ∀ text ∈ arguments, Text.after? "--".toList text = none) (tokens : List Text) :
    items (arguments ++ tokens) = arguments.map .argument ++ items tokens := by
  induction arguments with
  | nil => rfl
  | cons text arguments ih =>
    rw [List.forall_mem_cons] at h
    rw [List.cons_append, items_argument h.1, ih h.2, List.map_cons, List.cons_append]

theorem items_named {names : List Text} (h : ∀ name ∈ names, '=' ∉ name) :
    items (names.map named) = names.map .flag := by
  induction names with
  | nil => rfl
  | cons name names ih =>
    rw [List.forall_mem_cons] at h
    have hnext : ∀ next ∈ (names.map named).head?, isDashed next = true := by
      intro next hmem
      obtain ⟨other, -, rfl⟩ := List.mem_map.1 (List.mem_of_mem_head? hmem)
      exact isDashed_named other
    rw [List.map_cons, items_flag h.1 hnext, ih h.2, List.map_cons]

theorem ofItems_canonicalItems (h : command.IsReadable) :
    ofItems raw command.main command.sub (canonicalItems command) = { command with raw := raw } := by
  have harguments : argumentsOf (canonicalItems command) = command.arguments := by
    simp [argumentsOf, canonicalItems, List.filterMap_append, List.filterMap_map]
  have hoptions : optionsOf (canonicalItems command) = command.options := by
    rw [optionsOf, ← h.sorted.1]
    simp [canonicalItems, List.filterMap_append, List.filterMap_map, h.sorted.1]
  have hflags : flagsOf (canonicalItems command) = command.flags := by
    rw [flagsOf, ← h.sorted.2]
    simp [canonicalItems, List.filterMap_append, List.filterMap_map, h.sorted.2]
  rw [ofItems, harguments, hoptions, hflags]

namespace IsReadable

theorem items_canonicalTail (h : command.IsReadable) :
    items (canonicalTail command) = canonicalItems command := by
  rw [canonicalTail, List.append_assoc, items_joined_append fun pair hpair => (h.options pair hpair).1,
    items_arguments_append fun text htext => (h.arguments text htext).1,
    items_named fun name hname => (h.flags name hname).1, canonicalItems, List.append_assoc]

/-- Without a subcommand the first token behind the main command has a leading dash. -/
theorem isDashed_canonicalTail (h : command.IsReadable) (hsub : command.sub = none) :
    ∀ token ∈ (canonicalTail command).head?, isDashed token = true := by
  intro token htoken
  rw [canonicalTail, List.append_assoc, List.head?_append] at htoken
  cases hoptions : command.options with
  | cons pair pairs =>
    rw [hoptions] at htoken
    obtain rfl : joined pair.1 pair.2 = token := Option.some.inj htoken
    exact isDashed_joined pair.1 pair.2
  | nil =>
    rw [hoptions, List.map_nil, List.head?_nil, Option.none_or, List.head?_append] at htoken
    cases harguments : command.arguments with
    | cons text arguments =>
      rw [harguments] at htoken
      obtain rfl : text = token := Option.some.inj htoken
      exact h.noSub hsub hoptions text (by rw [harguments]; rfl)
    | nil =>
      rw [harguments, List.head?_nil, Option.none_or] at htoken
      obtain ⟨name, -, rfl⟩ := List.mem_map.1 (List.mem_of_mem_head? htoken)
      exact isDashed_named name

/-- **A readable command is read back from the tokens of its canonical form.** -/
theorem ofTokens_canonical (h : command.IsReadable) (raw keyword : Text) :
    ofTokens raw keyword [] (command.main :: (command.sub.toList ++ canonicalTail command)) =
      .ok { command with raw := raw } := by
  have hitems := h.items_canonicalTail
  rw [← ofItems_canonicalItems h, ← hitems]
  cases hsub : command.sub with
  | some sub =>
    rw [Option.toList_some, List.singleton_append, ofTokens,
      if_neg (by simp [(h.sub sub (by rw [hsub]; rfl)).1])]
    rfl
  | none =>
    have hdashed := h.isDashed_canonicalTail hsub
    rw [Option.toList_none, List.nil_append]
    cases htail : canonicalTail command with
    | nil => rfl
    | cons token tail =>
      rw [htail] at hdashed
      rw [ofTokens, if_pos (hdashed token rfl)]
      rfl

/-- The canonical form is read as its tokens. -/
theorem split_render (h : command.IsReadable) (hkeyword : '"' ∉ keyword) :
    Token.split (render keyword command) =
      keyword :: command.main :: (command.sub.toList ++ canonicalTail command) := by
  rw [render, canonicalTokens_eq]
  refine split_quoteTokens fun token htoken => ?_
  simp only [canonicalTail, List.mem_cons, List.mem_append, List.mem_map, Option.mem_toList] at htoken
  rcases htoken with rfl | rfl | hsub | (⟨pair, hpair, rfl⟩ | hargument) | ⟨name, hname, rfl⟩
  · exact hkeyword
  · exact h.main
  · exact (h.sub token hsub).2
  · exact (h.options pair hpair).2
  · exact (h.arguments token hargument).2
  · exact (h.flags name hname).2

end IsReadable

/-- **The canonical form of a command that was read is read as the same command**, by either reader. -/
theorem parse_render (keyword line : Text) (command : Command) :
    (parse keyword line = .ok command →
      parse keyword (render keyword command) =
        .ok { command with raw := render keyword command }) ∧
    (parseCall keyword line = .ok command →
      parseCall keyword (render keyword command) =
        .ok { command with raw := render keyword command }) := by
  have hmark : ∀ token ∈ Token.split line, '"' ∉ token := fun _ => Token.mark_notMem_of_mem_split
  constructor
  · intro h
    obtain ⟨tokens, hsplit, hread⟩ := parse_eq_ok_iff.1 h
    rw [hsplit, List.forall_mem_cons] at hmark
    obtain ⟨hreadable, -⟩ := isReadable_of_ofTokens (fun _ hitem => by cases hitem) hmark.2 hread
    exact parse_eq_ok_iff.2 ⟨_, hreadable.split_render hmark.1, hreadable.ofTokens_canonical _ _⟩
  · intro h
    obtain ⟨tokens, hsplit, hread⟩ := parseCall_eq_ok_iff.1 h
    rw [hsplit, List.forall_mem_cons] at hmark
    have hleading : ∀ item ∈ (tokens.takeWhile isDashed).map leadingItem,
        item.IsClean ∧ ∀ text, item ≠ .argument text := by
      intro item hitem
      obtain ⟨token, htoken, rfl⟩ := List.mem_map.1 hitem
      exact isClean_leadingItem (hmark.2 token ((List.takeWhile_prefix _).subset htoken))
    obtain ⟨hreadable, hmain⟩ := isReadable_of_ofTokens hleading
      (fun token htoken => hmark.2 token ((List.dropWhile_suffix _).subset htoken)) hread
    -- the main command has no leading dash, so nothing is read in front of it
    have hdash : ¬ isDashed command.main = true := by
      have := List.head?_dropWhile_not isDashed tokens
      rw [hmain] at this
      simpa using this
    refine parseCall_eq_ok_iff.2 ⟨_, hreadable.split_render hmark.1, ?_⟩
    rw [List.takeWhile_cons_of_neg hdash, List.dropWhile_cons_of_neg hdash, List.map_nil,
      hreadable.ofTokens_canonical]

/-- A call with everything in it, out of order: leading options, a key given twice, a value with blanks
and an equals sign, and an argument with a dash where a subcommand would stand. To `parse` the first
leading option is the main command, and the second one takes what follows it for its value. -/
theorem parse_render_mixed_call :
    let keyword := "usacloud".toList
    let line := "usacloud --zone=is1a ---q server -v --tag \"a = b\" web --force --tag=c".toList
    let tail : List Item := [.argument "-v".toList, .option "tag".toList "a = b".toList,
      .argument "web".toList, .flag "force".toList, .option "tag".toList "c".toList]
    let call := ofItems line "server".toList none
      (.option "zone".toList "is1a".toList :: .flag "q".toList :: tail)
    let other := ofItems line "--zone=is1a".toList none (.option "-q".toList "server".toList :: tail)
    (parseCall keyword line = .ok call ∧ parseCall keyword (render keyword call) =
      .ok { call with raw := render keyword call }) ∧
    (parse keyword line = .ok other ∧ parse keyword (render keyword other) =
      .ok { other with raw := render keyword other }) := by
  intro keyword line tail call other
  have hcall : parseCall keyword line = .ok call := by
    decide +kernel
  have hother : parse keyword line = .ok other := by
    decide +kernel
  exact ⟨⟨hcall, (parse_render keyword line call).2 hcall⟩,
    ⟨hother, (parse_render keyword line other).1 hother⟩⟩

/-- The canonical form of the call above. -/
example :
    (parseCall "usacloud".toList
        "usacloud --zone=is1a ---q server -v --tag \"a = b\" web --force --tag=c".toList).toOption.map
      (render "usacloud".toList) =
    some "\"usacloud\" \"server\" \"--tag=c\" \"--zone=is1a\" \"-v\" \"web\" \"--force\" \"--q\"".toList := by
  decide +kernel

end Command
end ScriptUpgrade
