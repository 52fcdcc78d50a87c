/-
# Where a path leads

Following a path is a recursion over its steps that starts again at every symbolic link. `Leads` says
the same as a relation, with one rule for each kind of step, and `walk_eq_ok_iff` that the two agree.
What is true of every path is then an induction over the rules:

| property | what it says |
| --- | --- |
| `Leads.mono` | a path leads to the same place in a tree that has all the entries and more |
| `Leads.following` | the last step need not be followed if it is no link |
| `Leads.undot` | steps `.` may be left out of a path to a file |

So paths that are compared equal lead to the same file (`resolve_congr`).
-/

import Mathlib.Data.List.Basic
import ScriptUpgrade.Files.Tree

namespace ScriptUpgrade
namespace Files
namespace Tree

/-! ### The rules -/

/-- There is a directory at a location. -/
def IsDirectory (tree : Tree) (location : Location) : Prop :=
  (tree.entry? location).map Entry.node = some .directory

/-- A step that goes down to a name. -/
structure IsName (step : Text) : Prop where
  ne_dot : step ≠ ['.']
  ne_up : step ≠ ['.', '.']
  size_le : Text.size step ≤ maxNameSize

/-- Steps lead from a location to another one, with at most `links` symbolic links on the way. A link at
the end is followed only if `follow` says so. -/
inductive Leads (tree : Tree) (follow : Bool) : (links : Nat) → Location → List Text → Location → Prop
  | done {links : Nat} {location : Location} : Leads tree follow links location [] location
  | stay {links : Nat} {location result : Location} {rest : List Text}
      (hdirectory : tree.IsDirectory location) (hrest : Leads tree follow links location rest result) :
      Leads tree follow links location (['.'] :: rest) result
  | up {links : Nat} {location result : Location} {rest : List Text}
      (hdirectory : tree.IsDirectory location)
      (hrest : Leads tree follow links location.dropLast rest result) :
      Leads tree follow links location (['.', '.'] :: rest) result
  | down {links : Nat} {location result : Location} {step : Text} {rest : List Text} {entry : Entry}
      (hdirectory : tree.IsDirectory location) (hname : IsName step)
      (hentry : tree.get? (location ++ [step]) = some entry)
      (hnode : ∀ target, entry.node ≠ .link target)
      (hrest : Leads tree follow links (location ++ [step]) rest result) :
      Leads tree follow links location (step :: rest) result
  | jump {links : Nat} {location result : Location} {step target : Text} {rest : List Text}
      {entry : Entry} (hdirectory : tree.IsDirectory location) (hname : IsName step)
      (hentry : tree.get? (location ++ [step]) = some entry) (hnode : entry.node = .link target)
      (hfollow : rest ≠ [] ∨ follow = true)
      (hrest : Leads tree follow links (origin location target) (Path.steps target ++ rest) result) :
      Leads tree follow (links + 1) location (step :: rest) result
  | link {links : Nat} {location : Location} {step target : Text} {entry : Entry}
      (hdirectory : tree.IsDirectory location) (hname : IsName step)
      (hentry : tree.get? (location ++ [step]) = some entry) (hnode : entry.node = .link target)
      (hfollow : follow = false) : Leads tree follow links location [step] (location ++ [step])

variable {tree tree' : Tree} {follow : Bool} {links : Nat} {location result : Location}
  {steps : List Text}

/-- What is found by one pass over the steps obeys the rules, if what is found behind a link does. -/
theorem leads_of_walkUpTo {jump : Location → List Text → Except Trouble Location}
    (hjump : ∀ location steps result, jump location steps = .ok result →
      ∃ fewer, links = fewer + 1 ∧ Leads tree follow fewer location steps result)
    (h : tree.walkUpTo follow false jump location steps = .ok result) :
    Leads tree follow links location steps result := by
  induction steps generalizing location with
  | nil =>
    cases h
    exact .done
  | cons step rest ih =>
    unfold walkUpTo at h
    split at h
    · rename_i hdirectory
      split at h
      · rename_i hdot
        subst hdot
        exact .stay hdirectory (ih h)
      · rename_i hdot
        split at h
        · rename_i hup
          subst hup
          exact .up hdirectory (ih h)
        · rename_i hup
          split at h
          · cases h
          · rename_i hsize
            have hname : IsName step := ⟨hdot, hup, Nat.le_of_not_lt hsize⟩
            split at h
            · simp at h
            · rename_i id modified target hentry
              split at h
              · rename_i hlast
                cases h
                rw [Bool.and_eq_true, List.isEmpty_iff, Bool.not_eq_true'] at hlast
                obtain ⟨rfl, hfollow⟩ := hlast
                exact .link hdirectory hname hentry rfl hfollow
              · rename_i hlast
                obtain ⟨fewer, rfl, hrest⟩ := hjump _ _ _ h
                have hfollow : rest ≠ [] ∨ follow = true := by
                  by_contra hnot
                  rw [not_or, not_not, Bool.not_eq_true] at hnot
                  exact hlast (by simp [hnot.1, hnot.2])
                exact .jump hdirectory hname hentry rfl hfollow hrest
            · rename_i entry hlink hentry
              refine .down hdirectory hname hentry (fun target hnode => ?_) (ih h)
              cases entry with
              | mk id modified node =>
                subst hnode
                exact hlink id modified target rfl
    · cases h

theorem leads_of_walk (h : tree.walk follow false links location steps = .ok result) :
    Leads tree follow links location steps result := by
  induction links generalizing location steps result with
  | zero =>
    refine leads_of_walkUpTo (fun location steps result hjump => ?_) h
    cases hjump
  | succ links ih =>
    exact leads_of_walkUpTo (fun location steps result hjump => ⟨links, rfl, ih hjump⟩) h

/-- What following a path does with a step in a directory. -/
theorem walk_cons (hdirectory : tree.IsDirectory location) (step : Text) (rest : List Text) :
    tree.walk follow false links location (step :: rest) =
      if step = ['.'] then tree.walk follow false links location rest
      else if step = ['.', '.'] then tree.walk follow false links location.dropLast rest
      else if maxNameSize < Text.size step then .error .nameTooLong
      else
        match tree.get? (location ++ [step]) with
        | none => .error .notFound
        | some ⟨_, _, .link target⟩ =>
          if rest.isEmpty && !follow then .ok (location ++ [step])
          else
            match links with
            | 0 => .error .tooManyLinks
            | fewer + 1 =>
              tree.walk follow false fewer (origin location target) (Path.steps target ++ rest)
        | some _ => tree.walk follow false links (location ++ [step]) rest := by
  have hnode : (tree.entry? location).map Entry.node = some .directory := hdirectory
  cases links <;> rw [walk, walkUpTo, hnode] <;> rfl

theorem walk_of_leads (h : Leads tree follow links location steps result) :
    tree.walk follow false links location steps = .ok result := by
  induction h with
  | @done links _ => cases links <;> rfl
  | stay hdirectory _ ih => rw [walk_cons hdirectory, if_pos rfl, ih]
  | up hdirectory _ ih => rw [walk_cons hdirectory, if_neg (by decide), if_pos rfl, ih]
  | @down _ _ _ _ _ entry hdirectory hname hentry hnode _ ih =>
    rw [walk_cons hdirectory, if_neg hname.ne_dot, if_neg hname.ne_up,
      if_neg (Nat.not_lt_of_le hname.size_le), hentry]
    cases entry with
    | mk id modified node =>
      cases node with
      | link target => exact absurd rfl (hnode target)
      | file bytes mode => exact ih
      | directory => exact ih
  | @jump _ _ _ _ _ rest entry hdirectory hname hentry hnode hfollow _ ih =>
    rw [walk_cons hdirectory, if_neg hname.ne_dot, if_neg hname.ne_up,
      if_neg (Nat.not_lt_of_le hname.size_le), hentry]
    cases entry with
    | mk id modified node =>
      subst hnode
      have hgo : (rest.isEmpty && !follow) = false := by
        rcases hfollow with hrest | hfollow
        · simp [hrest]
        · simp [hfollow]
      simp only [hgo, Bool.false_eq_true, if_false]
      exact ih
  | @link _ _ _ _ entry hdirectory hname hentry hnode hfollow =>
    rw [walk_cons hdirectory, if_neg hname.ne_dot, if_neg hname.ne_up,
      if_neg (Nat.not_lt_of_le hname.size_le), hentry]
    cases entry with
    | mk id modified node =>
      subst hnode
      simp [hfollow]

/-- **Following steps finds a location exactly if they lead there.** -/
theorem walk_eq_ok_iff :
    tree.walk follow false links location steps = .ok result ↔
      Leads tree follow links location steps result :=
  ⟨leads_of_walk, walk_of_leads⟩

/-! ### Larger trees -/

/-- What following a path looks at in a node: not what is in a file. -/
def outline : Node → Node
  | .file _ _ => .file [] 0
  | .directory => .directory
  | .link target => .link target

theorem outline_eq_directory_iff {node : Node} : outline node = .directory ↔ node = .directory := by
  cases node <;> simp [outline]

theorem outline_eq_link_iff {node : Node} {target : Text} :
    outline node = .link target ↔ node = .link target := by
  cases node <;> simp [outline]

theorem eq_link_iff_of_outline {node node' : Node} (h : outline node' = outline node) {target : Text} :
    node' = .link target ↔ node = .link target := by
  rw [← outline_eq_link_iff, h, outline_eq_link_iff]

/-- The entries of a tree are in another one too, each with the outline it has. -/
structure Within (tree tree' : Tree) : Prop where
  here : tree'.here = tree.here
  entry : ∀ location entry, tree.get? location = some entry →
    ∃ entry', tree'.get? location = some entry' ∧ outline entry'.node = outline entry.node

theorem IsDirectory.mono (hwithin : Within tree tree') (h : tree.IsDirectory location) :
    tree'.IsDirectory location := by
  cases location with
  | nil => rfl
  | cons name names =>
    obtain ⟨entry, hentry, hnode⟩ := Option.map_eq_some_iff.1 h
    obtain ⟨entry', hentry', houtline⟩ := hwithin.entry _ _ hentry
    refine Option.map_eq_some_iff.2 ⟨entry', hentry', ?_⟩
    rwa [← outline_eq_directory_iff, houtline, outline_eq_directory_iff]

/-- **Steps lead to the same location in a tree that has all the entries.** -/
theorem Leads.mono (hwithin : Within tree tree') (h : Leads tree follow links location steps result) :
    Leads tree' follow links location steps result := by
  induction h with
  | done => exact .done
  | stay hdirectory _ ih => exact .stay (hdirectory.mono hwithin) ih
  | up hdirectory _ ih => exact .up (hdirectory.mono hwithin) ih
  | down hdirectory hname hentry hnode _ ih =>
    obtain ⟨entry', hentry', houtline⟩ := hwithin.entry _ _ hentry
    exact .down (hdirectory.mono hwithin) hname hentry'
      (fun target htarget => hnode target ((eq_link_iff_of_outline houtline).1 htarget)) ih
  | jump hdirectory hname hentry hnode hfollow _ ih =>
    obtain ⟨entry', hentry', houtline⟩ := hwithin.entry _ _ hentry
    exact .jump (hdirectory.mono hwithin) hname hentry' ((eq_link_iff_of_outline houtline).2 hnode)
      hfollow ih
  | link hdirectory hname hentry hnode hfollow =>
    obtain ⟨entry', hentry', houtline⟩ := hwithin.entry _ _ hentry
    exact .link (hdirectory.mono hwithin) hname hentry' ((eq_link_iff_of_outline houtline).2 hnode)
      hfollow

/-! ### Links at the end -/

theorem entry?_append_singleton (tree : Tree) (location : Location) (name : Text) :
    tree.entry? (location ++ [name]) = tree.get? (location ++ [name]) := by
  cases location <;> rfl

/-- **Steps that end at no link lead to the same location if links at the end are followed.** -/
theorem Leads.following (h : Leads tree false links location steps result)
    (hresult : ∀ entry target, tree.entry? result = some entry → entry.node ≠ .link target) :
    Leads tree true links location steps result := by
  induction h with
  | done => exact .done
  | stay hdirectory _ ih => exact .stay hdirectory (ih hresult)
  | up hdirectory _ ih => exact .up hdirectory (ih hresult)
  | down hdirectory hname hentry hnode _ ih =>
    exact .down hdirectory hname hentry hnode (ih hresult)
  | jump hdirectory hname hentry hnode _ _ ih =>
    exact .jump hdirectory hname hentry hnode (.inr rfl) (ih hresult)
  | link _ _ hentry hnode _ =>
    rw [← entry?_append_singleton] at hentry
    exact absurd hnode (hresult _ _ hentry)

/-! ### Steps that stay -/

/-- The second steps are the first ones without some of the steps `.`. -/
inductive Undots : List Text → List Text → Prop
  | nil : Undots [] []
  | keep {steps steps' : List Text} (step : Text) (h : Undots steps steps') :
      Undots (step :: steps) (step :: steps')
  | drop {steps steps' : List Text} (h : Undots steps steps') : Undots (['.'] :: steps) steps'

theorem Undots.append_left {rest rest' : List Text} (front : List Text) (h : Undots rest rest') :
    Undots (front ++ rest) (front ++ rest') := by
  induction front with
  | nil => exact h
  | cons step front ih => exact .keep step ih

theorem undots_filter (steps : List Text) : Undots steps (steps.filter (· != ['.'])) := by
  induction steps with
  | nil => exact .nil
  | cons step steps ih =>
    by_cases hdot : step = ['.']
    · subst hdot
      exact .drop ih
    · rw [List.filter_cons_of_pos (by simpa using hdot)]
      exact .keep step ih

/-- Steps of which nothing is left end with a step `.`. -/
theorem Undots.getLast? (h : Undots steps []) : steps = [] ∨ steps.getLast? = some ['.'] := by
  induction steps with
  | nil => exact .inl rfl
  | cons step steps ih =>
    cases h with
    | drop h =>
      right
      rcases ih h with rfl | hlast
      · rfl
      · rw [List.getLast?_cons, hlast]
        rfl

/-- A step `.` at the end leads to a directory. -/
theorem Leads.isDirectory (h : Leads tree follow links location steps result)
    (hlast : steps.getLast? = some ['.']) : tree.IsDirectory result := by
  have hdrop : ∀ {step : Text} {rest : List Text}, step ≠ ['.'] →
      (step :: rest).getLast? = some ['.'] → rest ≠ [] ∧ rest.getLast? = some ['.'] := by
    intro step rest hne hlast
    cases rest with
    | nil => exact absurd (Option.some.inj hlast) hne
    | cons next rest => exact ⟨List.cons_ne_nil _ _, by rwa [List.getLast?_cons_cons] at hlast⟩
  induction h with
  | done => cases hlast
  | @stay _ _ _ rest hdirectory hrest ih =>
    cases rest with
    | nil =>
      cases hrest
      exact hdirectory
    | cons next rest => exact ih (by rwa [List.getLast?_cons_cons] at hlast)
  | up _ _ ih => exact ih (hdrop (by decide) hlast).2
  | down _ hname _ _ _ ih => exact ih (hdrop hname.ne_dot hlast).2
  | jump _ hname _ _ _ _ ih =>
    obtain ⟨hne, hlast⟩ := hdrop hname.ne_dot hlast
    exact ih (by rw [List.getLast?_append_of_ne_nil _ hne, hlast])
  | link _ hname _ _ _ => exact absurd (Option.some.inj hlast) hname.ne_dot

/-- **Steps `.` may be left out on the way to a file.** At the end of the way this needs that no
directory is there: behind a link, a step `.` asks for the directory that the link leads to. -/
theorem Leads.undot (h : Leads tree follow links location steps result) {steps' : List Text}
    (hundots : Undots steps steps') (hresult : ¬ tree.IsDirectory result) :
    Leads tree follow links location steps' result := by
  induction h generalizing steps' with
  | done =>
    cases hundots
    exact .done
  | stay hdirectory _ ih =>
    cases hundots with
    | keep _ hundots => exact .stay hdirectory (ih hundots hresult)
    | drop hundots => exact ih hundots hresult
  | up hdirectory _ ih =>
    cases hundots with
    | keep _ hundots => exact .up hdirectory (ih hundots hresult)
  | down hdirectory hname hentry hnode _ ih =>
    cases hundots with
    | keep _ hundots => exact .down hdirectory hname hentry hnode (ih hundots hresult)
    | drop => exact absurd rfl hname.ne_dot
  | @jump _ _ _ _ target rest _ hdirectory hname hentry hnode hfollow hrest ih =>
    cases hundots with
    | @keep _ rest' _ hundots =>
      refine .jump hdirectory hname hentry hnode ?_ (ih (hundots.append_left _) hresult)
      refine hfollow.imp_left fun hne hnil => ?_
      subst hnil
      have hlast := hundots.getLast?.resolve_left hne
      exact hresult (hrest.isDirectory (by rw [List.getLast?_append_of_ne_nil _ hne, hlast]))
    | drop => exact absurd rfl hname.ne_dot
  | link hdirectory hname hentry hnode hfollow =>
    cases hundots with
    | keep _ hundots =>
      cases hundots
      exact .link hdirectory hname hentry hnode hfollow
    | drop => exact absurd rfl hname.ne_dot

/-! ### Paths -/

variable {path path' : Text}

/-- A text that can be followed as a path. -/
structure IsPath (path : Text) : Prop where
  no_zero : path.contains '\x00' = false
  ne_nil : path ≠ []
  size_lt : Text.size path < maxPathSize

/-- **A path is resolved to the location that its steps lead to.** -/
theorem resolve_eq_ok_iff :
    tree.resolve follow path = .ok location ↔
      IsPath path ∧ Leads tree follow maxLinks (origin tree.here path) (Path.steps path) location := by
  unfold resolve trace
  constructor
  · intro h
    split at h
    · cases h
    · rename_i hzero
      split at h
      · cases h
      · rename_i hnil
        split at h
        · cases h
        · rename_i hsize
          refine ⟨⟨by simpa using hzero, by simpa using hnil, Nat.lt_of_not_le hsize⟩, ?_⟩
          exact walk_eq_ok_iff.1 h
  · rintro ⟨hpath, h⟩
    rw [if_neg (by simpa using hpath.no_zero), if_neg (by simpa using hpath.ne_nil),
      if_neg (Nat.not_le_of_lt hpath.size_lt)]
    exact walk_eq_ok_iff.2 h

theorem resolve_mono (hwithin : Within tree tree') (h : tree.resolve follow path = .ok location) :
    tree'.resolve follow path = .ok location := by
  obtain ⟨hpath, h⟩ := resolve_eq_ok_iff.1 h
  refine resolve_eq_ok_iff.2 ⟨hpath, ?_⟩
  rw [hwithin.here]
  exact h.mono hwithin

theorem resolve_follow (h : tree.resolve false path = .ok location)
    (hlocation : ∀ entry target, tree.entry? location = some entry → entry.node ≠ .link target) :
    tree.resolve true path = .ok location := by
  obtain ⟨hpath, h⟩ := resolve_eq_ok_iff.1 h
  exact resolve_eq_ok_iff.2 ⟨hpath, h.following hlocation⟩

/-- The names along a path. -/
def namesAlong (path : Text) : List Text :=
  (Path.parts path).filter fun part => !part.isEmpty && part != ['.']

theorem undots_steps (path : Text) : Undots (Path.steps path) (namesAlong path) := by
  have hnames : namesAlong path = (Path.steps path).filter (· != ['.']) := by
    unfold Path.steps namesAlong
    dsimp only
    split <;> simp [List.filter_filter, Bool.and_comm]
  rw [hnames]
  exact undots_filter _

/-- The name that a component is. -/
def nameOf? : Path.Component → Option Text
  | .name text => some text
  | .root => none
  | .current => none

theorem namesAlong_eq (path : Text) : namesAlong path = (Path.components path).filterMap nameOf? := by
  have hnames : ∀ names : List Text, (names.map Path.Component.name).filterMap nameOf? = names := by
    intro names
    rw [List.filterMap_map]
    exact List.filterMap_some
  unfold Path.components
  dsimp only
  rw [List.filterMap_append, hnames]
  split
  · rfl
  · split <;> rfl

theorem isAbsolute_eq (path : Text) :
    Path.isAbsolute path = ((Path.components path).head? == some .root) := by
  unfold Path.components
  dsimp only
  split
  · assumption
  · rename_i hrelative
    rw [Bool.eq_false_iff.2 hrelative]
    split
    · rfl
    · cases (Path.parts path).filter fun part => !part.isEmpty && part != ['.'] <;> rfl

/-- **Paths that are compared equal lead to the same file**, if they lead to no directory. -/
theorem resolve_congr {location' : Location} (hcomponents : Path.components path = Path.components path')
    (h : tree.resolve follow path = .ok location) (h' : tree.resolve follow path' = .ok location')
    (hlocation : ¬ tree.IsDirectory location) (hlocation' : ¬ tree.IsDirectory location') :
    location = location' := by
  have horigin : origin tree.here path = origin tree.here path' := by
    rw [origin, origin, isAbsolute_eq, isAbsolute_eq, hcomponents]
  have hnames : namesAlong path = namesAlong path' := by
    rw [namesAlong_eq, namesAlong_eq, hcomponents]
  have hleads := (resolve_eq_ok_iff.1 h).2.undot (undots_steps path) hlocation
  have hleads' := (resolve_eq_ok_iff.1 h').2.undot (undots_steps path') hlocation'
  rw [horigin, hnames] at hleads
  exact Except.ok.inj ((walk_eq_ok_iff.2 hleads).symm.trans (walk_eq_ok_iff.2 hleads'))

end Tree
end Files
end ScriptUpgrade
